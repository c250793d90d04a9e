import GrammarInspector.Editor.Session
import GrammarInspector.Main
import GrammarInspector.Proofs.Arena.Reading
import GrammarInspector.Proofs.Check.EmptyComplete
import GrammarInspector.Proofs.Check.Escapes
import GrammarInspector.Proofs.Check.Library
import GrammarInspector.Proofs.Check.Nesting
import GrammarInspector.Proofs.Check.Repetition
import GrammarInspector.Proofs.Check.TokenList
import GrammarInspector.Proofs.Check.Unresolved
import GrammarInspector.Proofs.Command.Agreement
import GrammarInspector.Proofs.Grammar.Rounds
import GrammarInspector.Proofs.Editor.History
import GrammarInspector.Proofs.Editor.Occurrences
import GrammarInspector.Proofs.Editor.SourceOrder
import GrammarInspector.Proofs.Grammar.Isolation
import GrammarInspector.Proofs.Grammar.Shape.Reading
import GrammarInspector.Proofs.Grammar.Texts
import GrammarInspector.Proofs.Message.Filling
import GrammarInspector.Proofs.Message.Label
import GrammarInspector.Proofs.Text.Counting
import GrammarInspector.Proofs.Token.Action
import GrammarInspector.Proofs.Token.Alone
import GrammarInspector.Proofs.Tree.Reported
