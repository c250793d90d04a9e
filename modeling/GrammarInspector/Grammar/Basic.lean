import GrammarInspector.Grammar.Reading
import GrammarInspector.Text.LineIndex
import GrammarInspector.Text.Lines
import GrammarInspector.Tree.Node

/-!
A grammar as it is read from source text: its tree, its syntax errors, and the place of
each node in the text.
-/

namespace GrammarInspector

/-- Why a source is not a grammar, at one of its places. -/
inductive SyntaxCause where
  /-- Text that is no token. -/
  | lexical (fault : LexFault)
  /-- A token that does not continue the construct it stands in. -/
  | mismatched (expected : Expected)
  /-- A token that begins no construct. -/
  | extraneous (expected : Expected)
deriving DecidableEq, Repr

/-- A syntax error and the text it is about. -/
structure SyntaxError where
  cause : SyntaxCause
  span : Span
  /-- The text at fault, up to the first line break. -/
  offending : String
deriving DecidableEq, Repr

namespace SyntaxError

def message (error : SyntaxError) : String :=
  match error.cause with
  | .lexical fault => fault.message
  | .mismatched expected =>
    s!"mismatched input '{error.offending}' expecting {expected.describe}"
  | .extraneous expected =>
    s!"extraneous input '{error.offending}' expecting {expected.describe}"

/-- The error of a token that is none. -/
def ofToken? (token : Token) : Option SyntaxError :=
  match token.kind with
  | .error fault => some ⟨.lexical fault, token.span, Text.firstLine token.text⟩
  | _ => none

/-- The error of a construct, in a source of `size` bytes. -/
def ofFault (size : Nat) (fault : SyntaxFault) : SyntaxError :=
  let cause :=
    if fault.extraneous then .extraneous fault.expected else .mismatched fault.expected
  match fault.found with
  | some token => ⟨cause, token.span, Text.firstLine token.text⟩
  | none => ⟨cause, .emptyAt size, TokenKind.eof.describe⟩

end SyntaxError

namespace Token

/-- Whether a token takes part in the grammar: comments, faulty text and the end
mark do not. -/
def isSignificant (token : Token) : Bool :=
  match token.kind with
  | .comment _ | .error _ | .eof => false
  | _ => true

end Token

structure Grammar where
  source : String
  lines : LineIndex
  flavour : GrammarFlavour
  tree : Tree
  /-- The syntax errors in source order. -/
  errors : List SyntaxError

namespace Grammar

/-- Reads a source text. Errors at the same place keep their order, with those of single
tokens first. -/
def ofSource (source : String) : Grammar :=
  let lines := LineIndex.ofText source.toList
  let tokens := Token.ofText source.toList
  let reading := Reading.ofTokens (tokens.filter (·.isSignificant))
  let errors :=
    tokens.filterMap SyntaxError.ofToken? ++ reading.faults.map
      (SyntaxError.ofFault lines.size)
  { source
    lines
    flavour := reading.flavour
    tree := reading.tree
    errors := errors.mergeSort fun first second => first.span.start ≤ second.span.start }

def isWellFormed (grammar : Grammar) : Bool := grammar.errors.isEmpty

def name? (grammar : Grammar) : Option String :=
  match grammar.tree.firstChild? with
  | some first => if first.kind = .identifier then some first.text else none
  | none => none

/-! ## Places -/

def position? (grammar : Grammar) (node : Node) : Option Position :=
  node.tree.anchor.map fun span => grammar.lines.position span.start

/-- The line where a node begins; zero if it has no place. -/
def line (grammar : Grammar) (node : Node) : Nat :=
  ((grammar.position? node).map (·.line)).getD 0

/-- The column where a node begins; zero if it has no place. -/
def column (grammar : Grammar) (node : Node) : Nat :=
  ((grammar.position? node).map (·.column)).getD 0

/-! ## Labels of alternatives -/

structure Labelled where
  label : AltLabel
  rule : Node
  alternative : Node

def labelledOf (rule : Node) : List Labelled :=
  match rule.childOfKind? .block with
  | none => []
  | some block =>
    block.children.filterMap fun alternative =>
      alternative.tree.data.label.map fun label => ⟨label, rule, alternative⟩

def labels (grammar : Grammar) : List Labelled :=
  (grammar.tree.rules.flatMap labelledOf).mergeSort fun first second =>
    first.label.span.start ≤ second.label.span.start

end Grammar

end GrammarInspector
