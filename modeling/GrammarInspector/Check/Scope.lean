import GrammarInspector.Check.Nullability
import GrammarInspector.Check.Vocabulary

/-!
What checks find, the sections of a grammar they look at, and the names in scope.
-/

namespace GrammarInspector

/-- What a check reports: messages, and notes on what it did. -/
structure Findings where
  messages : List Message
  notes : List String

namespace Findings

def empty : Findings := ⟨[], []⟩

def append (first second : Findings) : Findings :=
  ⟨first.messages ++ second.messages, first.notes ++ second.notes⟩

instance : Append Findings := ⟨append⟩

def ofMessages (messages : List Message) : Findings := ⟨messages, []⟩

@[simp] theorem messages_empty : empty.messages = [] := rfl

@[simp] theorem messages_append (first second : Findings) :
    (first ++ second).messages = first.messages ++ second.messages := rfl

@[simp] theorem messages_ofMessages (messages : List Message) :
    (ofMessages messages).messages = messages := rfl

def ofSeverity (findings : Findings) (severity : Severity) : List Message :=
  findings.messages.filter (·.severity = severity)

def errors (findings : Findings) : List Message := findings.ofSeverity .error

def warnings (findings : Findings) : List Message := findings.ofSeverity .warning

end Findings

namespace Grammar

def nameNode? (grammar : Grammar) : Option Node :=
  grammar.tree.root.firstChild?.filter (·.kind = .identifier)

/-- The sections of a kind that stand directly in the grammar. -/
def sections (grammar : Grammar) (kind : NodeKind) : List Node :=
  grammar.tree.root.children.filter (·.kind = kind)

def options (grammar : Grammar) : List (Node × Node) :=
  ((grammar.sections .options).flatMap (·.children)).filterMap fun option =>
    match option.children with
    | [name, value] => if option.kind = .assign then some (name, value) else none
    | _ => none

/-- The values of the options that name a token vocabulary. -/
def vocabularyNames (grammar : Grammar) : List Node :=
  (grammar.options.filter (·.1.text = "tokenVocab")).map (·.2)

/-- The names of the grammars to import. An import under another name gives
that name first. -/
def importNames (grammar : Grammar) : List Node :=
  ((grammar.sections .imports).flatMap (·.children)).filterMap fun entry =>
    if entry.kind = .assign then entry.children[1]? else some entry

end Grammar

/-- The names that the rules of a grammar can use. -/
structure Scope where
  file : GrammarFile
  /-- The rules of the grammar. A name belongs to the first rule that declares it. -/
  rules : List Node
  external : Vocabulary

namespace Scope

def grammar (scope : Scope) : Grammar := scope.file.grammar

def firstRule? (scope : Scope) (name : String) : Option Node :=
  Nullability.firstRule? scope.rules name

def definesLexerRule (scope : Scope) (name : String) : Bool :=
  (scope.firstRule? name).any (·.tree.isLexerRule)

def definesParserRule (scope : Scope) (name : String) : Bool :=
  (scope.firstRule? name).any (!·.tree.isLexerRule) ||
    scope.external.parserRules.contains name

def listsToken (scope : Scope) (name : String) : Bool :=
  (scope.grammar.sections .tokens).any fun tokens => tokens.children.any (·.text = name)

def definesToken (scope : Scope) (name : String) : Bool :=
  name = "EOF" || scope.definesLexerRule name || scope.external.tokens.contains name ||
    scope.listsToken name

end Scope

end GrammarInspector
