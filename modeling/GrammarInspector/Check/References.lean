import GrammarInspector.Check.Scope
import GrammarInspector.Tree.Walk

/-!
Checks of the elements of rule bodies: references lead to something, and literals and
character sets are well written.
-/

namespace GrammarInspector.Check

/-! ## Escapes -/

/-- A backslash with the character behind it, in a literal or character set. -/
structure Escape where
  /-- Bytes in front of the backslash. -/
  bytes : Nat
  /-- UTF-16 units in front of the backslash. -/
  units : Nat
  escaped : Char
deriving DecidableEq, Repr

/-- The escapes of a text, with some bytes and units in front of it. A backslash at the
end escapes nothing. -/
def escapesFrom (bytes units : Nat) : List Char → List Escape
  | [] => []
  | ['\\'] => []
  | '\\' :: escaped :: rest =>
    ⟨bytes, units, escaped⟩ ::
      escapesFrom (bytes + 1 + escaped.utf8Size) (units + 1 + Text.utf16Size escaped) rest
  | character :: rest =>
    escapesFrom (bytes + character.utf8Size) (units + Text.utf16Size character) rest

def literalEscapes : List Char := ['n', 'r', 't', 'b', 'f', '\\', '\'', 'u']

def setEscapes : List Char := ['n', 'r', 't', 'b', 'f', '\\', ']', '-', 'u', 'p', 'P']

/-- Only characters of `valid` are escaped. -/
def escapes (file : GrammarFile) (valid : List Char) (node : Node) : List Message :=
  match node.tree.anchor, file.grammar.position? node with
  | some span, some position =>
    let faulty := (escapesFrom 0 0 node.text.toList).filter fun escape =>
      !valid.contains escape.escaped
    faulty.map fun escape =>
      let start := span.start + escape.bytes
      file.messageAt .invalidEscapeSequence
        ⟨position.line, position.column + escape.units⟩
        ⟨start, start + 1 + escape.escaped.utf8Size⟩
          [String.ofList ['\\', escape.escaped]]
  | _, _ => []

/-! ## Elements -/

/-- An element of a lexer rule refers to lexer rules only. -/
def lexerElement (scope : Scope) (rule node : Node) : List Message :=
  let text := node.text
  match node.kind with
  | .tokenRef =>
    if text = "EOF" || scope.definesLexerRule text ||
        scope.external.tokens.contains text then []
    else [scope.file.messageAtNode .undefinedRuleRef node [text]]
  | .ruleRef =>
    [scope.file.messageAtNode .parserRuleRefInLexerRule node
      [text, rule.tree.ruleName?.getD ""]]
  | _ => []

/-- An element of a parser rule refers to tokens and parser rules that are defined. A
literal in a grammar without lexer rules stands for a token of some vocabulary. -/
def parserElement (scope : Scope) (node : Node) : List Message :=
  let text := node.text
  match node.kind with
  | .tokenRef =>
    if scope.definesToken text then []
    else [scope.file.messageAtNode .implicitTokenDefinition node [text]]
  | .ruleRef =>
    if scope.definesParserRule text then []
    else [scope.file.messageAtNode .undefinedRuleRef node [text]]
  | .literal =>
    if scope.grammar.flavour = .parser && !scope.external.literals.contains text then
      [scope.file.messageAtNode .implicitStringDefinition node [text]]
    else []
  | _ => []

/-- The text of a literal or character set that holds nothing. -/
def emptyText? : NodeKind → Option String
  | .literal => some "''"
  | .charSet => some "[]"
  | _ => none

def validEscapes? : NodeKind → Option (List Char)
  | .literal => some literalEscapes
  | .charSet => some setEscapes
  | _ => none

/-- An element is well written and refers to something. Of an empty literal or set nothing
else is said. -/
def element (scope : Scope) (node : Node) : List Message :=
  match node.enclosingRule? with
  | none => []
  | some rule =>
    if emptyText? node.kind = some node.text then
      [scope.file.messageAtNode .emptyStringsAndSetsNotAllowed node [node.text]]
    else
      let written := match validEscapes? node.kind with
        | some valid => escapes scope.file valid node
        | none => []
      written ++
        if rule.tree.isLexerRule then lexerElement scope rule node
        else parserElement scope node

def references (scope : Scope) : List Message :=
  scope.grammar.tree.elements.flatMap (element scope)

end GrammarInspector.Check
