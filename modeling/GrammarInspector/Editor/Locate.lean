import GrammarInspector.Editor.Range
import GrammarInspector.Tree.Walk

/-!
The node of a grammar at a place of the document.
-/

namespace GrammarInspector.Grammar

open Editor (Place)

/-- Whether a place lies on the text of a node. The place just behind the text counts too,
so that a cursor behind a name still selects it. -/
def covers (grammar : Grammar) (node : Node) (place : Place) : Bool :=
  match grammar.position? node with
  | none => false
  | some position =>
    position.line = place.line + 1 && position.column ≤ place.character &&
      place.character ≤ position.column + Text.utf16Length node.text.toList

/-- Whether a place lies on the name of a rule. -/
def coversName (grammar : Grammar) (place : Place) (rule : Node) : Bool :=
  rule.firstChild?.any (grammar.covers · place)

/-- The node that a place selects by the report of a walk. The name of a parser rule
selects the whole rule, the name of a lexer rule the name alone. -/
def selection? (grammar : Grammar) (place : Place) (event : Walk.Event) : Option Node :=
  match event.category with
  | .parserRule => if grammar.coversName place event.node then some event.node else none
  | .lexerRule =>
      if grammar.coversName place event.node then event.node.firstChild? else none
  | .element => if grammar.covers event.node place then some event.node else none

/-- The walk that looks for a place: it does not enter a rule whose name is there. -/
def search (grammar : Grammar) (place : Place) : Walk :=
  ⟨fun _ => true, fun node => node.isRule && grammar.coversName place node⟩

/-- The last and so the innermost node that a place selects. -/
def locate? (grammar : Grammar) (place : Place) : Option Node :=
  let events := (grammar.search place).events grammar.tree.root
  (events.filterMap (grammar.selection? place)).getLast?

end GrammarInspector.Grammar
