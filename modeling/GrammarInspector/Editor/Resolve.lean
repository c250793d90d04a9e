import GrammarInspector.Editor.Locate

/-!
What an editor asks about a place: a description, the definition of a name and its uses.

Names are matched by kind of node and text. Grammars have one flat space of names, and the
first letter tells parser rules from tokens, so this tells symbols apart.
-/

namespace GrammarInspector.Grammar

open Editor (Place Range)

/-- The node at a place as an expression, or nothing. -/
def hover (grammar : Grammar) (place : Place) : String :=
  match grammar.locate? place with
  | some node => node.tree.expression
  | none => ""

/-- Whether a node stands directly in a rule of the given name. -/
def declares (name : String) (node : Node) : Bool :=
  (node.parent?.bind (·.tree.ruleName?)) = some name

def isDeclaration (node : Node) : Bool := node.parent?.any (·.isRule)

/-- The ranges where the name at a place is declared. -/
def definition (grammar : Grammar) (place : Place) : List Range :=
  match grammar.locate? place with
  | none => []
  | some node =>
    let length := Text.utf16Length node.text.toList
    let candidates := (grammar.tree.nodesOfKind node.kind).filter (declares node.text)
    candidates.map (grammar.rangeWithLength · length)

/-- The node whose text is the name at a place: the node there, or the name of
the rule there. -/
def symbol? (grammar : Grammar) (place : Place) : Option Node :=
  (grammar.locate? place).bind fun node =>
    if node.isRule then node.firstChild? else some node

/-- The ranges of all occurrences of the name at a place, in the order of the tree. -/
def references (grammar : Grammar) (place : Place) (withDeclaration : Bool) :
    List Range :=
  match grammar.symbol? place with
  | none => []
  | some symbol =>
    let length := Text.utf16Length symbol.text.toList
    let occurrences := (grammar.tree.nodesOfKind symbol.kind).filter fun node =>
      node.text = symbol.text && (withDeclaration || !isDeclaration node)
    occurrences.map (grammar.rangeWithLength · length)

end GrammarInspector.Grammar
