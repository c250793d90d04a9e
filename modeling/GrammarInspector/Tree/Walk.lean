import GrammarInspector.Tree.Node

/-!
Walks over a tree that report nodes by category.

A walk goes through a subtree in pre-order. It reports rules and the elements of rule
bodies, and it may be told to leave out what is below a reported node. Options and named
actions hold nodes of the same kinds as elements; those are not part of a body and are
never reported.
-/

namespace GrammarInspector

inductive Category where
  | parserRule
  | lexerRule
  /-- References, literals, sets, actions, labels, suffixes and subrules of a rule
  body. -/
  | element
deriving DecidableEq, Repr

namespace Node

/-- Whether a block stands as an element of its own, not under a suffix. -/
def isSubrule (node : Node) : Bool :=
  node.kind = .block &&
    node.parent?.any fun parent =>
      parent.kind = .alternative || parent.kind = .assign || parent.kind = .plusAssign

/-- The category of a node, if it has one. `inBody` tells whether the node is part of
a rule body. -/
def category? (inBody : Bool) (node : Node) : Option Category :=
  if node.kind = .rule then
    some (if node.tree.isLexerRule then .lexerRule else .parserRule)
  else if inBody && (node.isSubrule || node.kind.isElement) then some .element
  else none

/-- Whether what is below a node of a kind is part of a rule body. -/
def bodyBelow (inBody : Bool) : NodeKind → Bool
  | .block => true
  | .elementOptions | .options | .namedAction => false
  | _ => inBody

end Node

/-- What a walk reports and where it does not go on. -/
structure Walk where
  reports : Category → Bool
  /-- Whether to leave out what is below a reported node. -/
  skips : Node → Bool

namespace Walk

structure Event where
  category : Category
  node : Node

/-- The report on a node, if it is to be reported. -/
def event? (walk : Walk) (inBody : Bool) (node : Node) : Option Event :=
  match node.category? inBody with
  | some category => if walk.reports category then some ⟨category, node⟩ else none
  | none => none

mutual

/-- The reports on a tree at a given place. -/
def ofTree (walk : Walk) (inBody : Bool) (index : Nat) (above : List (Nat × Tree)) :
    Tree → List Event
  | .node data children =>
    let below := ofTrees walk (Node.bodyBelow inBody data.kind) (index + 1)
      ((index, .node data children) :: above) children
    match walk.event? inBody ⟨index, .node data children, above⟩ with
    | some event => event :: if walk.skips event.node then [] else below
    | none => below

def ofTrees (walk : Walk) (inBody : Bool) (index : Nat) (above : List (Nat × Tree)) :
    List Tree → List Event
  | [] => []
  | tree :: rest =>
    ofTree walk inBody index above tree ++ ofTrees walk inBody
      (index + tree.size) above rest

end

/-- The reports on a node and what is below it. The walk starts outside of
any rule body. -/
def events (walk : Walk) (start : Node) : List Event :=
  walk.ofTree false start.index start.above start.tree

end Walk

namespace Tree

/-- The elements of all rule bodies in pre-order. -/
def elements (tree : Tree) : List Node :=
  let walk : Walk := ⟨fun category => category = .element, fun _ => false⟩
  (walk.events tree.root).map (·.node)

end Tree

end GrammarInspector
