import GrammarInspector.Tree.Basic

/-!
Nodes as places in a tree.

Equal subtrees can occur at several places of one tree. A `Node` is one occurrence: it
knows its number in the pre-order of the whole tree, which tells it from all others, and
the nodes above it.
-/

namespace GrammarInspector

/-- An occurrence of a subtree in a larger tree. -/
structure Node where
  /-- Number in the pre-order of the whole tree. -/
  index : Nat
  tree : Tree
  /-- The subtrees that hold the node, the nearest first, with their numbers. -/
  above : List (Nat × Tree)

namespace Node

def kind (node : Node) : NodeKind := node.tree.kind

def text (node : Node) : String := node.tree.text

def isRule (node : Node) : Bool := node.kind = .rule

/-! ## Up -/

def parent? (node : Node) : Option Node :=
  match node.above with
  | [] => none
  | (index, tree) :: above => some ⟨index, tree, above⟩

/-- The nodes that a list of holders describes, the nearest first. -/
def ancestorsOf : List (Nat × Tree) → List Node
  | [] => []
  | (index, tree) :: above => ⟨index, tree, above⟩ :: ancestorsOf above

/-- The node and all nodes above it, the nearest first. -/
def lineage (node : Node) : List Node := node :: ancestorsOf node.above

/-- The rule that a node belongs to; a rule belongs to itself. -/
def enclosingRule? (node : Node) : Option Node := node.lineage.find? isRule

/-! ## Down -/

/-- Neighbouring trees as nodes. The first has the number `index`, and each next one comes
after all nodes of the one before. -/
def siblings (index : Nat) (above : List (Nat × Tree)) : List Tree → List Node
  | [] => []
  | tree :: rest => ⟨index, tree, above⟩ :: siblings (index + tree.size) above rest

def children (node : Node) : List Node :=
  siblings (node.index + 1) ((node.index, node.tree) :: node.above) node.tree.children

def firstChild? (node : Node) : Option Node := node.children.head?

def childOfKind? (node : Node) (kind : NodeKind) : Option Node :=
  node.children.find? (·.kind = kind)

mutual

/-- All nodes of a tree in pre-order, the root having the number `index`. -/
def ofTree (index : Nat) (above : List (Nat × Tree)) : Tree → List Node
  | .node data children =>
    ⟨index, .node data children, above⟩ ::
      ofTrees (index + 1) ((index, .node data children) :: above) children

/-- All nodes of neighbouring trees in pre-order. -/
def ofTrees (index : Nat) (above : List (Nat × Tree)) : List Tree → List Node
  | [] => []
  | tree :: rest => ofTree index above tree ++ ofTrees (index + tree.size) above rest

end

def descendants (node : Node) : List Node := ofTree node.index node.above node.tree

end Node

namespace Tree

def root (tree : Tree) : Node := ⟨0, tree, []⟩

def nodes (tree : Tree) : List Node := tree.root.descendants

def nodesOfKind (tree : Tree) (kind : NodeKind) : List Node :=
  tree.nodes.filter (·.kind = kind)

/-- All rules, those of lexer modes included. -/
def rules (tree : Tree) : List Node := tree.nodesOfKind .rule

end Tree

end GrammarInspector
