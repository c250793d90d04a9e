import GrammarInspector.Proofs.Tree.Preorder

/-! # Holders and what they hold

Every node but the root is a child of its parent, and a node lies below each of its
holders.
-/

namespace GrammarInspector

open List

namespace Node

variable {index : Nat} {above : List (Nat × Tree)} {trees : List Tree}
  {node child : Node}

theorem map_tree_siblings (index : Nat) (above : List (Nat × Tree)) (trees : List Tree) :
    (siblings index above trees).map (·.tree) = trees := by
  induction trees generalizing index with
  | nil => rfl
  | cons tree rest induction => simp [siblings, induction]

theorem above_of_mem_siblings (member : node ∈ siblings index above trees) :
    node.above = above := by
  induction trees generalizing index with
  | nil => cases member
  | cons tree rest induction =>
    cases member with
    | head => rfl
    | tail _ later => exact induction later

theorem tree_mem_of_mem_siblings (member : node ∈ siblings index above trees) :
    node.tree ∈ trees := by
  rw [← map_tree_siblings index above trees]
  exact mem_map_of_mem member

theorem siblings_sublist (index : Nat) (above : List (Nat × Tree)) (trees : List Tree) :
    (siblings index above trees).Sublist (ofTrees index above trees) := by
  induction trees generalizing index with
  | nil => exact .slnil
  | cons tree rest induction =>
    have root : [⟨index, tree, above⟩].Sublist (ofTree index above tree) :=
      singleton_sublist.mpr (ofTree_self_mem index above tree)
    rw [ofTrees_cons]
    exact root.append (induction _)

theorem siblings_append (index : Nat) (above : List (Nat × Tree))
    (trees others : List Tree) :
    siblings index above (trees ++ others) =
      siblings index above trees ++ siblings (index + Tree.sizeAll trees)
        above others := by
  induction trees generalizing index with
  | nil => simp [siblings]
  | cons tree rest induction => simp [siblings, induction, Nat.add_assoc]

theorem exists_sibling_of_mem (member : node ∈ ofTrees index above trees) :
    ∃ sibling ∈ siblings index above trees, node ∈ sibling.descendants := by
  induction trees generalizing index with
  | nil => simp at member
  | cons tree rest induction =>
    rw [ofTrees_cons, mem_append] at member
    rcases member with here | later
    · exact ⟨⟨index, tree, above⟩, .head _, here⟩
    · obtain ⟨sibling, included, inside⟩ := induction later
      exact ⟨sibling, .tail _ included, inside⟩

theorem exists_of_mem_ofTrees (member : node ∈ ofTrees index above trees) :
    ∃ tree ∈ trees, ∃ first, node ∈ ofTree first above tree := by
  obtain ⟨sibling, included, inside⟩ := exists_sibling_of_mem member
  refine ⟨sibling.tree, tree_mem_of_mem_siblings included, sibling.index, ?_⟩
  rwa [← above_of_mem_siblings included]

theorem ofTrees_eq_flatMap (index : Nat) (above : List (Nat × Tree)) (trees : List Tree) :
    ofTrees index above trees = (siblings index above trees).flatMap descendants := by
  induction trees generalizing index with
  | nil => simp [siblings]
  | cons tree rest induction => simp [siblings, induction, descendants]

theorem descendants_eq_cons (node : Node) :
    node.descendants = node :: node.children.flatMap descendants := by
  obtain ⟨index, ⟨data, children⟩, above⟩ := node
  rw [descendants, ofTree_node, ofTrees_eq_flatMap, Node.children, Tree.children_node]

theorem map_tree_children (node : Node) :
    node.children.map (·.tree) = node.tree.children :=
  map_tree_siblings ..

theorem tree_mem_children (member : child ∈ node.children) :
    child.tree ∈ node.tree.children :=
  tree_mem_of_mem_siblings member

theorem childOfKind?_tree (node : Node) (kind : NodeKind) :
    node.tree.childOfKind? kind = (node.childOfKind? kind).map (·.tree) := by
  rw [Tree.childOfKind?, ← map_tree_children, find?_map]
  rfl

theorem pairwise_index_children (node : Node) :
    node.children.Pairwise (·.index < ·.index) :=
  (pairwise_index_ofTrees node.tree.children _ _).sublist (siblings_sublist ..)

theorem above_of_mem_children (member : child ∈ node.children) :
    child.above = (node.index, node.tree) :: node.above :=
  above_of_mem_siblings member

theorem parent?_of_mem_children (member : child ∈ node.children) :
    child.parent? = some node := by
  rw [parent?, above_of_mem_children member]

theorem mem_descendants_of_mem_children (member : child ∈ node.children) :
    child ∈ node.descendants := by
  obtain ⟨index, tree, above⟩ := node
  cases tree with
  | node data children =>
    rw [descendants, ofTree_node]
    exact mem_cons_of_mem _ ((siblings_sublist _ _ _).subset member)

mutual

/-- A node of a tree is its root or the child of another of its nodes. -/
theorem eq_or_child_of_mem_ofTree : (tree : Tree) → {index : Nat} →
      {above : List (Nat × Tree)} →
    {node : Node} → node ∈ ofTree index above tree →
    node = ⟨index, tree, above⟩ ∨ ∃ parent : Node, node ∈ parent.children
  | .node data children, index, above, node, member => by
      rw [ofTree_node, mem_cons] at member
      apply member.imp_right
      intro below
      rcases eq_or_child_of_mem_ofTrees children below with child | inside
      · exact ⟨⟨index, .node data children, above⟩, child⟩
      · exact inside

theorem eq_or_child_of_mem_ofTrees : (trees : List Tree) → {index : Nat} →
    {above : List (Nat × Tree)} → {node : Node} → node ∈ ofTrees index above trees →
    node ∈ siblings index above trees ∨ ∃ parent : Node, node ∈ parent.children
  | [], index, above, node, member => by simp at member
  | tree :: rest, index, above, node, member => by
      rw [ofTrees_cons, mem_append] at member
      rcases member with here | later
      · apply (eq_or_child_of_mem_ofTree tree here).imp_left
        intro equal
        rw [equal]
        exact .head _
      · exact (eq_or_child_of_mem_ofTrees rest later).imp_left (.tail _)

end

end Node

namespace Tree

variable {tree : Tree} {node parent child holder : Node}

theorem mem_children_of_parent? (member : node ∈ tree.nodes)
    (isParent : node.parent? = some parent) : node ∈ parent.children := by
  rcases Node.eq_or_child_of_mem_ofTree tree member with rfl | ⟨other, child⟩
  · cases isParent
  · have same := (Node.parent?_of_mem_children child).symm.trans isParent
    cases same
    exact child

theorem mem_nodes_of_mem_descendants (member : node ∈ tree.nodes)
    (inside : child ∈ node.descendants) : child ∈ tree.nodes :=
  Node.mem_ofTree_of_mem_descendants tree member inside

/-- The nodes in a node have the numbers that follow its own. -/
theorem mem_descendants_of_index {left right : Node} (leftMember : left ∈ tree.nodes)
    (rightMember : right ∈ tree.nodes) (lower : left.index ≤ right.index)
    (upper : right.index < left.index + left.tree.size) : right ∈ left.descendants := by
  have numbered : right.index ∈ left.descendants.map (·.index) := by
    rw [Node.descendants, Node.map_index_ofTree, mem_range'_1]
    exact ⟨lower, upper⟩
  obtain ⟨inside, isInside, same⟩ := mem_map.mp numbered
  rwa [← eq_of_index_eq (mem_nodes_of_mem_descendants leftMember isInside)
    rightMember same]

theorem child_mem_nodes (member : node ∈ tree.nodes) (isChild : child ∈ node.children) :
    child ∈ tree.nodes :=
  mem_nodes_of_mem_descendants member (Node.mem_descendants_of_mem_children isChild)

/-- A node lies below all its holders. -/
theorem mem_descendants_of_holder (member : node ∈ tree.nodes)
    (held : (holder.index, holder.tree) :: holder.above <:+ node.above) :
    node ∈ holder.descendants := by
  obtain ⟨index, subtree, above⟩ := node
  induction above generalizing index subtree with
  | nil => exact absurd (suffix_nil.mp held) (cons_ne_nil _ _)
  | cons nearest further induction =>
    have child := mem_children_of_parent? member rfl
    have below := Node.mem_descendants_of_mem_children child
    rcases suffix_cons_iff.mp held with isParent | above
    · cases isParent
      exact below
    · have between := induction nearest.1 nearest.2 (parent_mem_nodes member rfl) above
      exact Node.mem_ofTree_of_mem_descendants holder.tree between below

/-- A node that has a holder of a kind lies below a node of that kind. -/
theorem exists_holder_of_mem {kind : NodeKind} (member : node ∈ tree.nodes)
    (above : kind ∈ node.above.map (·.2.kind)) :
    ∃ holder ∈ tree.nodesOfKind kind, node ∈ holder.descendants := by
  obtain ⟨⟨index, subtree⟩, inside, isKind⟩ := mem_map.mp above
  obtain ⟨front, behind, equal⟩ := append_of_mem inside
  have held : (index, subtree) :: behind <:+ node.above := ⟨front, equal.symm⟩
  let holder : Node := ⟨index, subtree, behind⟩
  have holderMember : holder ∈ tree.nodes := (holder_mem_nodes member held).1
  refine ⟨holder, mem_filter.mpr ⟨holderMember, ?_⟩,
    mem_descendants_of_holder member held⟩
  exact decide_eq_true isKind

end Tree

end GrammarInspector
