import Mathlib.Data.List.Pairwise
import GrammarInspector.Tree.Node

/-! # Pre-order

The list of all nodes of a tree has them in the order of their numbers. It goes along with
joining lists of trees, holds the nodes above each of its nodes, and the first child of
each of its nodes.
-/

namespace GrammarInspector

open List

namespace Tree

@[simp] theorem size_node (data : NodeData) (children : List Tree) :
    (node data children).size = sizeAll children + 1 := by
  rw [size]

@[simp] theorem sizeAll_nil : sizeAll [] = 0 := by
  rw [sizeAll]

@[simp] theorem sizeAll_cons (tree : Tree) (rest : List Tree) :
    sizeAll (tree :: rest) = tree.size + sizeAll rest := by
  rw [sizeAll]

theorem anchor_of_span {tree : Tree} {span : Span} (own : tree.span = some span) :
    tree.anchor = some span := by
  cases tree with
  | node data children =>
    rw [anchor, show data.span = some span from own]
    rfl

end Tree

namespace Node

variable {node child : Node}

@[simp] theorem ofTree_node (index : Nat) (above : List (Nat × Tree)) (data : NodeData)
    (children : List Tree) :
    ofTree index above (.node data children) = ⟨index, .node data children, above⟩ ::
        ofTrees (index + 1) ((index, .node data children) :: above) children := by
  rw [ofTree]

@[simp] theorem ofTrees_nil (index : Nat) (above : List (Nat × Tree)) :
    ofTrees index above [] = [] := by
  rw [ofTrees]

@[simp] theorem ofTrees_cons (index : Nat) (above : List (Nat × Tree)) (tree : Tree)
    (rest : List Tree) :
    ofTrees index above (tree :: rest) =
      ofTree index above tree ++ ofTrees (index + tree.size) above rest := by
  rw [ofTrees]

theorem ofTrees_append (index : Nat) (above : List (Nat × Tree))
    (trees others : List Tree) :
    ofTrees index above (trees ++ others) =
      ofTrees index above trees ++ ofTrees (index + Tree.sizeAll trees) above others := by
  induction trees generalizing index with
  | nil => simp
  | cons tree rest induction =>
    simp [induction, Nat.add_assoc]

mutual

theorem length_ofTree (index : Nat) (above : List (Nat × Tree)) :
    (tree : Tree) → (ofTree index above tree).length = tree.size
  | .node data children => by
      rw [ofTree_node, length_cons, length_ofTrees, Tree.size_node]

theorem length_ofTrees (index : Nat) (above : List (Nat × Tree)) :
    (trees : List Tree) → (ofTrees index above trees).length = Tree.sizeAll trees
  | [] => by rw [ofTrees_nil, length_nil, Tree.sizeAll_nil]
  | tree :: rest => by
      rw [ofTrees_cons, length_append, length_ofTree, length_ofTrees, Tree.sizeAll_cons]

end

theorem ofTree_self_mem (index : Nat) (above : List (Nat × Tree)) (tree : Tree) :
    ⟨index, tree, above⟩ ∈ ofTree index above tree := by
  cases tree with
  | node data children => simp

theorem root_mem_ofTrees (index : Nat) (above : List (Nat × Tree)) (tree : Tree)
    (rest : List Tree) : ⟨index, tree, above⟩ ∈ ofTrees index above (tree :: rest) := by
  rw [ofTrees_cons]
  exact mem_append_left _ (ofTree_self_mem index above tree)

/-! ## Numbers -/

mutual

theorem index_of_mem_ofTree : (tree : Tree) → {index : Nat} →
      {above : List (Nat × Tree)} →
    {node : Node} → node ∈ ofTree index above tree →
    index ≤ node.index ∧ node.index < index + tree.size
  | .node data children, index, above, node, member => by
      rw [ofTree_node, mem_cons] at member
      rw [Tree.size_node]
      rcases member with rfl | below
      · exact ⟨Nat.le_refl index, by dsimp only; omega⟩
      · have bounds := index_of_mem_ofTrees children below
        omega

theorem index_of_mem_ofTrees : (trees : List Tree) → {index : Nat} →
    {above : List (Nat × Tree)} → {node : Node} → node ∈ ofTrees index above trees →
    index ≤ node.index ∧ node.index < index + Tree.sizeAll trees
  | [], index, above, node, member => by simp at member
  | tree :: rest, index, above, node, member => by
      rw [ofTrees_cons, mem_append] at member
      rw [Tree.sizeAll_cons]
      rcases member with first | later
      · have bounds := index_of_mem_ofTree tree first
        omega
      · have bounds := index_of_mem_ofTrees rest later
        omega

end

mutual

theorem pairwise_index_ofTree : (tree : Tree) → (index : Nat) →
      (above : List (Nat × Tree)) →
    (ofTree index above tree).Pairwise (·.index < ·.index)
  | .node data children, index, above => by
      rw [ofTree_node, pairwise_cons]
      refine ⟨?_, pairwise_index_ofTrees children _ _⟩
      intro node member
      exact (index_of_mem_ofTrees children member).1

theorem pairwise_index_ofTrees : (trees : List Tree) → (index : Nat) →
    (above : List (Nat × Tree)) → (ofTrees index above trees).Pairwise (·.index < ·.index)
  | [], index, above => by simp
  | tree :: rest, index, above => by
      rw [ofTrees_cons, pairwise_append]
      refine ⟨pairwise_index_ofTree tree _ _, pairwise_index_ofTrees rest _ _, ?_⟩
      intro left leftMember right rightMember
      have leftBounds := index_of_mem_ofTree tree leftMember
      have rightBounds := index_of_mem_ofTrees rest rightMember
      omega

end

mutual

theorem map_index_ofTree : (tree : Tree) → (index : Nat) → (above : List (Nat × Tree)) →
    (ofTree index above tree).map (·.index) = List.range' index tree.size
  | .node data children, index, above => by
      rw [ofTree_node, map_cons, map_index_ofTrees children, Tree.size_node, range'_succ]

theorem map_index_ofTrees : (trees : List Tree) → (index : Nat) →
      (above : List (Nat × Tree)) →
    (ofTrees index above trees).map (·.index) = List.range' index (Tree.sizeAll trees)
  | [], index, above => by simp
  | tree :: rest, index, above => by
      rw [ofTrees_cons, map_append, map_index_ofTree tree, map_index_ofTrees rest,
        Tree.sizeAll_cons, range'_append_1]

end

/-! ## Nodes above and below -/

mutual

theorem above_of_mem_ofTree : (tree : Tree) → {index : Nat} →
      {above : List (Nat × Tree)} →
    {node : Node} → node ∈ ofTree index above tree → above <:+ node.above
  | .node data children, index, above, node, member => by
      rw [ofTree_node, mem_cons] at member
      rcases member with rfl | below
      · exact suffix_rfl
      · exact (suffix_cons _ _).trans (above_of_mem_ofTrees children below)

theorem above_of_mem_ofTrees : (trees : List Tree) → {index : Nat} →
    {above : List (Nat × Tree)} → {node : Node} → node ∈ ofTrees index above trees →
    above <:+ node.above
  | [], index, above, node, member => by simp at member
  | tree :: rest, index, above, node, member => by
      rw [ofTrees_cons, mem_append] at member
      rcases member with first | later
      · exact above_of_mem_ofTree tree first
      · exact above_of_mem_ofTrees rest later

end

mutual

/-- A holder of a node is among the nodes too, or it holds the whole tree. It comes
before the node. -/
theorem holder_of_mem_ofTree : (tree : Tree) → {index : Nat} →
      {above : List (Nat × Tree)} →
    {node holder : Node} → node ∈ ofTree index above tree →
    (holder.index, holder.tree) :: holder.above <:+ node.above →
    (holder ∈ ofTree index above tree ∧ holder.index < node.index) ∨
      (holder.index, holder.tree) :: holder.above <:+ above
  | .node data children, index, above, node, holder, member, held => by
      rw [ofTree_node, mem_cons] at member
      rcases member with rfl | below
      · exact Or.inr held
      · rcases holder_of_mem_ofTrees children below held with ⟨inside, earlier⟩ | outside
        · refine Or.inl ⟨?_, earlier⟩
          rw [ofTree_node]
          exact mem_cons_of_mem _ inside
        · rcases suffix_cons_iff.mp outside with equal | further
          · have bounds := index_of_mem_ofTrees children below
            simp only [List.cons.injEq, Prod.mk.injEq] at equal
            obtain ⟨⟨indexEqual, treeEqual⟩, aboveEqual⟩ := equal
            have same : holder = ⟨index, .node data children, above⟩ := by
              cases holder
              simp_all
            subst same
            exact Or.inl ⟨ofTree_self_mem _ _ _, by dsimp only; omega⟩
          · exact Or.inr further

theorem holder_of_mem_ofTrees : (trees : List Tree) → {index : Nat} →
    {above : List (Nat × Tree)} → {node holder : Node} →
    node ∈ ofTrees index above trees →
    (holder.index, holder.tree) :: holder.above <:+ node.above →
    (holder ∈ ofTrees index above trees ∧ holder.index < node.index) ∨
      (holder.index, holder.tree) :: holder.above <:+ above
  | [], index, above, node, holder, member, held => by simp at member
  | tree :: rest, index, above, node, holder, member, held => by
      rw [ofTrees_cons, mem_append] at member ⊢
      rcases member with first | later
      · rcases holder_of_mem_ofTree tree first held with ⟨inside, earlier⟩ | outside
        · exact Or.inl ⟨Or.inl inside, earlier⟩
        · exact Or.inr outside
      · rcases holder_of_mem_ofTrees rest later held with ⟨inside, earlier⟩ | outside
        · exact Or.inl ⟨Or.inr inside, earlier⟩
        · exact Or.inr outside

end

theorem firstChild?_eq (node : Node) :
    node.firstChild? = node.tree.firstChild?.map fun child =>
      ⟨node.index + 1, child, (node.index, node.tree) :: node.above⟩ := by
  rw [firstChild?, children, Tree.firstChild?]
  cases node.tree.children with
  | nil => rfl
  | cons first rest => rfl

theorem above_of_parent? {parent : Node} (isParent : node.parent? = some parent) :
    node.above = (parent.index, parent.tree) :: parent.above := by
  unfold parent? at isParent
  split at isParent
  · cases isParent
  · rename_i equal
    cases isParent
    exact equal

theorem above_of_firstChild? (first : node.firstChild? = some child) :
    child.above = (node.index, node.tree) :: node.above ∧
    child.index = node.index + 1 := by
  rw [firstChild?_eq] at first
  obtain ⟨tree, _, rfl⟩ := Option.map_eq_some_iff.mp first
  exact ⟨rfl, rfl⟩

mutual

theorem firstChild_mem_ofTree : (tree : Tree) → {index : Nat} →
      {above : List (Nat × Tree)} →
    {node child : Node} → node ∈ ofTree index above tree → node.firstChild? = some child →
    child ∈ ofTree index above tree
  | .node data children, index, above, node, child, member, first => by
      rw [ofTree_node, mem_cons] at member ⊢
      right
      rcases member with rfl | below
      · cases children with
        | nil => simp [firstChild?_eq, Tree.firstChild?] at first
        | cons head rest =>
          simp only [firstChild?_eq, Tree.firstChild?, Tree.children_node, head?_cons,
            Option.map_some, Option.some.injEq] at first
          subst first
          rw [ofTrees_cons]
          exact mem_append_left _ (ofTree_self_mem _ _ _)
      · exact firstChild_mem_ofTrees children below first

theorem firstChild_mem_ofTrees : (trees : List Tree) → {index : Nat} →
    {above : List (Nat × Tree)} → {node child : Node} → node ∈ ofTrees index above trees →
    node.firstChild? = some child → child ∈ ofTrees index above trees
  | [], index, above, node, child, member, first => by simp at member
  | tree :: rest, index, above, node, child, member, first => by
      rw [ofTrees_cons, mem_append] at member ⊢
      rcases member with here | later
      · exact Or.inl (firstChild_mem_ofTree tree here first)
      · exact Or.inr (firstChild_mem_ofTrees rest later first)

end

/-! ## Where nodes begin -/

mutual

/-- What is below a node of a tree is among the nodes of the tree. -/
theorem mem_ofTree_of_mem_descendants : (tree : Tree) → {index : Nat} →
    {above : List (Nat × Tree)} → {node other : Node} → node ∈ ofTree index above tree →
    other ∈ node.descendants → other ∈ ofTree index above tree
  | .node data children, index, above, node, other, member, inside => by
      rw [ofTree_node, mem_cons] at member
      rcases member with rfl | below
      · exact inside
      · rw [ofTree_node]
        exact mem_cons_of_mem _ (mem_ofTrees_of_mem_descendants children below inside)

theorem mem_ofTrees_of_mem_descendants : (trees : List Tree) → {index : Nat} →
    {above : List (Nat × Tree)} → {node other : Node} → node ∈ ofTrees index above trees →
    other ∈ node.descendants → other ∈ ofTrees index above trees
  | [], index, above, node, other, member, inside => by simp at member
  | tree :: rest, index, above, node, other, member, inside => by
      rw [ofTrees_cons, mem_append] at member ⊢
      rcases member with first | later
      · exact Or.inl (mem_ofTree_of_mem_descendants tree first inside)
      · exact Or.inr (mem_ofTrees_of_mem_descendants rest later inside)

end

mutual

/-- Where a tree begins is where one of its nodes begins. -/
theorem exists_of_anchor : (tree : Tree) → {span : Span} → tree.anchor = some span →
    (index : Nat) → (above : List (Nat × Tree)) →
    ∃ node ∈ ofTree index above tree, node.tree.span = some span
  | .node data children, span, begins, index, above => by
      rw [Tree.anchor] at begins
      rw [ofTree_node]
      cases own : data.span with
      | some first =>
        rw [own, Option.some_or] at begins
        exact ⟨_, mem_cons_self .., own.trans begins⟩
      | none =>
        rw [own, Option.none_or] at begins
        obtain ⟨node, member, equal⟩ := exists_of_anchorFirst children begins _ _
        exact ⟨node, mem_cons_of_mem _ member, equal⟩

theorem exists_of_anchorFirst : (trees : List Tree) → {span : Span} →
    Tree.anchorFirst trees = some span → (index : Nat) → (above : List (Nat × Tree)) →
    ∃ node ∈ ofTrees index above trees, node.tree.span = some span
  | [], span, begins, index, above => by
      rw [Tree.anchorFirst] at begins
      cases begins
  | tree :: rest, span, begins, index, above => by
      rw [Tree.anchorFirst] at begins
      obtain ⟨node, member, equal⟩ := exists_of_anchor tree begins index above
      refine ⟨node, ?_, equal⟩
      rw [ofTrees_cons]
      exact mem_append_left _ member

end

/-- A node without a place of its own begins where its first child does. -/
theorem anchor_of_firstChild? (noSpan : node.tree.span = none)
    (first : node.firstChild? = some child) : node.tree.anchor = child.tree.anchor := by
  rw [firstChild?_eq] at first
  obtain ⟨tree, isFirst, rfl⟩ := Option.map_eq_some_iff.mp first
  obtain ⟨index, nodeTree, above⟩ := node
  cases nodeTree with
  | node data children =>
    obtain ⟨rest, rfl⟩ := head?_eq_some_iff.mp isFirst
    rw [Tree.anchor, show data.span = none from noSpan, Option.none_or, Tree.anchorFirst]

/-- A node of some trees begins where one of their nodes does. -/
theorem exists_of_mem_of_anchor {trees : List Tree} {index : Nat}
    {above : List (Nat × Tree)} (member : node ∈ ofTrees index above trees) {span : Span}
    (begins : node.tree.anchor = some span) :
    ∃ other ∈ ofTrees index above trees, other.tree.span = some span := by
  obtain ⟨other, inside, own⟩ := exists_of_anchor node.tree begins node.index node.above
  exact ⟨other, mem_ofTrees_of_mem_descendants trees member inside, own⟩

end Node

/-! ## Whole trees -/

namespace Tree

variable {tree : Tree} {left right node : Node}

theorem nodes_eq (tree : Tree) : tree.nodes = Node.ofTree 0 [] tree := rfl

theorem pairwise_index_nodes (tree : Tree) : tree.nodes.Pairwise (·.index < ·.index) :=
  Node.pairwise_index_ofTree tree 0 []

theorem pairwise_index_rules (tree : Tree) : tree.rules.Pairwise (·.index < ·.index) :=
  tree.pairwise_index_nodes.filter _

theorem eq_of_index_eq (leftMember : left ∈ tree.nodes) (rightMember : right ∈ tree.nodes)
    (equal : left.index = right.index) : left = right := by
  by_contra different
  let apart (first second : Node) : Prop := first.index ≠ second.index
  have symmetric : Std.Symm apart := ⟨fun _ _ => Ne.symm⟩
  have pairs : tree.nodes.Pairwise apart := tree.pairwise_index_nodes.imp Nat.ne_of_lt
  exact pairs.forall leftMember rightMember different equal

theorem getElem?_nodes (member : node ∈ tree.nodes) :
    tree.nodes[node.index]? = some node := by
  obtain ⟨place, found⟩ := mem_iff_getElem?.mp member
  have index : (tree.nodes.map (·.index))[place]? = some node.index := by
    rw [getElem?_map, found]
    rfl
  rw [nodes_eq, Node.map_index_ofTree, getElem?_eq_some_iff] at index
  obtain ⟨_, equal⟩ := index
  rw [getElem_range', Nat.zero_add, Nat.one_mul] at equal
  rwa [← equal]

/-- What holds of each node and all nodes behind it holds of two nodes in the order of
their numbers. -/
theorem rel_of_index_lt {relation : Node → Node → Prop}
    (ordered : tree.nodes.Pairwise relation) (leftMember : left ∈ tree.nodes)
    (rightMember : right ∈ tree.nodes) (earlier : left.index < right.index) :
    relation left right := by
  let both (first second : Node) : Prop :=
    (first.index < second.index → relation first second) ∧
      (second.index < first.index → relation second first)
  have symmetric : Std.Symm both := ⟨fun _ _ => And.symm⟩
  have pairs : tree.nodes.Pairwise both := by
    refine (ordered.and tree.pairwise_index_nodes).imp ?_
    rintro first second ⟨related, before⟩
    exact ⟨fun _ => related, fun after => absurd after (Nat.lt_asymm before)⟩
  have different : left ≠ right :=
    fun equal => Nat.ne_of_lt earlier (congrArg Node.index equal)
  exact (pairs.forall leftMember rightMember different).1 earlier

theorem holder_mem_nodes {holder : Node} (member : node ∈ tree.nodes)
    (held : (holder.index, holder.tree) :: holder.above <:+ node.above) :
    holder ∈ tree.nodes ∧ holder.index < node.index := by
  rcases Node.holder_of_mem_ofTree tree member held with inside | outside
  · exact inside
  · exact absurd (suffix_nil.mp outside) (cons_ne_nil _ _)

theorem parent_mem_nodes {parent : Node} (member : node ∈ tree.nodes)
    (isParent : node.parent? = some parent) : parent ∈ tree.nodes := by
  refine (holder_mem_nodes member ?_).1
  simp only [Node.above_of_parent? isParent, suffix_rfl]

theorem firstChild_mem_nodes {child : Node} (member : node ∈ tree.nodes)
    (first : node.firstChild? = some child) : child ∈ tree.nodes :=
  Node.firstChild_mem_ofTree tree member first

end Tree

end GrammarInspector
