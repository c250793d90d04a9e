import GrammarInspector.Proofs.Arena.Forest
import GrammarInspector.Proofs.Tree.Lineage
import GrammarInspector.Text.LineIndex
import Mathlib.Data.List.Perm.Subperm

/-! # Walking through an arena

The walks are loops. Each gets as many rounds as the arena has nodes, and gives nothing if
it needs more. In a forest this never happens: the ways down and up meet no node twice. A
walk through everything below a node meets each node there once, and every node behind its
parent.
-/

namespace GrammarInspector

open List

namespace Arena

variable {α : Type} {children : List Nat} {child : Nat} {lists : List (List Nat)}

/-! ## Loops -/

/-- Goes down from a node by first children up to one that has something stored. -/
def seekWithin {α : Type} (arena : Arena) (stored : Entry → Option α) :
    Nat → Nat → Option (Option α)
  | 0, _ => none
  | rounds + 1, id => do
    let entry ← arena.entries[id]?
    match stored entry with
    | some value => return some value
    | none =>
      match entry.children.head? with
      | none => return none
      | some first => arena.seekWithin stored rounds first

/-- Where a node begins. -/
def anchor (arena : Arena) (id : Nat) : Option (Option Span) :=
  arena.seekWithin (·.content.span) arena.size id

/-- Line and column where a node begins. -/
def position (arena : Arena) (id : Nat) : Option (Option Position) :=
  arena.seekWithin (·.position) arena.size id

/-- Goes up from a node to the rule that it belongs to. -/
def enclosingWithin (arena : Arena) : Nat → Nat → Option (Option Nat)
  | 0, _ => none
  | rounds + 1, id => do
    let data ← arena.data? id
    if data.kind = .rule then return some id
    else
      match arena.parent? id with
      | none => return none
      | some parent => arena.enclosingWithin rounds parent

def enclosingRule (arena : Arena) (id : Nat) : Option (Option Nat) :=
  arena.enclosingWithin arena.size id

/-- Meets the nodes on a stack and those below them, the top of the stack first. -/
def visitWithin (arena : Arena) : Nat → List Nat → List Nat → Option (List Nat)
  | _, [], met => some met
  | 0, _ :: _, _ => none
  | rounds + 1, id :: rest, met => arena.visitWithin rounds (arena.children id ++ rest)
      (met ++ [id])

/-- The node and all nodes below it. -/
def descendants (arena : Arena) (id : Nat) : Option (List Nat) :=
  arena.visitWithin arena.size [id] []

variable {arena : Arena} {id : Nat} {ids : List Nat} {tree : Tree}

theorem length_le_size (nodup : ids.Nodup) (inside : ∀ id ∈ ids, id < arena.size) :
    ids.length ≤ arena.size := by
  have within : ids ⊆ List.range arena.size :=
    fun id member => mem_range.mpr (inside id member)
  have le := (nodup.subperm within).length_le
  rwa [length_range] at le

/-! ## Everything below a node -/

/-- The nodes below a node in the order of a walk, the node itself first. -/
inductive Lists (arena : Arena) : Nat → List Nat → Prop
  | node {id : Nat} {lists : List (List Nat)} (length_eq : (arena.children id).length =
      lists.length)
      (each : ∀ pair ∈ (arena.children id).zip lists, Lists arena pair.1 pair.2) :
      Lists arena id (id :: lists.flatten)

theorem EndsBelow.exists_lists (endsBelow : arena.EndsBelow id) :
    ∃ ids, arena.Lists id ids := by
  induction endsBelow with
  | node _ _ induction =>
    obtain ⟨lists, length_eq, each⟩ := exists_zip induction
    exact ⟨_, .node length_eq each⟩

theorem exists_list {lists : List α} (length_eq : children.length = lists.length)
    (member : child ∈ children) : ∃ list, (child, list) ∈ children.zip lists := by
  rw [← map_fst_zip (Nat.le_of_eq length_eq), mem_map] at member
  obtain ⟨⟨_, list⟩, paired, rfl⟩ := member
  exact ⟨list, paired⟩

theorem exists_listed {lists : List α} (length_eq : children.length = lists.length)
    {list : α} (member : list ∈ lists) : ∃ child, (child, list) ∈ children.zip lists := by
  rw [← map_snd_zip (Nat.le_of_eq length_eq.symm), mem_map] at member
  obtain ⟨⟨child, _⟩, paired, rfl⟩ := member
  exact ⟨child, paired⟩

/-- A walk through neighbours goes through one after the other. -/
theorem visitWithin_append (length_eq : children.length = lists.length)
    (each : ∀ pair ∈ children.zip lists, ∀ rounds stack met,
      arena.visitWithin (pair.2.length + rounds) (pair.1 :: stack) met =
      arena.visitWithin rounds stack (met ++ pair.2))
    (rounds : Nat) (stack met : List Nat) :
    arena.visitWithin (lists.flatten.length + rounds) (children ++ stack) met =
      arena.visitWithin rounds stack (met ++ lists.flatten) := by
  induction children generalizing lists met with
  | nil =>
    rw [length_eq_zero_iff.mp length_eq.symm]
    simp
  | cons child rest induction =>
    obtain ⟨first, others, rfl⟩ := exists_cons_of_length_eq_add_one length_eq.symm
    rw [zip_cons_cons, forall_mem_cons] at each
    rw [cons_append, flatten_cons, length_append, Nat.add_assoc, each.1,
      induction (Nat.succ.inj length_eq) each.2, append_assoc]

/-- A place in some lists one behind the other is a place in one of them. -/
theorem exists_of_flatten_eq {front behind : List Nat}
    (whole : lists.flatten = front ++ child :: behind) :
    ∃ list ∈ lists, ∃ inner rest, list = inner ++ child :: rest ∧ inner <:+ front := by
  induction lists generalizing front with
  | nil => simp at whole
  | cons list others induction =>
    rw [flatten_cons, append_eq_append_iff] at whole
    rcases whole with ⟨inner, rfl, further⟩ | ⟨inner, rfl, further⟩
    · obtain ⟨other, included, inner, rest, equal, isSuffix⟩ := induction further
      exact ⟨other, mem_cons_of_mem _ included, inner, rest, equal,
        isSuffix.trans (suffix_append _ _)⟩
    · cases inner with
      | nil =>
        have atStart : others.flatten = [] ++ child :: behind := further.symm
        obtain ⟨other, included, inner, rest, equal, isSuffix⟩ := induction atStart
        rw [suffix_nil] at isSuffix
        exact ⟨other, mem_cons_of_mem _ included, inner, rest, equal,
          isSuffix ▸ nil_suffix⟩
      | cons found inner =>
        rw [cons_append] at further
        cases further
        exact ⟨_, mem_cons_self .., front, inner, rfl, suffix_rfl⟩

namespace Lists

variable {other parent : Nat} {related : Nat → Node → Prop}

theorem visitWithin_eq (lists : arena.Lists id ids) (rounds : Nat)
    (stack met : List Nat) :
    arena.visitWithin (ids.length + rounds) (id :: stack) met =
      arena.visitWithin rounds stack (met ++ ids) := by
  induction lists generalizing rounds stack met with
  | node length_eq _ induction =>
    rw [length_cons, Nat.add_right_comm, visitWithin,
      visitWithin_append length_eq induction, append_assoc]
    rfl

theorem self_mem (lists : arena.Lists id ids) : id ∈ ids := by
  cases lists with
  | node => exact mem_cons_self ..

theorem above_of_mem (lists : arena.Lists id ids) (forest : arena.IsForest)
    (member : other ∈ ids) : arena.Above id other := by
  induction lists with
  | @node id lists length_eq each induction =>
    rcases mem_cons.mp member with rfl | inside
    · exact .refl
    · obtain ⟨list, included, further⟩ := mem_flatten.mp inside
      obtain ⟨child, paired⟩ := exists_listed length_eq included
      have isParent := (forest.linked id child).mp (of_mem_zip paired).1
      exact Above.trans (.step isParent .refl) (induction _ paired further)

theorem mem_of_mem_children (lists : arena.Lists id ids) (member : parent ∈ ids)
    (isChild : child ∈ arena.children parent) : child ∈ ids := by
  induction lists with
  | @node id lists length_eq each induction =>
    rw [mem_cons, mem_flatten] at member ⊢
    right
    rcases member with rfl | ⟨list, included, inside⟩
    · obtain ⟨list, paired⟩ := exists_list length_eq isChild
      exact ⟨list, (of_mem_zip paired).2, (each _ paired).self_mem⟩
    · obtain ⟨child, paired⟩ := exists_listed length_eq included
      exact ⟨list, included, induction _ paired inside⟩

theorem mem_iff (lists : arena.Lists id ids) (forest : arena.IsForest) :
    other ∈ ids ↔ arena.Above id other := by
  refine ⟨lists.above_of_mem forest, fun above => ?_⟩
  induction above with
  | refl => exact lists.self_mem
  | step isParent _ induction =>
    exact lists.mem_of_mem_children induction ((forest.linked _ _).mpr isParent)

theorem not_above_sibling (forest : arena.IsForest) {first second : Nat}
    (one : first ∈ arena.children parent) (two : second ∈ arena.children parent)
    (differ : first ≠ second) : ¬arena.Above first second := by
  rw [forest.linked] at one two
  intro above
  cases above with
  | refl => exact differ rfl
  | step isParent further =>
    rw [two] at isParent
    cases isParent
    exact forest.not_above_parent one further

theorem nodup (lists : arena.Lists id ids) (forest : arena.IsForest) : ids.Nodup := by
  induction lists with
  | @node id lists length_eq each induction =>
    rw [nodup_cons]
    constructor
    · intro inside
      obtain ⟨list, included, further⟩ := mem_flatten.mp inside
      obtain ⟨child, paired⟩ := exists_listed length_eq included
      have isParent := (forest.linked id child).mp (of_mem_zip paired).1
      exact forest.not_above_parent isParent ((each _ paired).above_of_mem forest further)
    · have distinct : ((arena.children id).zip lists).Pairwise fun one two =>
          one.1 ≠ two.1 := by
        have once := forest.once id
        rw [← map_fst_zip (Nat.le_of_eq length_eq)] at once
        exact pairwise_map.mp once
      rw [← map_snd_zip (Nat.le_of_eq length_eq.symm)]
      refine pairwise_flatten.mpr ⟨forall_mem_map.mpr induction, pairwise_map.mpr ?_⟩
      refine distinct.imp_of_mem fun {one two} isOne isTwo differ => ?_
      rintro other inOne _ inTwo rfl
      have oneChild := (of_mem_zip isOne).1
      have twoChild := (of_mem_zip isTwo).1
      rcases ((each one isOne).above_of_mem forest inOne).or_above
        ((each two isTwo).above_of_mem forest inTwo) with above | above
      · exact not_above_sibling forest oneChild twoChild differ above
      · exact not_above_sibling forest twoChild oneChild differ.symm above

theorem length_le (lists : arena.Lists id ids) (forest : arena.IsForest)
    (inside : id < arena.size) : ids.length ≤ arena.size := by
  apply length_le_size (lists.nodup forest)
  intro other member
  cases lists.above_of_mem forest member with
  | refl => exact inside
  | step isParent _ => exact lt_size_of_parent? isParent

theorem descendants_eq (lists : arena.Lists id ids) (forest : arena.IsForest)
    (inside : id < arena.size) : arena.descendants id = some ids := by
  obtain ⟨rounds, enough⟩ := Nat.exists_eq_add_of_le (lists.length_le forest inside)
  rw [descendants, enough, lists.visitWithin_eq, visitWithin]
  rfl

theorem parent_mem (lists : arena.Lists id ids) (forest : arena.IsForest)
    {front behind : List Nat} (whole : ids = front ++ child :: behind) :
    child = id ∨ ∃ parent ∈ front, arena.parent? child = some parent := by
  induction lists generalizing front behind with
  | @node id lists length_eq each induction =>
    cases front with
    | nil =>
      cases whole
      exact .inl rfl
    | cons first front =>
      rw [cons_append, List.cons.injEq] at whole
      obtain ⟨rfl, inside⟩ := whole
      obtain ⟨list, included, inner, rest, equal, isSuffix⟩ := exists_of_flatten_eq inside
      obtain ⟨next, paired⟩ := exists_listed length_eq included
      right
      rcases induction _ paired equal with rfl | ⟨parent, member, isParent⟩
      · exact ⟨id, mem_cons_self .., (forest.linked _ _).mp (of_mem_zip paired).1⟩
      · exact ⟨parent, mem_cons_of_mem _ (isSuffix.subset member), isParent⟩

/-- Lists of neighbours meet what is below the nodes that the neighbours stand for. -/
theorem forall₂_flatten {children : List Nat} {lists : List (List Nat)}
    {nodes : List Node} (length_eq : children.length = lists.length)
    (each : ∀ pair ∈ children.zip lists, ∀ node, related pair.1 node →
      Forall₂ related pair.2 node.descendants)
    (below : Forall₂ related children nodes) :
    Forall₂ related lists.flatten (nodes.flatMap Node.descendants) := by
  induction below generalizing lists with
  | nil =>
    rw [length_eq_zero_iff.mp length_eq.symm]
    exact .nil
  | cons first rest induction =>
    obtain ⟨list, lists, rfl⟩ := exists_cons_of_length_eq_add_one length_eq.symm
    rw [zip_cons_cons, forall_mem_cons] at each
    rw [flatten_cons, flatMap_cons]
    exact rel_append (each.1 _ first) (induction (Nat.succ.inj length_eq) each.2)

/-- If what a node stands for has children that its own children stand for, a walk meets
all nodes in the order in which the tree lists them. -/
theorem forall₂_descendants {node : Node} (lists : arena.Lists id ids)
    (closed : ∀ id node, related id node →
      Forall₂ related (arena.children id) node.children)
    (start : related id node) : Forall₂ related ids node.descendants := by
  induction lists generalizing node with
  | node length_eq each induction =>
    rw [Node.descendants_eq_cons]
    refine .cons start (forall₂_flatten length_eq ?_ (closed _ _ start))
    exact fun pair member node holds => induction pair member holds

end Lists

theorem Holds.forall₂_children {node : Node} (holds : arena.Holds id node.tree) :
    Forall₂ (arena.Holds · ·.tree) (arena.children id) node.children := by
  rw [← forall₂_map_right_iff (R := arena.Holds), Node.map_tree_children]
  generalize node.tree = tree at holds
  cases holds with
  | node _ length_eq below =>
    exact forall₂_iff_zip.mpr ⟨length_eq, fun member => below _ member⟩

namespace Lists

theorem forall₂_holds (lists : arena.Lists id ids) (holds : arena.Holds id tree) :
    Forall₂ (arena.Holds · ·.tree) ids tree.nodes :=
  lists.forall₂_descendants (fun _ _ => Holds.forall₂_children) holds

theorem map_data?_eq (lists : arena.Lists id ids) (holds : arena.Holds id tree) :
    ids.map arena.data? = tree.nodes.map fun node => some node.tree.data := by
  rw [← forall₂_eq_eq_eq, forall₂_map_left_iff, forall₂_map_right_iff]
  exact (lists.forall₂_holds holds).imp fun _ _ holds => holds.data?_eq

end Lists

/-! ## Along a way -/

theorem Holds.size_le (holds : arena.Holds id tree) (forest : arena.IsForest) :
    tree.size ≤ arena.size := by
  obtain ⟨ids, lists⟩ := (forest.endsBelow id holds.lt_size).exists_lists
  rw [← Node.length_ofTree 0 [] tree, ← Tree.nodes_eq,
    ← (lists.forall₂_holds holds).length_eq]
  exact lists.length_le forest holds.lt_size

/-- What is found is what the span where the tree begins means. -/
theorem Holds.seekWithin_eq {stored : Entry → Option α} {meaning : Span → α}
    (holds : arena.Holds id tree)
    (means : ∀ entry ∈ arena.entries, stored entry = entry.content.span.map meaning)
    {rounds : Nat} (enough : tree.size ≤ rounds) :
    arena.seekWithin stored rounds id = some (tree.anchor.map meaning) := by
  induction holds generalizing rounds with
  | @node id data trees isData length_eq below induction =>
    obtain ⟨⟨content, position, children, parent⟩, found, rfl⟩ :=
      Option.map_eq_some_iff.mp isData
    have children_eq : arena.children id = children := by
      rw [Arena.children, found]
      rfl
    rw [children_eq] at length_eq induction
    rw [Tree.size_node] at enough
    obtain ⟨rounds, rfl⟩ := Nat.exists_eq_add_of_le' (Nat.le_of_add_left_le enough)
    rw [seekWithin, found, Tree.anchor, Content.data]
    have isStored := means _ (mem_of_getElem? found)
    cases hasSpan : content.span with
    | some span => simp [isStored, hasSpan]
    | none =>
      cases trees with
      | nil =>
        rw [length_eq_zero_iff.mp length_eq] at isStored ⊢
        simp [isStored, hasSpan, Tree.anchorFirst]
      | cons first rest =>
        obtain ⟨child, others, rfl⟩ := exists_cons_of_length_eq_add_one length_eq
        rw [Tree.sizeAll_cons] at enough
        have enoughBelow : first.size ≤ rounds := by omega
        have found := induction (child, first) (mem_cons_self ..) enoughBelow
        simpa [isStored, hasSpan, Tree.anchorFirst] using found

theorem Holds.anchor_eq (holds : arena.Holds id tree) (forest : arena.IsForest) :
    arena.anchor id = some tree.anchor := by
  have means : ∀ entry ∈ arena.entries,
      entry.content.span = entry.content.span.map fun span => span := by simp
  rw [anchor, holds.seekWithin_eq means (holds.size_le forest), Option.map_id']

/-- Stored positions lead to where the tree begins. -/
theorem Holds.position_eq {lines : LineIndex} (holds : arena.Holds id tree)
    (forest : arena.IsForest) (placed : arena.IsPlaced lines) :
    arena.position id = some (tree.anchor.map fun span => lines.position span.start) :=
  holds.seekWithin_eq placed (holds.size_le forest)

/-- The way up from a node leads through different nodes and ends. -/
theorem Ends.exists_way (ends : arena.Ends id) (forest : arena.IsForest)
    (inside : id < arena.size) :
    ∃ way : List Nat, way.Nodup ∧
      (∀ other ∈ way, other < arena.size ∧ arena.Above other id) ∧
      ∀ rounds, way.length ≤ rounds → (arena.enclosingWithin rounds id).isSome := by
  induction ends with
  | @top id noParent =>
    refine ⟨[id], by simp, ?_, fun rounds enough => ?_⟩
    · rw [forall_mem_singleton]
      exact ⟨inside, .refl⟩
    · obtain ⟨rounds, rfl⟩ := Nat.exists_eq_add_of_le' enough
      rw [length_singleton, enclosingWithin, data?, getElem?_eq_getElem inside]
      by_cases isRule : arena.entries[id].content.kind = .rule
      · simp [isRule, Content.data]
      · simp [isRule, noParent, Content.data]
  | @next id parent isParent _ induction =>
    obtain ⟨way, nodup, each, leads⟩ := induction (forest.parent_lt isParent)
    have notMet : id ∉ way :=
      fun member => forest.not_above_parent isParent (each id member).2
    refine ⟨id :: way, nodup_cons.mpr ⟨notMet, nodup⟩, ?_, fun rounds enough => ?_⟩
    · rw [forall_mem_cons]
      refine ⟨⟨inside, .refl⟩, fun other member => ?_⟩
      obtain ⟨otherInside, above⟩ := each other member
      exact ⟨otherInside, .step isParent above⟩
    · obtain ⟨rounds, rfl⟩ := Nat.exists_eq_add_of_le' (Nat.le_of_add_left_le enough)
      have further := leads rounds (Nat.le_of_succ_le_succ enough)
      rw [enclosingWithin, data?, getElem?_eq_getElem inside]
      by_cases isRule : arena.entries[id].content.kind = .rule
      · simp [isRule, Content.data]
      · simpa [isRule, isParent, Content.data] using further

theorem IsForest.isSome_enclosingRule (forest : arena.IsForest)
    (inside : id < arena.size) : (arena.enclosingRule id).isSome := by
  obtain ⟨way, nodup, each, leads⟩ := (forest.ends id).exists_way forest inside
  exact leads _ (length_le_size nodup fun other member => (each other member).1)

end Arena

end GrammarInspector
