import GrammarInspector.Proofs.Arena.Reading
import GrammarInspector.Proofs.Grammar.LabelPlaces

/-! # Labels in the arena of a grammar

The labels that are kept in the end are those that the nodes of the grammar have, in the
order of the source. Each is kept with the numbers of its rule and its alternative.
-/

namespace GrammarInspector

open List

/-- A label with the numbers of its rule and its alternative. -/
def Arena.Tag.numbered (tag : Tag) : AltLabel × Option Nat × Option Nat :=
  (tag.label, some tag.rule, some tag.alternative)

/-- A label with the numbers of its rule and its alternative, if a walk through all nodes
meets these numbers. -/
def Grammar.Labelled.numbered (ids : List Nat) (entry : Labelled) :
    AltLabel × Option Nat × Option Nat :=
  (entry.label, ids[entry.rule.index]?, ids[entry.alternative.index]?)

namespace Arena

open GrammarInspector.Grammar (Labelled)

variable {arena : Arena} {tree : Tree} {ids : List Nat} {id other : Nat}
  {node above : Node} {tag : Tag} {source : String} {entry : Labelled}

/-! ## Numbers of nodes -/

/-- The numbers of the nodes of a tree that the root holds. -/
inductive Numbers (arena : Arena) (tree : Tree) : Nat → Node → Prop
  | top : Numbers arena tree root tree.root
  | child {parent id : Nat} {above node : Node}
      (numbers : Numbers arena tree parent above)
      (paired : (id, node) ∈ (arena.children parent).zip above.children) :
      Numbers arena tree id node

theorem eq_of_mem_zip {ids : List Nat} {nodes : List Node}
    (ordered : nodes.Pairwise (·.index < ·.index)) (paired : (id, node) ∈ ids.zip nodes)
    (otherPaired : (other, node) ∈ ids.zip nodes) : id = other := by
  have distinct : nodes.Nodup := by
    refine ordered.imp fun before same => ?_
    rw [same] at before
    exact Nat.lt_irrefl _ before
  obtain ⟨place, found⟩ := mem_iff_getElem?.mp paired
  obtain ⟨otherPlace, otherFound⟩ := mem_iff_getElem?.mp otherPaired
  obtain ⟨isId, isNode⟩ := getElem?_zip_eq_some.mp found
  obtain ⟨isOther, sameNode⟩ := getElem?_zip_eq_some.mp otherFound
  obtain ⟨inside, _⟩ := List.getElem?_eq_some_iff.mp isNode
  cases (getElem?_inj inside distinct).mp (isNode.trans sameNode.symm)
  exact Option.some.inj (isId.symm.trans isOther)

namespace Numbers

theorem holds (numbers : arena.Numbers tree id node) (holds : arena.Holds root tree) :
    arena.Holds id node.tree := by
  induction numbers with
  | top => exact holds
  | child _ paired induction =>
    exact (forall₂_iff_zip.mp induction.forall₂_children).2 paired

theorem exists_parent (numbers : arena.Numbers tree id node) (forest : arena.IsForest)
    (isParent : node.parent? = some above) :
    ∃ parent, arena.parent? id = some parent ∧ arena.Numbers tree parent above := by
  cases numbers with
  | top => cases isParent
  | @child parent _ holder _ numbers paired =>
    obtain ⟨isChild, inside⟩ := of_mem_zip paired
    cases isParent.symm.trans (Node.parent?_of_mem_children inside)
    exact ⟨parent, (forest.linked parent id).mp isChild, numbers⟩

theorem eq (numbers : arena.Numbers tree id node)
    (others : arena.Numbers tree other node) :
    id = other := by
  induction numbers generalizing other with
  | top =>
    cases others with
    | top => rfl
    | child _ paired => cases Node.parent?_of_mem_children (of_mem_zip paired).2
  | @child parent id above node _ paired induction =>
    have isParent := Node.parent?_of_mem_children (of_mem_zip paired).2
    cases others with
    | top => cases isParent
    | @child second _ holder _ numbers otherPaired =>
      have sameParent := Node.parent?_of_mem_children (of_mem_zip otherPaired).2
      cases isParent.symm.trans sameParent
      obtain rfl := induction numbers
      exact eq_of_mem_zip (Node.pairwise_index_children above) paired otherPaired

end Numbers

/-- A walk meets the nodes in the order of the tree. -/
theorem Lists.forall₂_numbers (lists : arena.Lists root ids)
    (holds : arena.Holds root tree) : Forall₂ (arena.Numbers tree) ids tree.nodes := by
  refine lists.forall₂_descendants (fun id node numbers => ?_) .top
  exact forall₂_iff_zip.mpr
    ⟨(numbers.holds holds).forall₂_children.length_eq, fun paired =>
      .child numbers paired⟩

theorem Lists.getElem?_eq_some_iff (lists : arena.Lists root ids)
    (holds : arena.Holds root tree) (member : node ∈ tree.nodes) :
    ids[node.index]? = some id ↔ arena.Numbers tree id node := by
  have each := lists.forall₂_numbers holds
  have known {id : Nat} (found : ids[node.index]? = some id) :
      arena.Numbers tree id node := by
    have paired : (ids.zip tree.nodes)[node.index]? = some (id, node) :=
      getElem?_zip_eq_some.mpr ⟨found, Tree.getElem?_nodes member⟩
    exact (forall₂_iff_zip.mp each).2 (mem_of_getElem? paired)
  refine ⟨known, fun numbers => ?_⟩
  obtain ⟨inside, _⟩ := List.getElem?_eq_some_iff.mp (Tree.getElem?_nodes member)
  rw [← each.length_eq] at inside
  rw [getElem?_eq_getElem inside, Option.some.injEq]
  exact (known (getElem?_eq_getElem inside)).eq numbers

/-! ## Labels -/

theorem label?_of_mem (distinct : (arena.tags.map (·.alternative)).Nodup)
    (member : tag ∈ arena.tags) : arena.label? tag.alternative = some tag.label := by
  have found : (arena.tags.find? (·.alternative = tag.alternative)).isSome := by
    rw [find?_isSome]
    exact ⟨tag, member, decide_eq_true rfl⟩
  obtain ⟨first, isFirst⟩ := Option.isSome_iff_exists.mp found
  have meets := find?_some isFirst
  have same : first = tag := inj_on_of_nodup_map distinct
    (mem_of_find?_eq_some isFirst) member (of_decide_eq_true meets)
  rw [label?, isFirst, same]
  rfl

/-- A node of a grammar has the label that was read for it. -/
theorem label_eq
    (numbers : (ofSource source).Numbers (Grammar.ofSource source).tree id node) :
    node.tree.data.label = (ofSource source).label? id := by
  have isData := (numbers.holds (holds_ofSource source)).data?_eq
  obtain ⟨entry, _, shown⟩ := Option.map_eq_some_iff.mp isData
  rw [← shown]
  rfl

theorem tags_ofSource {whole : List Token}
    (settles : Build.Settles whole (ofSource source)) :
    (ofSource source).tags = (ofSource source).kept := by
  rw [Arena.tags, settles.pending, append_nil]

theorem label?_of_kept (isKept : tag ∈ (ofSource source).kept) :
    (ofSource source).label? tag.alternative = some tag.label := by
  obtain ⟨whole, _, settles⟩ := settles_ofSource source
  rw [← tags_ofSource settles] at isKept
  refine label?_of_mem ?_ isKept
  rw [tags_ofSource settles]
  exact settles.distinct

section Kept

variable (lists : (ofSource source).Lists root ids)

include lists

/-- A label is kept with the numbers of the rule and the alternative that it is
listed with. -/
theorem numbered_eq (isKept : tag ∈ (ofSource source).kept)
    (isEntry : entry ∈ (Grammar.ofSource source).labels)
    (numbers : (ofSource source).Numbers (Grammar.ofSource source).tree tag.alternative
      entry.alternative) :
    tag.numbered = entry.numbered ids := by
  have holds := holds_ofSource source
  have forest := isForest_ofSource source
  obtain ⟨_, _, settles⟩ := settles_ofSource source
  obtain ⟨block, member, ofAlternative, ofBlock, hasLabel⟩ :=
    Grammar.exists_block_of_mem_labels isEntry
  have isLabel := label?_of_kept isKept
  rw [← label_eq numbers, hasLabel, Option.some.injEq] at isLabel
  obtain ⟨body, isBody, bodyNumbers⟩ := numbers.exists_parent forest ofAlternative
  obtain ⟨rule, isRule, ruleNumbers⟩ := bodyNumbers.exists_parent forest ofBlock
  obtain ⟨_, _, keptBody, keptRule, _⟩ := settles.hang tag isKept
  cases isBody.symm.trans keptBody
  cases isRule.symm.trans keptRule
  have ruleMember := (mem_filter.mp (Grammar.mem_labels.mp isEntry).1).1
  rw [Tag.numbered, Labelled.numbered, isLabel,
    (lists.getElem?_eq_some_iff holds ruleMember).mpr ruleNumbers,
    (lists.getElem?_eq_some_iff holds member).mpr numbers]

theorem exists_entry_of_kept (isKept : tag ∈ (ofSource source).kept) :
    ∃ entry ∈ (Grammar.ofSource source).labels, entry.numbered ids = tag.numbered := by
  have each := lists.forall₂_numbers (holds_ofSource source)
  obtain ⟨_, _, settles⟩ := settles_ofSource source
  obtain ⟨body, top, ofAlternative, ofBody, ofRule, ofTop⟩ := settles.hang tag isKept
  have isMet : tag.alternative ∈ ids := (lists.mem_iff (isForest_ofSource source)).mpr
    (.step ofAlternative (.step ofBody (.step ofRule (.step ofTop .refl))))
  obtain ⟨node, paired⟩ := exists_list each.length_eq isMet
  have numbers := (forall₂_iff_zip.mp each).2 paired
  have stands := Reading.stands_tree (Grammar.significantTokens source)
  obtain ⟨entry, isEntry, rfl, _⟩ := Grammar.exists_entry_of_label stands
    (of_mem_zip paired).2 ((label_eq numbers).trans (label?_of_kept isKept))
  exact ⟨entry, isEntry, (numbered_eq lists isKept isEntry numbers).symm⟩

theorem exists_kept_of_entry (isEntry : entry ∈ (Grammar.ofSource source).labels) :
    ∃ tag ∈ (ofSource source).kept, tag.numbered = entry.numbered ids := by
  have each := lists.forall₂_numbers (holds_ofSource source)
  obtain ⟨_, _, settles⟩ := settles_ofSource source
  obtain ⟨_, member, _, _, hasLabel⟩ := Grammar.exists_block_of_mem_labels isEntry
  obtain ⟨id, paired⟩ := exists_listed each.length_eq member
  have numbers := (forall₂_iff_zip.mp each).2 paired
  have isLabel := (label_eq numbers).symm.trans hasLabel
  rw [label?, tags_ofSource settles] at isLabel
  obtain ⟨tag, isFirst, _⟩ := Option.map_eq_some_iff.mp isLabel
  have isKept := mem_of_find?_eq_some isFirst
  have meets := find?_some isFirst
  obtain rfl : tag.alternative = id := of_decide_eq_true meets
  exact ⟨tag, isKept, numbered_eq lists isKept isEntry numbers⟩

end Kept

/-! ## Order -/

/-- The labels that are kept follow the source. -/
theorem pairwise_kept (source : String) :
    (ofSource source).kept.Pairwise fun left right =>
    left.label.span.stop ≤ right.label.span.start := by
  obtain ⟨whole, isSuffix, settles⟩ := settles_ofSource source
  have ordered := (Grammar.ordered_significantTokens source).sublist isSuffix.sublist
  exact pairwise_map.mp ((AltLabel.pairwise_behindHashes ordered).sublist settles.ordered)

/-- In the end no label is pending, and the labels that are kept are those of
the grammar. -/
theorem kept_ofSource (source : String) : (ofSource source).pending = [] ∧
    ∃ ids, (ofSource source).descendants root = some ids ∧
      (ofSource source).kept.map Tag.numbered =
        (Grammar.ofSource source).labels.map (Labelled.numbered ids) := by
  have holds := holds_ofSource source
  have forest := isForest_ofSource source
  obtain ⟨_, _, settles⟩ := settles_ofSource source
  obtain ⟨ids, lists⟩ := (forest.endsBelow root holds.lt_size).exists_lists
  refine ⟨settles.pending, ids, lists.descendants_eq forest holds.lt_size, ?_⟩
  let before (left right : AltLabel × Option Nat × Option Nat) : Prop :=
    left.1.span.start < right.1.span.start
  have keptInOrder : ((ofSource source).kept.map Tag.numbered).Pairwise before := by
    refine pairwise_map.mpr
      ((pairwise_kept source).imp_of_mem fun {tag _} isKept _ le => ?_)
    obtain ⟨entry, isEntry, same⟩ := exists_entry_of_kept lists isKept
    have positive := Grammar.start_lt_stop_of_entry isEntry
    rw [show entry.label = tag.label from congrArg Prod.fst same] at positive
    exact Nat.lt_of_lt_of_le positive le
  have listedInOrder :
      ((Grammar.ofSource source).labels.map (Labelled.numbered ids)).Pairwise before := by
    refine pairwise_map.mpr ((Grammar.pairwise_labels source).imp_of_mem ?_)
    exact fun isEntry _ le =>
      Nat.lt_of_lt_of_le (Grammar.start_lt_stop_of_entry isEntry) le
  have distinct {rows : List (AltLabel × Option Nat × Option Nat)}
      (inOrder : rows.Pairwise before) : rows.Nodup := by
    refine inOrder.imp fun less same => ?_
    rw [same] at less
    exact Nat.lt_irrefl _ less
  refine List.Perm.eq_of_pairwise (fun _ _ _ _ less more => (Nat.lt_asymm less more).elim)
    keptInOrder listedInOrder ?_
  refine (perm_ext_iff_of_nodup (distinct keptInOrder) (distinct listedInOrder)).mpr ?_
  intro row
  rw [mem_map, mem_map]
  constructor
  · rintro ⟨tag, isKept, rfl⟩
    exact exists_entry_of_kept lists isKept
  · rintro ⟨entry, isEntry, rfl⟩
    exact exists_kept_of_entry lists isEntry

end Arena

end GrammarInspector
