import GrammarInspector.Proofs.Arena.Forest

/-! # Branches

While trees are being built in an arena, it bears several of them side by side: those that
hang at the root and those that hang nowhere yet. These branches do not overlap, so a step
at one of them leaves the others as they are.
-/

namespace GrammarInspector

open List

namespace Arena

variable {first second : Branch} {changed : Arena}

/-- A node with the tree below it and the node that it hangs at. -/
structure Branch where
  id : Nat
  tree : Tree
  parent : Option Nat

/-- The root with the nodes that hang at it, and the labels that were read. -/
structure Trunk where
  data : NodeData
  children : List Nat
  pending : List Tag
  kept : List Tag

structure HasTrunk (arena : Arena) (trunk : Trunk) : Prop where
  data : arena.data? root = some trunk.data
  children : arena.children root = trunk.children
  pending : arena.pending = trunk.pending
  kept : arena.kept = trunk.kept
  inside : ∀ tag ∈ arena.tags, tag.alternative < arena.size

structure HasBranch (arena : Arena) (branch : Branch) : Prop where
  holds : arena.Holds branch.id branch.tree
  parent : arena.parent? branch.id = branch.parent
  notRoot : branch.id ≠ root

/-- Whether neither of two branches is part of the other one. -/
def Apart (arena : Arena) (first second : Branch) : Prop :=
  ¬arena.Above first.id second.id ∧ ¬arena.Above second.id first.id

/-- Whether an arena has a root and, apart from one another, some branches. -/
structure Bears (arena : Arena) (trunk : Trunk) (branches : List Branch) : Prop where
  trunk : arena.HasTrunk trunk
  each : ∀ branch ∈ branches, arena.HasBranch branch
  apart : branches.Pairwise arena.Apart

variable {lines : LineIndex} {arena : Arena} {trunk : Trunk}
  {branches others : List Branch}
  {branch : Branch} {data : NodeData} {content : Content} {position : Option Position}
  {trees : List Tree} {tree : Tree} {id parent child : Nat} {holder : Option Nat}

theorem Apart.symm (apart : arena.Apart first second) : arena.Apart second first :=
  ⟨apart.2, apart.1⟩

theorem HasTrunk.root_lt (hasTrunk : arena.HasTrunk trunk) : root < arena.size := by
  have isData := hasTrunk.data
  rw [data?, Option.map_eq_some_iff] at isData
  obtain ⟨entry, found, _⟩ := isData
  exact (List.getElem?_eq_some_iff.mp found).1

/-- Steps that deal with nodes leave the labels alone. -/
theorem HasTrunk.after_step {ids : List Nat} (hasTrunk : arena.HasTrunk trunk)
    (isData : changed.data? root = some data) (areChildren : changed.children root = ids)
    (pending : changed.pending = arena.pending) (kept : changed.kept = arena.kept)
    (size_le : arena.size ≤ changed.size) :
    changed.HasTrunk { trunk with data, children := ids } := by
  refine ⟨isData, areChildren, pending.trans hasTrunk.pending,
    kept.trans hasTrunk.kept, ?_⟩
  rw [tags, pending, kept]
  exact fun tag member => Nat.lt_of_lt_of_le (hasTrunk.inside tag member) size_le

/-! ## Steps elsewhere -/

theorem HasBranch.alloc (hasBranch : arena.HasBranch branch) :
    (arena.alloc content position).HasBranch branch :=
  ⟨hasBranch.holds.alloc, parent?_alloc.trans hasBranch.parent, hasBranch.notRoot⟩

theorem HasBranch.attach (hasBranch : arena.HasBranch branch) (forest : arena.IsForest)
    (parentInside : parent < arena.size) (childInside : child < arena.size)
    (apart : ¬arena.Above branch.id parent) (notChild : branch.id ≠ child) :
    (arena.attach parent child).HasBranch branch := by
  refine ⟨hasBranch.holds.attach forest parentInside apart, ?_, hasBranch.notRoot⟩
  rw [parent?_attach childInside, if_neg notChild]
  exact hasBranch.parent

theorem HasBranch.relabel (hasBranch : arena.HasBranch branch) (forest : arena.IsForest)
    (same : changed.entries = arena.entries)
    (labels : ∀ id, arena.Above branch.id id → changed.label? id = arena.label? id) :
    changed.HasBranch branch :=
  ⟨hasBranch.holds.relabel forest same labels,
    ((sameLinks_of_entries same).parent? _).trans hasBranch.parent, hasBranch.notRoot⟩

theorem Apart.of_sameLinks (apart : arena.Apart first second)
    (same : SameLinks arena changed) : changed.Apart first second :=
  ⟨fun above => apart.1 (same.above_iff.mp above),
    fun above => apart.2 (same.above_iff.mp above)⟩

theorem Apart.attach (apart : arena.Apart first second) (inside : child < arena.size)
    (one : ¬arena.Above child first.id) (two : ¬arena.Above child second.id) :
    (arena.attach parent child).Apart first second :=
  ⟨fun above => apart.1 (above.of_attach inside two), fun above =>
    apart.2 (above.of_attach inside one)⟩

theorem Holds.attach_child (holds : arena.Holds parent (.node data trees))
    (isTree : arena.Holds child tree) (forest : arena.IsForest)
    (apart : ¬arena.Above child parent) :
    (arena.attach parent child).Holds parent (.node data (trees ++ [tree])) := by
  have inside := holds.lt_size
  cases holds with
  | node isData length_eq below =>
    have now : (arena.attach parent child).children parent = arena.children parent ++
        [child] := by
      rw [children_attach inside, if_pos rfl]
    refine .node (data?_attach.trans isData) (by simp [now, length_eq]) ?_
    rw [now, zip_append length_eq, forall_mem_append]
    constructor
    · intro pair member
      have isParent := (forest.linked parent pair.1).mp (of_mem_zip member).1
      exact (below pair member).attach forest inside (forest.not_above_parent isParent)
    · exact forall_mem_singleton.mpr (isTree.attach forest inside apart)

/-! ## Branches in any order -/

namespace Bears

theorem perm (bears : arena.Bears trunk branches) (isPerm : branches.Perm others) :
    arena.Bears trunk others where
  trunk := bears.trunk
  each branch member := bears.each branch (isPerm.mem_iff.mpr member)
  apart := isPerm.pairwise bears.apart fun {_ _} => Apart.symm

theorem sublist (bears : arena.Bears trunk branches)
    (isSublist : others.Sublist branches) :
    arena.Bears trunk others where
  trunk := bears.trunk
  each branch member := bears.each branch (isSublist.subset member)
  apart := bears.apart.sublist isSublist

theorem cons_iff : arena.Bears trunk (branch :: branches) ↔
    arena.HasBranch branch ∧ (∀ other ∈ branches, arena.Apart branch other) ∧
    arena.Bears trunk branches := by
  constructor
  · rintro ⟨hasTrunk, each, apart⟩
    obtain ⟨hasBranch, further⟩ := forall_mem_cons.mp each
    obtain ⟨fromBranch, among⟩ := pairwise_cons.mp apart
    exact ⟨hasBranch, fromBranch, hasTrunk, further, among⟩
  · rintro ⟨hasBranch, fromBranch, hasTrunk, further, among⟩
    exact ⟨hasTrunk, forall_mem_cons.mpr ⟨hasBranch, further⟩,
      pairwise_cons.mpr ⟨fromBranch, among⟩⟩

/-! ## Steps at branches -/

theorem alloc (bears : arena.Bears trunk branches) (forest : arena.IsForest)
    (content : Content) (position : Option Position) :
    (arena.alloc content position).Bears trunk
      (⟨arena.size, .node (content.data none) [], none⟩ :: branches) := by
  have rootOld : root ≠ arena.size := Nat.ne_of_lt bears.trunk.root_lt
  have noChildren : (arena.alloc content position).children arena.size = [] := by
    rw [children_alloc, Arena.children, getElem?_size]
    rfl
  have noParent : (arena.alloc content position).parent? arena.size = none := by
    rw [parent?_alloc, parent?, getElem?_size]
    rfl
  have noLabel : arena.label? arena.size = none :=
    label?_eq_none fun tag member => Nat.ne_of_lt (bears.trunk.inside tag member)
  refine cons_iff.mpr ⟨⟨?_, noParent, rootOld.symm⟩, fun branch member => ?_,
    bears.trunk.after_step ?_ ?_ rfl rfl (by simp), ?_, ?_⟩
  · refine .node ?_ (congrArg List.length noChildren) (by simp [noChildren])
    rw [data?_alloc, if_pos rfl, noLabel]
  · have inside := (bears.each branch member).holds.lt_size
    constructor
    · intro above
      exact Nat.lt_irrefl _
        (forest.above_size_lt (sameLinks_alloc.above_iff.mp above) inside)
    · intro above
      exact Nat.ne_of_lt inside (above.eq_of_parent?_eq_none noParent)
  · rw [data?_alloc, if_neg rootOld]
    exact bears.trunk.data
  · rw [children_alloc]
    exact bears.trunk.children
  · exact fun branch member => (bears.each branch member).alloc
  · exact bears.apart.imp fun apart => apart.of_sameLinks sameLinks_alloc

theorem isLegal_attach
    (bears : arena.Bears trunk (⟨child, tree, none⟩ :: branch :: branches)) :
    (Step.attach branch.id child).IsLegal lines arena := by
  obtain ⟨hasChild, fromChild, rest⟩ := cons_iff.mp bears
  obtain ⟨hasParent, _⟩ := cons_iff.mp rest
  exact ⟨hasParent.holds.lt_size, hasChild.holds.lt_size, hasChild.parent,
    hasChild.notRoot, (fromChild branch (mem_cons_self ..)).1⟩

/-- What attaching a branch leaves alone. -/
theorem attach_elsewhere (bears : arena.Bears trunk (⟨child, tree, none⟩ :: branches))
    (forest : arena.IsForest) (parentInside : parent < arena.size)
    (apart : ∀ branch ∈ branches, ¬arena.Above branch.id parent) :
    (∀ branch ∈ branches, (arena.attach parent child).HasBranch branch) ∧
      branches.Pairwise (arena.attach parent child).Apart := by
  obtain ⟨hasChild, fromChild, rest⟩ := cons_iff.mp bears
  have childInside := hasChild.holds.lt_size
  constructor
  · intro branch member
    refine (rest.each branch member).attach forest parentInside childInside
      (apart branch member) ?_
    intro same
    exact (fromChild branch member).1 (same ▸ .refl)
  · refine rest.apart.imp_of_mem fun {one two} isOne isTwo apart => ?_
    exact apart.attach childInside (fromChild one isOne).1 (fromChild two isTwo).1

theorem attach (forest : arena.IsForest)
    (bears : arena.Bears trunk
      (⟨child, tree, none⟩ :: ⟨parent, .node data trees, holder⟩ :: branches)) :
    (arena.attach parent child).Bears trunk
      (⟨parent, .node data (trees ++ [tree]), holder⟩ :: branches) := by
  obtain ⟨hasChild, fromChild, rest⟩ := cons_iff.mp bears
  obtain ⟨hasParent, fromParent, elsewhere⟩ := cons_iff.mp rest
  obtain ⟨notAbove, notBelow⟩ := fromChild _ (mem_cons_self ..)
  have parentInside := hasParent.holds.lt_size
  have childInside := hasChild.holds.lt_size
  obtain ⟨each, apart⟩ :=
    (bears.sublist ((sublist_cons_self ..).cons_cons _)).attach_elsewhere forest
    parentInside fun branch member => (fromParent branch member).2
  refine cons_iff.mpr ⟨⟨?_, ?_, hasParent.notRoot⟩, fun branch member => ?_,
    bears.trunk.after_step ?_ ?_ rfl rfl (by simp), each, apart⟩
  · exact hasParent.holds.attach_child hasChild.holds forest notAbove
  · rw [parent?_attach childInside, if_neg]
    · exact hasParent.parent
    · rintro rfl
      exact notAbove .refl
  · exact (fromParent branch member).attach childInside notAbove
      (fromChild branch (mem_cons_of_mem _ member)).1
  · exact data?_attach.trans bears.trunk.data
  · rw [children_attach parentInside, if_neg hasParent.notRoot.symm]
    exact bears.trunk.children

theorem isLegal_attachRoot (forest : arena.IsForest)
    (bears : arena.Bears trunk (⟨child, tree, none⟩ :: branches)) :
    (Step.attach root child).IsLegal lines arena := by
  obtain ⟨hasChild, _, _⟩ := cons_iff.mp bears
  refine ⟨bears.trunk.root_lt, hasChild.holds.lt_size, hasChild.parent, hasChild.notRoot,
    fun above => ?_⟩
  exact hasChild.notRoot (above.eq_of_parent?_eq_none forest.root)

theorem attachRoot (forest : arena.IsForest)
    (bears : arena.Bears trunk (⟨child, tree, none⟩ :: branches)) :
    (arena.attach root child).Bears { trunk with children := trunk.children ++ [child] }
      (⟨child, tree, some root⟩ :: branches) := by
  obtain ⟨hasChild, fromChild, rest⟩ := cons_iff.mp bears
  have childInside := hasChild.holds.lt_size
  have rootInside := bears.trunk.root_lt
  have notAbove : ¬arena.Above child root := fun above =>
    hasChild.notRoot (above.eq_of_parent?_eq_none forest.root)
  obtain ⟨each, apart⟩ :=
    bears.attach_elsewhere forest rootInside fun branch member above =>
    (rest.each branch member).notRoot (above.eq_of_parent?_eq_none forest.root)
  have isParent : (arena.attach root child).parent? child = some root := by
    rw [parent?_attach childInside, if_pos rfl]
  have topRoot : (arena.attach root child).parent? root = none := by
    rw [parent?_attach childInside, if_neg hasChild.notRoot.symm]
    exact forest.root
  refine cons_iff.mpr ⟨⟨?_, isParent, hasChild.notRoot⟩,
    fun branch member => ⟨fun above => ?_, fun above => ?_⟩,
    bears.trunk.after_step ?_ ?_ rfl rfl (by simp), each, apart⟩
  · exact hasChild.holds.attach forest rootInside notAbove
  · exact (fromChild branch member).1
      (above.of_attach childInside (fromChild branch member).1)
  · -- The way up from the child leads to the root at once, and no branch is met there.
    cases above with
    | refl => exact (fromChild branch member).1 .refl
    | step isOther further =>
      rw [isParent] at isOther
      cases isOther
      exact (rest.each branch member).notRoot (further.eq_of_parent?_eq_none topRoot)
  · exact data?_attach.trans bears.trunk.data
  · rw [children_attach rootInside, if_pos rfl, bears.trunk.children]

theorem header {text : String} {span : Span} {place : Position} (forest : arena.IsForest)
    (bears : arena.Bears trunk branches) :
    (arena.header text span place).Bears
      { trunk with data := { trunk.data with text, span := some span } } branches := by
  refine ⟨bears.trunk.after_step ?_ ?_ rfl rfl (by simp), fun branch member => ?_,
    bears.apart.imp fun apart => apart.of_sameLinks sameLinks_header⟩
  · exact data?_header_root bears.trunk.data
  · exact children_header.trans bears.trunk.children
  · obtain ⟨holds, isParent, notRoot⟩ := bears.each branch member
    exact ⟨holds.header forest notRoot, parent?_header.trans isParent, notRoot⟩

/-! ## Steps that deal with labels -/

theorem relabel {changed : Arena} (bears : arena.Bears trunk branches)
    (forest : arena.IsForest) (same : changed.entries = arena.entries)
    (tags : changed.tags ⊆ arena.tags) (atRoot : changed.label? root = arena.label? root)
    (labels : ∀ branch ∈ branches, ∀ id, arena.Above branch.id id →
      changed.label? id = arena.label? id) :
    changed.Bears { trunk with pending := changed.pending, kept := changed.kept }
      branches := by
  have links := sameLinks_of_entries same
  refine ⟨⟨?_, ?_, rfl, rfl, fun tag member => ?_⟩, fun branch member => ?_,
    bears.apart.imp fun apart => apart.of_sameLinks links⟩
  · exact (data?_of_entries same atRoot).trans bears.trunk.data
  · exact (links.children root).trans bears.trunk.children
  · exact Nat.lt_of_lt_of_le (bears.trunk.inside tag (tags member)) links.size_le
  · exact (bears.each branch member).relabel forest same (labels branch member)

/-- Nothing that is shown changes when labels are kept. -/
theorem keep (bears : arena.Bears trunk branches) (forest : arena.IsForest) :
    (arena.step .keep).Bears
      { trunk with pending := [], kept := trunk.kept ++ trunk.pending } branches := by
  have now : (arena.step .keep).Bears _ branches :=
    bears.relabel forest rfl (by simp [tags, step]) label?_keep fun _ _ _ _ => label?_keep
  simpa only [step, bears.trunk.kept, bears.trunk.pending] using now

/-- Labels that no branch has can be dropped. -/
theorem drop (bears : arena.Bears trunk branches) (forest : arena.IsForest)
    (notRoot : ∀ tag ∈ trunk.pending, tag.alternative ≠ root)
    (apart : ∀ tag ∈ trunk.pending, ∀ branch ∈ branches,
      ¬arena.Above branch.id tag.alternative) :
    (arena.step .drop).Bears { trunk with pending := [] } branches := by
  rw [← bears.trunk.pending] at notRoot apart
  have labels (branch : Branch) (member : branch ∈ branches) (id : Nat)
      (above : arena.Above branch.id id) :
      (arena.step .drop).label? id = arena.label? id := by
    refine label?_drop ?_
    rintro tag isPending rfl
    exact apart tag isPending branch member above
  have now : (arena.step .drop).Bears _ branches :=
    bears.relabel forest rfl (by simp [tags, step]) (label?_drop notRoot) labels
  simpa only [step, bears.trunk.kept] using now

theorem push (tag : Tag) (forest : arena.IsForest)
    (bears : arena.Bears trunk (⟨tag.alternative, .node data trees, holder⟩ :: branches))
    (noTag : ∀ old ∈ arena.tags, old.alternative ≠ tag.alternative) :
    (arena.step (.push tag)).Bears { trunk with pending := trunk.pending ++ [tag] }
      (⟨tag.alternative, .node { data with label := some tag.label } trees, holder⟩ ::
        branches) := by
  obtain ⟨hasBranch, apart, rest⟩ := cons_iff.mp bears
  have links : SameLinks arena (arena.step (.push tag)) := sameLinks_of_entries rfl
  have elsewhere {id : Nat} (differ : id ≠ tag.alternative) :
      (arena.step (.push tag)).data? id = arena.data? id :=
    data?_of_entries rfl (label?_push differ)
  refine cons_iff.mpr ⟨⟨?_, hasBranch.parent, hasBranch.notRoot⟩,
    fun branch member => (apart branch member).of_sameLinks links,
    ⟨?_, bears.trunk.children, congrArg (· ++ [tag]) bears.trunk.pending,
      bears.trunk.kept, ?_⟩,
    fun branch member => ?_, rest.apart.imp fun apart => apart.of_sameLinks links⟩
  · cases hasBranch.holds with
    | node isData length_eq below =>
      refine .node ?_ length_eq fun pair member => ?_
      · obtain ⟨entry, found, shown⟩ := Option.map_eq_some_iff.mp isData
        rw [data?, label?_push_self noTag, ← shown]
        exact Option.map_eq_some_iff.mpr ⟨entry, found, rfl⟩
      · have isParent := (forest.linked _ pair.1).mp (of_mem_zip member).1
        refine (below pair member).relabel forest rfl fun id above => label?_push ?_
        rintro rfl
        exact forest.not_above_parent isParent above
  · exact (elsewhere hasBranch.notRoot.symm).trans bears.trunk.data
  · rw [tags_push, forall_mem_append, forall_mem_singleton]
    exact ⟨bears.trunk.inside, hasBranch.holds.lt_size⟩
  · refine (rest.each branch member).relabel forest rfl fun id above => label?_push ?_
    rintro rfl
    exact (apart branch member).2 above

end Bears

end Arena

end GrammarInspector
