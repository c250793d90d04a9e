import GrammarInspector.Proofs.Arena.Basic

/-! # Forests

An arena is a forest if its links fit together: children and parents agree, no node is a
child twice, and every way up ends. Legal steps keep it a forest, and what has a parent
keeps it. The condition that matters is that only a node without a parent becomes a child,
and not of a node below it.
-/

namespace GrammarInspector

open List

namespace Arena

variable {lines : LineIndex} {arena changed : Arena} {content : Content}
  {position : Option Position} {text : String} {span : Span} {place : Position}
  {parent child id other holder : Nat} {tree : Tree} {front steps : List Step}
  {change : Step}

/-! ## Ways up and down -/

/-- Whether a node is met on the way up from another, which counts as part of the way. -/
inductive Above (arena : Arena) (holder : Nat) : Nat → Prop
  | refl : Above arena holder holder
  | step {id parent : Nat} (isParent : arena.parent? id = some parent)
      (above : Above arena holder parent) :
      Above arena holder id

/-- Whether the way up from a node ends. -/
inductive Ends (arena : Arena) : Nat → Prop
  | top {id : Nat} (noParent : arena.parent? id = none) : Ends arena id
  | next {id parent : Nat} (isParent : arena.parent? id = some parent)
      (ends : Ends arena parent) : Ends arena id

/-- Whether all ways down from a node end. -/
inductive EndsBelow (arena : Arena) : Nat → Prop
  | node {id : Nat} (inside : id < arena.size)
      (each : ∀ child ∈ arena.children id, EndsBelow arena child) : EndsBelow arena id

/-- Whether a node, with all that is below it, is some tree. -/
inductive Holds (arena : Arena) : Nat → Tree → Prop
  | node {id : Nat} {data : NodeData} {trees : List Tree}
      (isData : arena.data? id = some data)
      (length_eq : (arena.children id).length = trees.length)
      (below : ∀ pair ∈ (arena.children id).zip trees, Holds arena pair.1 pair.2) :
      Holds arena id (.node data trees)

theorem Above.trans {middle : Nat} (first : arena.Above holder middle)
    (second : arena.Above middle id) : arena.Above holder id := by
  induction second with
  | refl => exact first
  | step isParent _ induction => exact .step isParent induction

theorem Above.eq_of_parent?_eq_none (above : arena.Above holder id)
    (noParent : arena.parent? id = none) : holder = id := by
  cases above with
  | refl => rfl
  | step isParent _ =>
    rw [noParent] at isParent
    cases isParent

/-- Two nodes on the way up from a third are above one another. -/
theorem Above.or_above {first second : Nat} (one : arena.Above first id)
    (two : arena.Above second id) :
    arena.Above first second ∨ arena.Above second first := by
  induction one with
  | refl => exact .inr two
  | @step id parent isParent above induction =>
    cases two with
    | refl => exact .inl (.step isParent above)
    | step isOther further =>
      rw [isParent] at isOther
      cases isOther
      exact induction further

theorem Holds.data?_eq (holds : arena.Holds id tree) :
    arena.data? id = some tree.data := by
  cases holds with
  | node isData _ _ => exact isData

theorem Holds.lt_size (holds : arena.Holds id tree) : id < arena.size := by
  cases holds with
  | node isData _ _ =>
    rw [data?, Option.map_eq_some_iff] at isData
    obtain ⟨entry, found, _⟩ := isData
    exact (List.getElem?_eq_some_iff.mp found).1

theorem lt_size_of_parent? (isParent : arena.parent? id = some parent) :
    id < arena.size := by
  rw [parent?, Option.bind_eq_some_iff] at isParent
  obtain ⟨entry, found, _⟩ := isParent
  exact (List.getElem?_eq_some_iff.mp found).1

theorem lt_size_of_mem_children (member : child ∈ arena.children id) :
    id < arena.size := by
  apply Nat.lt_of_not_le
  intro beyond
  rw [children, getElem?_eq_none beyond] at member
  cases member

/-! ## Forests -/

structure IsForest (arena : Arena) : Prop where
  /-- Children and parents agree. -/
  linked : ∀ parent child, child ∈ arena.children parent ↔
      arena.parent? child = some parent
  /-- No node is a child twice. -/
  once : ∀ parent, (arena.children parent).Nodup
  root : arena.parent? root = none
  ends : ∀ id, arena.Ends id
  endsBelow : ∀ id < arena.size, arena.EndsBelow id

/-- Whether the position stored at each node is where its span begins. -/
def IsPlaced (lines : LineIndex) (arena : Arena) : Prop :=
  ∀ entry ∈ arena.entries,
    entry.position = entry.content.span.map fun span => lines.position span.start

theorem IsPlaced.ownPosition?_eq {data : NodeData} (placed : arena.IsPlaced lines)
    (isData : arena.data? id = some data) :
    arena.ownPosition? id = data.span.map fun span => lines.position span.start := by
  obtain ⟨entry, found, rfl⟩ := Option.map_eq_some_iff.mp isData
  rw [ownPosition?, found]
  exact placed entry (mem_of_getElem? found)

/-- Whether a step can be made without breaking a forest, and stores the position of
what it shows. -/
def Step.IsLegal (lines : LineIndex) (arena : Arena) : Step → Prop
  | .alloc content position =>
    position = content.span.map fun span => lines.position span.start
  | .attach parent child => parent < arena.size ∧ child < arena.size ∧
      arena.parent? child = none ∧ child ≠ root ∧ ¬arena.Above child parent
  | .header _ span position => position = lines.position span.start
  | .push tag => tag.alternative < arena.size
  | .keep | .drop => True

/-- Whether each of some steps can be made where it is made. -/
inductive AreLegal (lines : LineIndex) : Arena → List Step → Prop
  | nil {arena : Arena} : AreLegal lines arena []
  | cons {arena : Arena} {first : Step} {steps : List Step}
      (legal : first.IsLegal lines arena)
        (rest : AreLegal lines (arena.step first) steps) :
      AreLegal lines arena (first :: steps)

theorem AreLegal.append {arena : Arena} {behind : List Step}
    (first : AreLegal lines arena front)
    (second : AreLegal lines (arena.after front) behind) :
    AreLegal lines arena (front ++ behind) := by
  induction first with
  | nil => exact second
  | cons legal _ induction => exact .cons legal (induction second)

namespace IsForest

theorem parent_lt (forest : arena.IsForest) (isParent : arena.parent? id = some parent) :
    parent < arena.size :=
  lt_size_of_mem_children ((forest.linked parent id).mpr isParent)

theorem not_above_parent (forest : arena.IsForest)
    (isParent : arena.parent? child = some parent) : ¬arena.Above child parent := by
  have ends := forest.ends parent
  -- A cycle would have to pass through every node on the way up, also
  -- through the last one.
  induction ends generalizing child with
  | top noParent =>
    intro above
    have same := above.eq_of_parent?_eq_none noParent
    rw [same, noParent] at isParent
    cases isParent
  | next isNext _ induction =>
    intro above
    apply induction isNext
    cases above with
    | refl =>
      rw [isNext] at isParent
      cases isParent
      exact .refl
    | step isOther further =>
      rw [isNext] at isOther
      cases isOther
      exact Above.trans (.step isParent .refl) further

theorem nodup_children (forest : arena.IsForest) :
    (arena.entries.flatMap (·.children)).Nodup := by
  have children_eq {index : Nat} (inside : index < arena.entries.length) :
      arena.children index = arena.entries[index].children := by
    rw [children, getElem?_eq_getElem inside]
    rfl
  refine pairwise_flatMap.mpr ⟨fun entry member => ?_, pairwise_iff_getElem.mpr ?_⟩
  · obtain ⟨index, inside, rfl⟩ := getElem_of_mem member
    rw [← children_eq inside]
    exact forest.once index
  · rintro first second firstInside secondInside before child ofFirst _ ofSecond rfl
    rw [← children_eq firstInside, forest.linked] at ofFirst
    rw [← children_eq secondInside, forest.linked, ofFirst] at ofSecond
    cases ofSecond
    exact Nat.lt_irrefl _ before

theorem above_size_lt (forest : arena.IsForest) (above : arena.Above holder id)
    (inside : id < arena.size) : holder < arena.size := by
  induction above with
  | refl => exact inside
  | step isParent _ induction => exact induction (forest.parent_lt isParent)

end IsForest

/-! ## Trees that steps leave alone -/

/-- A node is the same tree in another arena that has the same data and children at all
nodes below it. -/
theorem Holds.congr (holds : arena.Holds id tree)
    (linked : ∀ parent child, child ∈ arena.children parent →
      arena.parent? child = some parent)
    (same : ∀ other, arena.Above id other → changed.data? other = arena.data? other ∧
      changed.children other = arena.children other) :
    changed.Holds id tree := by
  induction holds with
  | @node id data trees isData length_eq below induction =>
    obtain ⟨dataSame, childrenSame⟩ := same id .refl
    refine .node (dataSame.trans isData) (childrenSame ▸ length_eq) ?_
    rw [childrenSame]
    intro pair member
    refine induction pair member fun other above => same other (Above.trans ?_ above)
    exact .step (linked id pair.1 (of_mem_zip member).1) .refl

theorem Holds.alloc (holds : arena.Holds id tree) :
    (arena.alloc content position).Holds id tree := by
  have inside := holds.lt_size
  induction holds with
  | @node id old trees isData length_eq below induction =>
    refine .node ?_ (by rwa [children_alloc]) ?_
    · rw [data?_alloc, if_neg (Nat.ne_of_lt inside)]
      exact isData
    · rw [children_alloc]
      exact fun pair member => induction pair member (below pair member).lt_size

theorem Holds.attach (holds : arena.Holds id tree) (forest : arena.IsForest)
    (inside : parent < arena.size) (apart : ¬arena.Above id parent) :
    (arena.attach parent child).Holds id tree := by
  refine holds.congr (fun parent child => (forest.linked parent child).mp)
    fun other above => ?_
  refine ⟨data?_attach, ?_⟩
  rw [children_attach inside, if_neg]
  rintro rfl
  exact apart above

theorem Holds.header (holds : arena.Holds id tree) (forest : arena.IsForest)
    (notRoot : id ≠ root) : (arena.header text span place).Holds id tree := by
  refine holds.congr (fun parent child => (forest.linked parent child).mp)
    fun other above => ?_
  refine ⟨data?_header ?_, children_header⟩
  rintro rfl
  exact notRoot (above.eq_of_parent?_eq_none forest.root)

theorem Holds.relabel (holds : arena.Holds id tree) (forest : arena.IsForest)
    (same : changed.entries = arena.entries)
    (labels : ∀ other, arena.Above id other → changed.label? other = arena.label? other) :
    changed.Holds id tree := by
  refine holds.congr (fun parent child => (forest.linked parent child).mp)
    fun other above => ?_
  exact ⟨data?_of_entries same (labels other above), by rw [children, children, same]⟩

/-- What there is for each of some values there is for all of them together. -/
theorem exists_zip {α β : Type} {related : α → β → Prop} {values : List α}
    (each : ∀ value ∈ values, ∃ found, related value found) :
    ∃ all : List β, values.length = all.length ∧ ∀ pair ∈ values.zip all,
      related pair.1 pair.2 := by
  induction values with
  | nil => exact ⟨[], rfl, by simp⟩
  | cons value rest induction =>
    obtain ⟨⟨found, holds⟩, others⟩ := forall_mem_cons.mp each
    obtain ⟨all, length_eq, further⟩ := induction others
    exact ⟨found :: all, congrArg (· + 1) length_eq, forall_mem_cons.mpr ⟨holds, further⟩⟩

theorem EndsBelow.exists_holds (endsBelow : arena.EndsBelow id) :
    ∃ tree, arena.Holds id tree := by
  induction endsBelow with
  | @node id inside _ induction =>
    obtain ⟨trees, length_eq, below⟩ := exists_zip induction
    have isData : ∃ data, arena.data? id = some data := by
      rw [data?, getElem?_eq_getElem inside]
      exact ⟨_, rfl⟩
    obtain ⟨data, isData⟩ := isData
    exact ⟨.node data trees, .node isData length_eq below⟩

/-! ## Steps keep forests -/

/-- Whether the links between nodes are the same in two arenas. -/
structure SameLinks (arena changed : Arena) : Prop where
  children : ∀ id, changed.children id = arena.children id
  parent? : ∀ id, changed.parent? id = arena.parent? id
  size_le : arena.size ≤ changed.size

theorem sameLinks_alloc : SameLinks arena (arena.alloc content position) :=
  ⟨fun _ => children_alloc, fun _ => parent?_alloc, by simp⟩

theorem sameLinks_header : SameLinks arena (arena.header text span place) :=
  ⟨fun _ => children_header, fun _ => parent?_header, by simp⟩

theorem sameLinks_of_entries (same : changed.entries = arena.entries) :
    SameLinks arena changed where
  children _ := by rw [children, children, same]
  parent? _ := by rw [Arena.parent?, Arena.parent?, same]
  size_le := Nat.le_of_eq (by rw [size, size, same])

theorem SameLinks.above_iff (same : SameLinks arena changed) :
    changed.Above holder id ↔ arena.Above holder id := by
  constructor <;> intro above
  · induction above with
    | refl => exact .refl
    | step isParent _ induction => exact .step (same.parent? _ ▸ isParent) induction
  · induction above with
    | refl => exact .refl
    | step isParent _ induction => exact .step ((same.parent? _).trans isParent) induction

/-- A way up that does not pass the new child is a way that was there before. -/
theorem Above.of_attach (above : (arena.attach parent child).Above holder id)
    (inside : child < arena.size) (apart : ¬arena.Above child id) :
    arena.Above holder id := by
  induction above with
  | refl => exact .refl
  | @step id next isNext above induction =>
    have notChild : id ≠ child := by
      rintro rfl
      exact apart .refl
    rw [parent?_attach inside, if_neg notChild] at isNext
    exact .step isNext (induction fun passes => apart (.step isNext passes))

theorem Ends.attach_of_apart (ends : arena.Ends id) (inside : child < arena.size)
    (apart : ¬arena.Above child id) : (arena.attach parent child).Ends id := by
  induction ends with
  | @top id noParent =>
    have notChild : id ≠ child := by
      rintro rfl
      exact apart .refl
    exact .top (by rw [parent?_attach inside, if_neg notChild, noParent])
  | @next id next isNext ends induction =>
    have notChild : id ≠ child := by
      rintro rfl
      exact apart .refl
    refine .next (by rw [parent?_attach inside, if_neg notChild, isNext]) ?_
    exact induction fun passes => apart (.step isNext passes)

theorem EndsBelow.attach_of_apart (endsBelow : arena.EndsBelow id)
    (forest : arena.IsForest) (inside : parent < arena.size)
    (apart : ¬arena.Above id parent) : (arena.attach parent child).EndsBelow id := by
  induction endsBelow with
  | @node id lower _ induction =>
    have notParent : id ≠ parent := by
      rintro rfl
      exact apart .refl
    refine .node (by rwa [size_attach]) ?_
    rw [children_attach inside, if_neg notParent]
    intro other member
    refine induction other member fun passes => apart (Above.trans ?_ passes)
    exact .step ((forest.linked id other).mp member) .refl

namespace IsForest

theorem single : (Arena.single content).IsForest := by
  have noChildren (id : Nat) : (Arena.single content).children id = [] := by
    cases id <;> rfl
  have noParent (id : Nat) : (Arena.single content).parent? id = none := by
    cases id <;> rfl
  refine ⟨fun parent child => ?_, fun parent => ?_, noParent _, fun id =>
    .top (noParent id),
    fun id inside => .node inside ?_⟩
  · rw [noChildren, noParent]
    simp
  · rw [noChildren]
    exact nodup_nil
  · simp [noChildren]

theorem of_sameLinks {changed : Arena} (forest : arena.IsForest)
    (same : SameLinks arena changed) : changed.IsForest := by
  have kept {id : Nat} (endsBelow : arena.EndsBelow id) : changed.EndsBelow id := by
    induction endsBelow with
    | node inside _ induction =>
      exact .node (Nat.lt_of_lt_of_le inside same.size_le) (by rwa [same.children])
  refine ⟨fun parent child => ?_, fun parent => ?_, ?_, fun id => ?_, fun id inside => ?_⟩
  · rw [same.children, same.parent?]
    exact forest.linked parent child
  · rw [same.children]
    exact forest.once parent
  · rw [same.parent?]
    exact forest.root
  · induction forest.ends id with
    | top noParent => exact .top ((same.parent? _).trans noParent)
    | next isParent _ induction => exact .next ((same.parent? _).trans isParent) induction
  · refine .node inside fun child member => kept ?_
    rw [same.children] at member
    exact forest.endsBelow child (lt_size_of_parent? ((forest.linked id child).mp member))

theorem attach (forest : arena.IsForest)
    (legal : (Step.attach parent child).IsLegal lines arena) :
    (arena.attach parent child).IsForest := by
  obtain ⟨parentInside, childInside, noParent, notRoot, apart⟩ := legal
  refine ⟨fun other id => ?_, fun other => ?_, ?_, fun id => ?_, fun id inside => ?_⟩
  · rw [children_attach parentInside, parent?_attach childInside]
    by_cases isChild : id = child
    · subst isChild
      have nowhere : id ∉ arena.children other := by
        rw [forest.linked, noParent]
        simp
      by_cases isParent : other = parent
      · simp [isParent]
      · simp [isParent, nowhere, Ne.symm isParent]
    · rw [if_neg isChild, ← forest.linked other id]
      by_cases isParent : other = parent
      · simp [isParent, isChild]
      · simp [isParent]
  · rw [children_attach parentInside]
    split
    · rw [nodup_append]
      refine ⟨forest.once other, by simp, fun id member last isLast same => ?_⟩
      rw [same, mem_singleton.mp isLast, forest.linked, noParent] at member
      cases member
    · exact forest.once other
  · rw [parent?_attach childInside, if_neg (Ne.symm notRoot)]
    exact forest.root
  · have parentEnds : (arena.attach parent child).Ends parent :=
      (forest.ends parent).attach_of_apart childInside apart
    induction forest.ends id with
    | @top id noParent =>
      by_cases isChild : id = child
      · exact .next (by rw [parent?_attach childInside, if_pos isChild]) parentEnds
      · exact .top (by rw [parent?_attach childInside, if_neg isChild, noParent])
    | @next id next isNext _ induction =>
      have notChild : id ≠ child := by
        rintro rfl
        rw [noParent] at isNext
        cases isNext
      exact .next (by rw [parent?_attach childInside, if_neg notChild, isNext]) induction
  · rw [size_attach] at inside
    have childEnds : (arena.attach parent child).EndsBelow child :=
      (forest.endsBelow child childInside).attach_of_apart forest parentInside apart
    induction forest.endsBelow id inside with
    | @node id lower _ induction =>
      have each (other : Nat) (member : other ∈ arena.children id) :
          (arena.attach parent child).EndsBelow other :=
        induction other member (lt_size_of_parent? ((forest.linked id other).mp member))
      refine .node (by rwa [size_attach]) ?_
      rw [children_attach parentInside]
      split
      · exact forall_mem_append.mpr ⟨each, forall_mem_singleton.mpr childEnds⟩
      · exact each

theorem step {change : Step} (forest : arena.IsForest)
    (legal : change.IsLegal lines arena) : (arena.step change).IsForest := by
  cases change with
  | alloc content position => exact forest.of_sameLinks sameLinks_alloc
  | attach parent child => exact forest.attach legal
  | header text span position => exact forest.of_sameLinks sameLinks_header
  | push | keep | drop => exact forest.of_sameLinks (sameLinks_of_entries rfl)

end IsForest

/-- A legal step stores the positions of what it shows. -/
theorem IsPlaced.step (placed : arena.IsPlaced lines)
    (legal : change.IsLegal lines arena) :
    (arena.step change).IsPlaced lines := by
  intro entry member
  obtain ⟨index, found⟩ := getElem?_of_mem member
  cases change with
  | alloc content position =>
    rw [Arena.step, getElem?_alloc] at found
    split at found
    · cases found
      exact legal
    · exact placed entry (mem_of_getElem? found)
  | attach parent child =>
    rw [Arena.step, getElem?_attach] at found
    obtain ⟨entry, isOld, rfl⟩ := Option.map_eq_some_iff.mp found
    exact placed entry (mem_of_getElem? isOld)
  | header text span position =>
    rw [Arena.step, getElem?_header] at found
    obtain ⟨entry, isOld, rfl⟩ := Option.map_eq_some_iff.mp found
    by_cases isRoot : index = root
    · rw [if_pos isRoot]
      exact congrArg some legal
    · rw [if_neg isRoot]
      exact placed entry (mem_of_getElem? isOld)
  | push | keep | drop => exact placed entry member

/-- What every legal step keeps holds all the time while legal steps are being made. -/
theorem AreLegal.keeps {known : Arena → Prop}
    (each : ∀ arena change, known arena → Step.IsLegal lines arena change →
      known (arena.step change))
    (legal : AreLegal lines arena steps) (holds : known arena)
      (isFront : front <+: steps) :
    known (arena.after front) := by
  induction legal generalizing front with
  | nil =>
    rw [prefix_nil] at isFront
    rwa [isFront]
  | cons legal _ induction =>
    rcases prefix_cons_iff.mp isFront with rfl | ⟨rest, rfl, isRest⟩
    · exact holds
    · exact induction (each _ _ holds legal) isRest

theorem parent?_step (legal : change.IsLegal lines arena)
    (isParent : arena.parent? id = some parent) :
    (arena.step change).parent? id = some parent := by
  cases change with
  | alloc => exact parent?_alloc.trans isParent
  | attach holder child =>
    obtain ⟨_, inside, noParent, _⟩ := legal
    rw [step, parent?_attach inside, if_neg]
    · exact isParent
    · rintro rfl
      rw [noParent] at isParent
      cases isParent
  | header => exact parent?_header.trans isParent
  | push | keep | drop => exact isParent

/-- A property that legal steps keep. -/
def IsStable (known : Arena → Prop) : Prop :=
  ∀ lines arena change, known arena → Step.IsLegal lines arena change →
    known (arena.step change)

theorem isStable_parent? : IsStable fun arena => arena.parent? id = some parent :=
  fun _ _ _ isParent legal => parent?_step legal isParent

theorem IsForest.after (forest : arena.IsForest) (legal : AreLegal lines arena steps) :
    (arena.after steps).IsForest :=
  legal.keeps (fun _ _ forest legal => forest.step legal) forest prefix_rfl

theorem AreLegal.isLegal (legal : AreLegal lines arena steps)
    (isFront : front ++ [change] <+: steps) :
    change.IsLegal lines (arena.after front) := by
  induction legal generalizing front with
  | nil =>
    rw [prefix_nil] at isFront
    simp at isFront
  | cons legal _ induction =>
    cases front with
    | nil =>
      rw [nil_append, cons_prefix_cons] at isFront
      rwa [isFront.1]
    | cons first rest =>
      rw [cons_append, cons_prefix_cons] at isFront
      obtain ⟨rfl, isRest⟩ := isFront
      exact induction isRest

end Arena

end GrammarInspector
