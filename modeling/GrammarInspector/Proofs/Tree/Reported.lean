import Mathlib.Data.List.Infix
import GrammarInspector.Grammar.Basic
import GrammarInspector.Proofs.Tree.Lineage
import GrammarInspector.Proofs.Tree.Walk

/-! # What a walk reports

A walk carries along whether it is inside a rule body, and it leaves out what is below
some of the nodes that it reports. Which nodes it reports can be said without following
it: it depends on the nodes between the start of the walk and the node alone. `Walk.Calls`
says it in these terms, and `events_select_descendants` that a walk keeps to it.
-/

namespace GrammarInspector

open List

/-! ## Pre-order from a stack -/

theorem Tree.sizeAll_append (trees others : List Tree) :
    sizeAll (trees ++ others) = sizeAll trees + sizeAll others := by
  induction trees with
  | nil => simp
  | cons tree rest induction => rw [cons_append, sizeAll_cons, sizeAll_cons, induction,
      Nat.add_assoc]

namespace Node

theorem sizeAll_children_append_lt (node : Node) (rest : List Node) :
    Tree.sizeAll ((node.children ++ rest).map (·.tree)) < Tree.sizeAll
      ((node :: rest).map (·.tree)) := by
  obtain ⟨index, ⟨data, children⟩, above⟩ := node
  rw [map_append, Tree.sizeAll_append, map_tree_children, Tree.children_node, map_cons,
    Tree.sizeAll_cons, Tree.size_node]
  omega

/-- The nodes that are met by taking the top of a stack again and again and putting its
children there. -/
def unstacked (stack : List Node) : List Node :=
  match stack with
  | [] => []
  | node :: rest => node :: unstacked (node.children ++ rest)
termination_by Tree.sizeAll (stack.map (·.tree))
decreasing_by exact sizeAll_children_append_lt node rest

theorem unstacked_eq (stack : List Node) :
    unstacked stack = stack.flatMap descendants := by
  fun_induction unstacked stack with
  | case1 => rfl
  | case2 node rest induction =>
    rw [induction, flatMap_append, flatMap_cons, descendants_eq_cons, cons_append]

/-! ## Between the start and a node -/

/-- Whether a node lies below another one. -/
def Holds (holder node : Node) : Prop := node ∈ holder.descendants ∧ node ≠ holder

theorem Holds.suffix {holder node : Node} (holds : holder.Holds node) :
    (holder.index, holder.tree) :: holder.above <:+ node.above := by
  obtain ⟨index, ⟨data, children⟩, above⟩ := holder
  obtain ⟨inside, other⟩ := holds
  rw [descendants, ofTree_node, mem_cons] at inside
  exact above_of_mem_ofTrees children (inside.resolve_left other)

theorem not_suffix_above (node : Node) :
    ¬(node.index, node.tree) :: node.above <:+ node.above := by
  intro held
  have length := held.length_le
  rw [length_cons] at length
  omega

end Node

theorem Tree.holds_iff {tree : Tree} {holder node : Node} (member : node ∈ tree.nodes) :
    holder.Holds node ↔ (holder.index, holder.tree) :: holder.above <:+ node.above := by
  refine ⟨Node.Holds.suffix, fun held => ⟨mem_descendants_of_holder member held, ?_⟩⟩
  rintro rfl
  exact node.not_suffix_above held

namespace Node

variable {tree : Tree} {start node holder : Node} {front inner : List (Nat × Tree)}

theorem exists_front (inside : node ∈ start.descendants) :
    ∃ front, node.above = front ++ start.above := by
  obtain ⟨front, equal⟩ := above_of_mem_ofTree start.tree inside
  exact ⟨front, equal.symm⟩

/-- The nodes between the start and a node, the start included. -/
theorem exists_inner (holderInside : holder ∈ start.descendants)
    (above : node.above = front ++ start.above) (holds : holder.Holds node) :
    ∃ inner, holder.above = inner ++ start.above ∧
    (holder.index, holder.tree) :: inner <:+ front := by
  obtain ⟨inner, equal⟩ := exists_front holderInside
  refine ⟨inner, equal, ?_⟩
  have held := holds.suffix
  rw [equal, above, ← cons_append] at held
  exact suffix_append_self_iff.mp held

theorem holds_of_inner (member : start ∈ tree.nodes) (inside : node ∈ start.descendants)
    (above : node.above = front ++ start.above) {index : Nat} {subtree : Tree}
    (held : (index, subtree) :: inner <:+ front) :
    (⟨index, subtree, inner ++ start.above⟩ : Node) ∈ start.descendants ∧
      Holds ⟨index, subtree, inner ++ start.above⟩ node := by
  let holder : Node := ⟨index, subtree, inner ++ start.above⟩
  have whole : (holder.index, holder.tree) :: holder.above <:+ node.above := by
    rw [above]
    exact suffix_append_self_iff.mpr held
  refine ⟨?_, (Tree.holds_iff (Tree.mem_nodes_of_mem_descendants member inside)).mpr
    whole⟩
  rcases holder_of_mem_ofTree start.tree inside whole with ⟨found, _⟩ | outside
  · exact found
  · have length := outside.length_le
    simp only [holder, length_cons, length_append] at length
    omega

end Node

/-- The kinds of nodes that tell whether what is below them is part of a rule body. -/
def NodeKind.marksBody : NodeKind → Bool
  | .block | .elementOptions | .options | .namedAction => true
  | _ => false

/-- Whether the nearest node above a node that tells about bodies, up to a start, is there
and is a block. -/
def Node.InBody (start node : Node) : Prop :=
  ∃ block ∈ start.descendants, block.Holds node ∧ block.kind = .block ∧
    ∀ other ∈ start.descendants, other.Holds node → other.kind.marksBody = true →
    other = block ∨ other.Holds block

namespace Walk

variable {tree : Tree} {walk : Walk} {start node : Node} {base front : List (Nat × Tree)}
  {event : Event} {inBody : Bool} {category : Category}

theorem bodyBelow_eq (inBody : Bool) (kind : NodeKind) :
    Node.bodyBelow inBody kind =
      if kind.marksBody then decide (kind = .block) else inBody := by
  cases kind <;> rfl

/-- The flag of a walk tells about the nearest node that sets it. -/
theorem inBodyOf_iff : inBodyOf front = true ↔
    ∃ nearer index block further, front = nearer ++ (index, block) :: further ∧
      block.kind = .block ∧
      ∀ pair ∈ nearer, pair.2.kind.marksBody = false := by
  induction front with
  | nil => simp [inBodyOf]
  | cons pair rest induction =>
    obtain ⟨index, tree⟩ := pair
    rw [inBodyOf, bodyBelow_eq]
    cases marks : tree.kind.marksBody with
    | true =>
      rw [if_pos rfl, decide_eq_true_iff]
      constructor
      · exact fun isBlock => ⟨[], index, tree, rest, rfl, isBlock, by simp⟩
      · rintro ⟨nearer, _, block, further, equal, isBlock, unmarked⟩
        cases nearer with
        | nil =>
          cases equal
          exact isBlock
        | cons first nearer =>
          cases equal
          have first := unmarked _ (.head _)
          rw [marks] at first
          cases first
    | false =>
      rw [if_neg (by simp), induction]
      constructor
      · rintro ⟨nearer, number, block, further, rfl, isBlock, unmarked⟩
        exact ⟨(index, tree) :: nearer, number, block, further, rfl, isBlock,
          forall_mem_cons.mpr ⟨marks, unmarked⟩⟩
      · rintro ⟨nearer, number, block, further, equal, isBlock, unmarked⟩
        cases nearer with
        | nil =>
          cases equal
          rw [isBlock] at marks
          cases marks
        | cons first nearer =>
          cases equal
          exact ⟨nearer, number, block, further, rfl, isBlock,
            (forall_mem_cons.mp unmarked).2⟩

theorem inBodyOf_iff_inBody (member : start ∈ tree.nodes)
    (inside : node ∈ start.descendants) (above : node.above = front ++ start.above) :
    inBodyOf front = true ↔ start.InBody node := by
  rw [inBodyOf_iff]
  constructor
  · rintro ⟨nearer, index, block, further, rfl, isBlock, unmarked⟩
    have blockHeld : (index, block) :: further <:+ nearer ++ (index, block) :: further :=
      suffix_append nearer _
    obtain ⟨found, holds⟩ := Node.holds_of_inner member inside above blockHeld
    refine ⟨_, found, holds, isBlock, fun other otherInside otherHolds marks => ?_⟩
    obtain ⟨inner, otherAbove, held⟩ := Node.exists_inner otherInside above otherHolds
    obtain ⟨otherIndex, otherTree, _⟩ := other
    cases otherAbove
    rcases suffix_or_suffix_of_suffix held blockHeld with outer | nearerHeld
    · rcases suffix_cons_iff.mp outer with equal | outer
      · cases equal
        exact Or.inl rfl
      · have blockMember := Tree.mem_nodes_of_mem_descendants member found
        refine Or.inr ((Tree.holds_iff blockMember).mpr ?_)
        exact suffix_append_self_iff.mpr outer
    · rcases suffix_cons_iff.mp nearerHeld with equal | ⟨between, equal⟩
      · cases equal
        exact Or.inl rfl
      -- A node between the block and the node does not mark bodies.
      · obtain ⟨nearest, whole⟩ := held
        rw [← equal, ← cons_append, ← append_assoc] at whole
        have marked :=
          unmarked (otherIndex, otherTree) (by simp [← append_cancel_right whole])
        cases marks.symm.trans marked
  · rintro ⟨block, found, holds, isBlock, nearest⟩
    obtain ⟨inner, blockAbove, nearer, rfl⟩ := Node.exists_inner found above holds
    refine ⟨nearer, block.index, block.tree, inner, rfl, isBlock, fun pair isNearer => ?_⟩
    by_contra notUnmarked
    obtain ⟨before, between, rfl⟩ := append_of_mem isNearer
    obtain ⟨index, marker⟩ := pair
    have marks : marker.kind.marksBody = true := by simpa using notUnmarked
    have held : (index, marker) :: (between ++ (block.index, block.tree) :: inner) <:+
        before ++ (index, marker) :: between ++ (block.index, block.tree) :: inner := by
      rw [append_assoc, cons_append]
      exact suffix_append before _
    obtain ⟨markerInside, markerHolds⟩ := Node.holds_of_inner member inside above held
    have length : block.above.length = inner.length + start.above.length := by
      rw [blockAbove, length_append]
    rcases nearest _ markerInside markerHolds marks with same | outer
    · rw [← same] at length
      simp only [length_append, length_cons] at length
      omega
    · have shorter := outer.suffix.length_le
      simp only [length_append, length_cons] at shorter
      omega

/-! ## Reports -/

/-- Whether a node between the start and another node was reported and has what is below
it left out. -/
theorem reachesFrom_iff : walk.reachesFrom base front = true ↔
    ∀ index subtree inner, (index, subtree) :: inner <:+ front →
      (walk.reportFrom? base ⟨index, subtree, inner ++ base⟩).isSome = true →
        walk.skips ⟨index, subtree, inner ++ base⟩ = false := by
  induction front with
  | nil => simp [reachesFrom]
  | cons pair rest induction =>
    obtain ⟨index, subtree⟩ := pair
    have reported (reached : walk.reachesFrom base rest = true) :
        walk.reportFrom? base ⟨index, subtree, rest ++ base⟩ =
          walk.event? (inBodyOf rest) ⟨index, subtree, rest ++ base⟩ := by
      have above : Node.above ⟨index, subtree, rest ++ base⟩ = rest ++ base := rfl
      rw [reportFrom?_eq above, if_pos reached]
    rw [reachesFrom, Bool.and_eq_true, Bool.not_eq_true', stopsBelow]
    constructor
    · rintro ⟨reached, passes⟩ otherIndex other inner held called
      rcases suffix_cons_iff.mp held with equal | further
      · cases equal
        rw [reported reached] at called
        rwa [called, Bool.true_and] at passes
      · exact induction.mp reached otherIndex other inner further called
    · intro each
      have reached := induction.mpr fun otherIndex other inner held =>
        each otherIndex other inner (held.trans (suffix_cons ..))
      refine ⟨reached, ?_⟩
      have here := each index subtree rest suffix_rfl
      rw [reported reached] at here
      cases called :
        (walk.event? (inBodyOf rest) ⟨index, subtree, rest ++ base⟩).isSome with
      | false => rfl
      | true => exact here called

theorem node_of_reportFrom? (reported : walk.reportFrom? base node = some event) :
    event.node = node := by
  rw [reportFrom?] at reported
  split at reported
  · exact node_of_event? reported
  · cases reported

theorem mem_events_iff : event ∈ walk.events start ↔
    event.node ∈ start.descendants ∧ walk.reportFrom? start.above event.node =
      some event := by
  rw [events_eq_filterMap, mem_filterMap]
  constructor
  · rintro ⟨node, inside, reported⟩
    rw [node_of_reportFrom? reported]
    exact ⟨inside, reported⟩
  · rintro ⟨inside, reported⟩
    exact ⟨event.node, inside, reported⟩

theorem event?_eq_some_iff : walk.event? inBody event.node = some event ↔
      event.node.category? inBody = some event.category ∧
      walk.reports event.category = true := by
  obtain ⟨category, node⟩ := event
  rw [event?]
  cases node.category? inBody with
  | none => simp
  | some found =>
    by_cases installed : walk.reports found = true
    · simp only [installed, if_true, Option.some.injEq, Event.mk.injEq, and_true]
      constructor
      · rintro rfl
        exact ⟨rfl, installed⟩
      · exact fun same => same.1
    · simp only [installed, Bool.false_eq_true, if_false, reduceCtorEq, Option.some.injEq,
        false_iff, not_and]
      rintro rfl
      exact installed

/-- The categories that a node has in a walk from a start. -/
inductive Fits (start node : Node) : Category → Prop
  | lexerRule {name : Node} (isRule : node.kind = .rule)
      (first : node.firstChild? = some name)
      (isToken : name.kind = .tokenRef) : Fits start node .lexerRule
  | parserRule (isRule : node.kind = .rule)
      (noToken : ∀ name, node.firstChild? = some name → name.kind ≠ .tokenRef) :
      Fits start node .parserRule
  | element (inBody : start.InBody node) (isElement : node.kind.isElement = true) :
      Fits start node .element
  | subrule {parent : Node} (inBody : start.InBody node) (isBlock : node.kind = .block)
      (isParent : node.parent? = some parent)
      (stands : parent.kind ∈ [.alternative, .assign, .plusAssign]) :
        Fits start node .element

theorem isLexerRule_iff (isRule : node.kind = .rule) : node.tree.isLexerRule = true ↔
    ∃ name, node.firstChild? = some name ∧ name.kind = .tokenRef := by
  rw [Tree.isLexerRule, show node.tree.kind = .rule from isRule, Node.firstChild?_eq]
  cases node.tree.firstChild? with
  | none => simp
  | some first => simp [Node.kind]

theorem isSubrule_iff : node.isSubrule = true ↔ node.kind = .block ∧
    ∃ parent, node.parent? = some parent ∧
    parent.kind ∈ [.alternative, .assign, .plusAssign] := by
  rw [Node.isSubrule, Bool.and_eq_true, decide_eq_true_iff, Option.any_eq_true]
  simp [or_assoc]

theorem Fits.category?_eq (fits : Fits start node category)
    (flag : start.InBody node → inBody = true) :
    node.category? inBody = some category := by
  rw [Node.category?]
  cases fits with
  | lexerRule isRule first isToken =>
    rw [if_pos isRule, if_pos ((isLexerRule_iff isRule).mpr ⟨_, first, isToken⟩)]
  | parserRule isRule noToken =>
    have notLexer : ¬node.tree.isLexerRule = true := by
      rw [isLexerRule_iff isRule]
      exact fun ⟨name, first, isToken⟩ => noToken name first isToken
    rw [if_pos isRule, if_neg notLexer]
  | element isInside isElement =>
    have notRule : node.kind ≠ .rule := by
      intro isRule
      rw [isRule] at isElement
      cases isElement
    rw [if_neg notRule, if_pos (by simp [flag isInside, isElement])]
  | subrule isInside isBlock isParent stands =>
    have isSubrule := isSubrule_iff.mpr ⟨isBlock, _, isParent, stands⟩
    rw [if_neg (by simp [isBlock]), if_pos (by simp [flag isInside, isSubrule])]

theorem fits_of_category? (found : node.category? inBody = some category)
    (flag : inBody = true → start.InBody node) : Fits start node category := by
  rw [Node.category?] at found
  split at found
  · next isRule =>
    split at found
    · next isLexer =>
      cases found
      obtain ⟨name, first, isToken⟩ := (isLexerRule_iff isRule).mp isLexer
      exact .lexerRule isRule first isToken
    · next notLexer =>
      cases found
      refine .parserRule isRule fun name first isToken => notLexer ?_
      exact (isLexerRule_iff isRule).mpr ⟨name, first, isToken⟩
  · split at found
    · next isElement =>
      cases found
      rw [Bool.and_eq_true, Bool.or_eq_true] at isElement
      obtain ⟨inBody, isSubrule | isElement⟩ := isElement
      · obtain ⟨isBlock, parent, isParent, stands⟩ := isSubrule_iff.mp isSubrule
        exact .subrule (flag inBody) isBlock isParent stands
      · exact .element (flag inBody) isElement
    · cases found

/-- Whether a walk from a start reports a node: it reports the category, and none of the
reported nodes above has what is below it left out. -/
structure Calls (walk : Walk) (start node : Node) (category : Category) : Prop where
  fits : Fits start node category
  installed : walk.reports category = true
  reached : ∀ event ∈ walk.events start, event.node.Holds node →
      walk.skips event.node = false

theorem reachesFrom_iff_events (member : start ∈ tree.nodes)
    (inside : node ∈ start.descendants) (above : node.above = front ++ start.above) :
    walk.reachesFrom start.above front = true ↔
      ∀ event ∈ walk.events start, event.node.Holds node →
      walk.skips event.node = false := by
  rw [reachesFrom_iff]
  constructor
  · intro each event isEvent holds
    obtain ⟨eventInside, reported⟩ := mem_events_iff.mp isEvent
    obtain ⟨inner, eventAbove, held⟩ := Node.exists_inner eventInside above holds
    have same : event.node = ⟨event.node.index, event.node.tree,
        inner ++ start.above⟩ := by
      rw [← eventAbove]
    rw [same] at reported ⊢
    exact each _ _ _ held (by rw [reported]; rfl)
  · intro each index subtree inner held called
    obtain ⟨found, holds⟩ := Node.holds_of_inner member inside above held
    obtain ⟨event, reported⟩ := Option.isSome_iff_exists.mp called
    have same := node_of_reportFrom? reported
    rw [← same] at found holds reported ⊢
    exact each event (mem_events_iff.mpr ⟨found, reported⟩) holds

theorem mem_events_iff_calls (member : start ∈ tree.nodes) :
    event ∈ walk.events start ↔ event.node ∈ start.descendants ∧
    walk.Calls start event.node event.category := by
  rw [mem_events_iff]
  refine and_congr_right fun inside => ?_
  obtain ⟨front, above⟩ := Node.exists_front inside
  have flag := inBodyOf_iff_inBody member inside above
  rw [reportFrom?_eq above, Option.ite_none_right_eq_some, event?_eq_some_iff,
    reachesFrom_iff_events member inside above]
  constructor
  · exact fun ⟨reached, found, installed⟩ =>
      ⟨fits_of_category? found flag.mp, installed, reached⟩
  · exact fun ⟨fits, installed, reached⟩ =>
      ⟨reached, fits.category?_eq flag.mpr, installed⟩

/-- A walk reports a node exactly if it is below the start, has a category that the
walk reports, and lies below no reported node that has what is below it left out. The
reports are in pre-order, each node once, and pre-order is the order in which a stack
gives the nodes. -/
theorem events_select_descendants {tree : Tree} {start : Node}
    (member : start ∈ tree.nodes) (walk : Walk) :
    start.descendants = Node.unstacked [start] ∧
      start.descendants.Pairwise (·.index < ·.index) ∧
      ((walk.events start).map (·.node)).Sublist start.descendants ∧
      ∀ event, event ∈ walk.events start ↔
        event.node ∈ start.descendants ∧ walk.Calls start event.node event.category := by
  refine ⟨?_, Node.pairwise_index_ofTree start.tree _ _, ?_, fun event =>
    mem_events_iff_calls member⟩
  · rw [Node.unstacked_eq, flatMap_singleton]
  · have same (node : Node) : (walk.reportFrom? start.above node).map (·.node) =
        Option.guard (fun node => (walk.reportFrom? start.above node).isSome) node := by
      cases reported : walk.reportFrom? start.above node with
      | none => simp [Option.guard, reported]
      | some event => simp [Option.guard, reported, node_of_reportFrom? reported]
    rw [events_eq_filterMap, map_filterMap, funext same, filterMap_eq_filter]
    exact filter_sublist

/-- A grammar with options, a subrule that may be missing, and options of an element. -/
def optionalSubrule : Tree :=
  (Grammar.ofSource
    "grammar T; r options \x7b k = 'v'; \x7d : (a)? b <x=Y> (C) ; D : E ;").tree

/-- A walk that leaves out what may be missing. -/
def required : Walk := ⟨fun _ => true, fun node => node.kind = .optional⟩

theorem events_select_descendants_optional :
    optionalSubrule.root ∈ optionalSubrule.nodes ∧
      (required.events optionalSubrule.root).map
          (fun event => (event.category, event.node.text)) =
        [(.parserRule, "RULE"), (.element, "?"), (.element, "b"), (.element, "BLOCK"),
          (.element, "C"), (.lexerRule, "RULE"), (.element, "E")] ∧
      ∀ event, event ∈ required.events optionalSubrule.root ↔
        event.node ∈ optionalSubrule.root.descendants ∧
          required.Calls optionalSubrule.root event.node event.category := by
  have member : optionalSubrule.root ∈ optionalSubrule.nodes := Node.ofTree_self_mem ..
  exact ⟨member, by decide +kernel, (events_select_descendants member required).2.2.2⟩

end Walk

end GrammarInspector
