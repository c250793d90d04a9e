import Mathlib.Logic.Relation
import GrammarInspector.Proofs.Grammar.Modes

/-! # Where rules are looked for

Behind the sections of a grammar a reader looks for one rule after the other. Each time it
goes on behind the rule that it found, behind the tokens that it left out because a rule
failed, or behind a `mode` line. So the places at which it looks follow each other, and
each token is met from one place at most. The rules of a grammar are those that were found
at such places.
-/

namespace GrammarInspector

open List

namespace NodeKind

theorem rules_or_mode_of_pattern {kind : NodeKind} {parts : List Part}
    (pattern : parts ∈ kind.patterns) {part : Part} (isPart : part ∈ parts)
    (ofKind : .rule ∈ part.kinds) : kind = .rules ∨ kind = .mode := by
  revert part parts
  cases kind <;> decide

theorem grammar_of_pattern {kind child : NodeKind} {parts : List Part}
    (pattern : parts ∈ kind.patterns) {part : Part} (isPart : part ∈ parts)
    (ofKind : child ∈ part.kinds) (holdsRules : child = .rules ∨ child = .mode) :
    kind = .grammar := by
  revert part parts
  rcases holdsRules with rfl | rfl <;> cases kind <;> decide

end NodeKind

namespace Reading

variable {harvest : Harvest} {found : Tree × List SyntaxFault} {tree : Tree}

/-! ## Places -/

/-- The tokens behind a `mode` line. A faulty one ends with the next semicolon. -/
def behindModeLine (tokens : List Token) : List Token :=
  match modeLine tokens with
  | .done _ rest => rest
  | .failed _ rest => skipPast (.punctuation .semicolon) rest

/-- Where a reader goes on that looks for a rule in front of some tokens. -/
def next? (tokens : List Token) : Option (List Token) :=
  match ruleStep tokens with
  | some (_, rest) => some rest
  | none => if tokens.isEmpty then none else some (behindModeLine tokens)

/-- The tokens behind the sections of a grammar. -/
def behindSections (tokens : List Token) : List Token :=
  (collect prequelStep (behindHeader (header tokens).2).2).2

/-- Whether a reader of some tokens looks for a rule in front of `here`. -/
def Visits (tokens here : List Token) : Prop :=
  Relation.ReflTransGen (fun before after => next? before = some after)
    (behindSections tokens) here

/-- Whether a reader of some tokens tries to read a rule in front of `here`. -/
structure Tries (tokens here : List Token) : Prop where
  visits : Visits tokens here
  begins : ∃ token rest, here = token :: rest ∧ token.kind ≠ .keyword .mode ∧
      Parse.startsRule token.kind = true

/-- Whether a rule was found by a reader of some tokens. -/
def Finds (tokens : List Token) (rule : Tree) : Prop :=
  ∃ here faults rest, Tries tokens here ∧ Parse.rule here = .done (rule, faults) rest

variable {tokens here other rest : List Token}

theorem next?_of_ruleStep (applies : ruleStep here = some (harvest, rest)) :
    next? here = some rest := by
  rw [next?, applies]

theorem Tries.ruleStep_of_done (tries : Tries tokens here)
    (done : Parse.rule here = .done found rest) :
    ruleStep here = some (⟨[found.1], found.2⟩, rest) := by
  obtain ⟨token, behind, rfl, notMode, starts⟩ := tries.begins
  exact RuleStep.applies (.found starts done) notMode

theorem Tries.next?_of_done (tries : Tries tokens here)
    (done : Parse.rule here = .done found rest) : next? here = some rest :=
  next?_of_ruleStep (tries.ruleStep_of_done done)

theorem Tries.next?_of_failed {expected : Expected} (tries : Tries tokens here)
    (failed : Parse.rule here = .failed expected rest) :
    next? here = some (skipPast (.punctuation .semicolon) rest) := by
  obtain ⟨token, behind, rfl, notMode, starts⟩ := tries.begins
  exact next?_of_ruleStep (RuleStep.applies (.failed starts failed) notMode)

theorem behindModeLine_suffix (tokens : List Token) :
    behindModeLine tokens <:+ tokens := by
  unfold behindModeLine
  split
  · next outcome =>
    obtain ⟨taken, equal, _⟩ := ensures_modeLine.done outcome
    exact ⟨taken, equal.symm⟩
  · next outcome => exact (skipPast_suffix _ _).trans (ensures_modeLine.failed outcome)

theorem next?_suffix (next : next? here = some rest) : rest <:+ here := by
  unfold next? at next
  split at next
  · next applies =>
    cases next
    obtain ⟨taken, equal, _⟩ := ruleStep_spec applies
    exact ⟨taken, equal.symm⟩
  · split at next
    · cases next
    · cases next
      exact behindModeLine_suffix here

theorem suffix_of_reflTransGen
    (leads : Relation.ReflTransGen (fun before after => next? before = some after)
      here other) :
    other <:+ here := by
  induction leads with
  | refl => exact suffix_rfl
  | tail _ next induction => exact (next?_suffix next).trans induction

theorem behindSections_suffix (tokens : List Token) :
    behindSections tokens <:+ tokens := by
  obtain ⟨line, lineEqual, _⟩ := header_spec tokens
  obtain ⟨sections, sectionsEqual, _⟩ := prequels_spec (behindHeader (header tokens).2).2
  refine ⟨line ++ sections, ?_⟩
  rw [append_assoc, behindSections, ← sectionsEqual, ← lineEqual]

theorem Visits.suffix (visits : Visits tokens here) : here <:+ tokens :=
  (suffix_of_reflTransGen visits).trans (behindSections_suffix tokens)

/-- Of two places one is the other, or it lies behind where the reader goes on
from the other. -/
theorem Visits.eq_or_suffix (visits : Visits tokens here)
    (visitsOther : Visits tokens other) (next : next? here = some rest)
    {behindOther : List Token} (nextOther : next? other = some behindOther) :
    here = other ∨ other <:+ rest ∨ here <:+ behindOther := by
  have unique : Relator.RightUnique fun before after => next? before = some after :=
    fun _ _ _ first second => Option.some.inj (first.symm.trans second)
  have behind {first second after : List Token}
      (leads : Relation.ReflTransGen (fun before after => next? before = some after)
        first second)
      (goesOn : next? first = some after) : first = second ∨ second <:+ after := by
    refine leads.cases_head.imp_right fun ⟨middle, step, further⟩ => ?_
    cases goesOn.symm.trans step
    exact suffix_of_reflTransGen further
  rcases Relation.ReflTransGen.total_of_right_unique unique visits visitsOther with
    leads | leads
  · exact (behind leads next).imp_right Or.inl
  · exact (behind leads nextOther).imp Eq.symm Or.inr

/-! ## Rules that were found -/

theorem visits_rules (visits : Visits tokens here) :
    (∀ tree ∈ (rules here).1.trees, Finds tokens tree) ∧
    Visits tokens (rules here).2 := by
  have kept : ∀ here harvest rest, Visits tokens here →
      ruleStep here = some (harvest, rest) →
      (∀ tree ∈ harvest.trees, Finds tokens tree) ∧ Visits tokens rest := by
    intro here harvest rest visits applies
    refine ⟨?_, visits.tail (next?_of_ruleStep applies)⟩
    obtain ⟨token, behind, rfl, notMode, ends⟩ := exists_ruleStep applies
    cases ends with
    | found starts outcome =>
      have tries : Tries tokens (token :: behind) :=
        ⟨visits, token, behind, rfl, notMode, starts⟩
      exact forall_mem_singleton.mpr ⟨_, _, _, tries, outcome⟩
    | failed => exact forall_mem_nil _
    | unstarted => exact forall_mem_nil _
  obtain ⟨found, reached⟩ := repeated_keeps kept visits
  refine ⟨fun tree member => ?_, reached⟩
  obtain ⟨harvest, harvested, inside⟩ := mem_flatMap.mp member
  exact found harvest harvested tree inside

/-- Whether the rules in a section of a mode were found. -/
structure ModeSection.IsFound (tokens : List Token) (found : ModeSection) : Prop where
  mode : ∀ tree ∈ found.mode, ∀ rule ∈ tree.children, rule.kind = .rule →
      Finds tokens rule
  strays : ∀ rule ∈ found.strays, Finds tokens rule

theorem next?_of_mode (atMode : AtMode here) (nonempty : here.isEmpty = false) :
    next? here = some (behindModeLine here) := by
  have stops : ruleStep here = none := by
    rcases atMode with rfl | isMode
    · cases nonempty
    · cases here with
      | nil => cases nonempty
      | cons token behind => rw [ruleStep, if_pos (Option.some.inj isMode)]
  rw [next?, stops, nonempty]
  rfl

theorem visits_modeStep {found : ModeSection} (visits : Visits tokens here ∧ AtMode here)
    (applies : modeStep here = some (found, rest)) :
    found.IsFound tokens ∧ Visits tokens rest ∧ AtMode rest := by
  obtain ⟨visits, atMode⟩ := visits
  obtain ⟨_, _, _, restAtMode⟩ := modeStep_spec atMode applies
  obtain ⟨nonempty, ends⟩ := ModeStep.of_applies applies
  have next := next?_of_mode atMode (isEmpty_eq_false_iff.mpr nonempty)
  rw [behindModeLine] at next
  cases ends with
  | mode outcome =>
    rw [outcome] at next
    obtain ⟨finds, reached⟩ := visits_rules (visits.tail next)
    obtain ⟨_, _, keyword, name, _, _, rfl, _⟩ := ensures_modeLine.done outcome
    refine ⟨⟨?_, by simp⟩, reached, restAtMode⟩
    rintro _ ⟨⟩ rule member isRule
    rcases mem_append.mp member with isName | found
    · cases mem_singleton.mp isName
      cases isRule
    · exact finds rule found
  | strays outcome =>
    rw [outcome] at next
    obtain ⟨finds, reached⟩ := visits_rules (visits.tail next)
    exact ⟨⟨by simp, finds⟩, reached, restAtMode⟩

/-- Rules stand in the part for rules or in modes, and these stand directly in
the grammar. -/
theorem exists_holder_of_rule {rule : Node}
    (member : rule ∈ (ofTokens tokens).tree.rules) :
    ∃ holder ∈ (ofTokens tokens).tree.root.children, rule ∈ holder.children ∧
      (holder.kind = .rules ∨ holder.kind = .mode) := by
  obtain ⟨isNode, ofKind⟩ := mem_filter.mp member
  have isRule : rule.kind = .rule := of_decide_eq_true ofKind
  have held {node : Node} (isNode : node ∈ (ofTokens tokens).tree.nodes)
      (inner : node.kind ≠ .grammar) :
      ∃ holder ∈ (ofTokens tokens).tree.nodes, node ∈ holder.children ∧
        ∃ parts ∈ holder.kind.patterns, ∃ part ∈ parts, node.kind ∈ part.kinds := by
    rcases Node.eq_or_child_of_mem_ofTree _ isNode with rfl | ⟨holder, isChild⟩
    · exact absurd rfl inner
    · have holderNode :=
        Tree.parent_mem_nodes isNode (Node.parent?_of_mem_children isChild)
      exact ⟨holder, holderNode, isChild, exists_part_of_child holderNode isChild⟩
  obtain ⟨holder, holderNode, isChild, parts, pattern, part, isPart, ofPart⟩ :=
    held isNode (by simp [isRule])
  have holderKind := NodeKind.rules_or_mode_of_pattern pattern isPart (isRule ▸ ofPart)
  have inner : holder.kind ≠ .grammar := by
    rcases holderKind with isGroup | isMode
    · simp [isGroup]
    · simp [isMode]
  obtain ⟨root, rootNode, inRoot, parts, pattern, part, isPart, ofPart⟩ :=
    held holderNode inner
  have rootKind := NodeKind.grammar_of_pattern pattern isPart ofPart holderKind
  rcases Node.eq_or_child_of_mem_ofTree _ rootNode with rfl | ⟨further, inFurther⟩
  · exact ⟨holder, inRoot, isChild, holderKind⟩
  · have furtherNode :=
      Tree.parent_mem_nodes rootNode (Node.parent?_of_mem_children inFurther)
    obtain ⟨parts, pattern, part, isPart, ofPart⟩ :=
      exists_part_of_child furtherNode inFurther
    exact absurd rootKind (NodeKind.ne_grammar_of_pattern pattern isPart ofPart)

theorem kind_mem_fronts
    (member : tree ∈ (header tokens).1.name.toList ++
      (collect prequelStep (behindHeader (header tokens).2).2).1.trees) :
    tree.kind ∈ NodeKind.fronts := by
  rcases mem_append.mp member with isName | isSection
  · obtain ⟨part, isPart, ofPart⟩ :=
      (shapes_headerName fun _ member => member).follows.exists_part
      (mem_map_of_mem isName)
    cases mem_singleton.mp isPart
    exact mem_cons.mpr (Or.inl (mem_singleton.mp ofPart))
  · have anyToken : ∀ token ∈ (behindHeader (header tokens).2).2, True :=
      fun _ _ => trivial
    exact mem_cons_of_mem _ ((shapes_sections anyToken).1 tree isSection).ofKinds

theorem finds_of_rule {rule : Node} (member : rule ∈ (ofTokens tokens).tree.rules) :
    Finds tokens rule.tree := by
  have visits : Visits tokens (behindSections tokens) := .refl
  obtain ⟨finds, reached⟩ := visits_rules visits
  obtain ⟨_, _, _, stops⟩ := rules_spec (behindSections tokens)
  have atMode : AtMode (rules (behindSections tokens)).2 := head_of_ruleStep stops
  have modes := (repeated_keeps (fun _ _ _ => visits_modeStep) ⟨reached, atMode⟩).1
  obtain ⟨holder, inRoot, isChild, ofKind⟩ := exists_holder_of_rule member
  have isRule : rule.tree.kind = .rule := of_decide_eq_true (mem_filter.mp member).2
  have inHolder := Node.tree_mem_children isChild
  have inTree : holder.tree ∈ (ofTokens tokens).tree.children :=
    Node.tree_mem_children inRoot
  simp only [ofTokens, Tree.children_node, mem_append, mem_singleton] at inTree
  rcases inTree with (inFront | isGroup) | isMode
  · have isFront : holder.kind ∈ NodeKind.fronts :=
      kind_mem_fronts (mem_append.mpr inFront)
    rcases ofKind with isGroup | isMode
    · exact absurd (isGroup ▸ isFront) (by decide)
    · exact absurd (isMode ▸ isFront) (by decide)
  · rw [isGroup] at inHolder
    rcases mem_append.mp inHolder with declared | isStray
    · exact finds _ declared
    · obtain ⟨found, isFound, inside⟩ := mem_flatMap.mp isStray
      exact (modes found isFound).strays _ inside
  · obtain ⟨found, isFound, isMode⟩ := mem_filterMap.mp isMode
    exact (modes found isFound).mode _ isMode _ inHolder isRule

/-! ## Rules that are kept -/

/-- Whether a tree is that of a rule. -/
def Keeps (tokens : List Token) (tree : Tree) : Prop :=
  ∃ rule ∈ (ofTokens tokens).tree.rules, rule.tree = tree

/-- The trees that a section of a mode can have for rules. -/
def ModeSection.trees (found : ModeSection) : List Tree :=
  found.strays ++ (found.mode.map (·.children)).getD []

/-- Whether all rules that are read from some place on are kept. -/
structure Awaits (tokens here : List Token) : Prop where
  declared : ∀ tree ∈ (rules here).1.trees, tree.kind = .rule → Keeps tokens tree
  modes : ∀ found ∈ (repeated modeStep (rules here).2).1, ∀ tree ∈ found.trees,
      tree.kind = .rule → Keeps tokens tree

theorem keeps_of_child {holder : Node} (member : holder ∈ (ofTokens tokens).tree.nodes)
    (isChild : tree ∈ holder.tree.children) (isRule : tree.kind = .rule) :
    Keeps tokens tree := by
  rw [← Node.map_tree_children, mem_map] at isChild
  obtain ⟨rule, inHolder, rfl⟩ := isChild
  exact ⟨rule, mem_filter.mpr ⟨Tree.child_mem_nodes member inHolder,
    decide_eq_true isRule⟩, rfl⟩

theorem exists_node_of_child (isChild : tree ∈ (ofTokens tokens).tree.children) :
    ∃ node ∈ (ofTokens tokens).tree.nodes, node.tree = tree := by
  have inRoot : tree ∈ (ofTokens tokens).tree.root.children.map (·.tree) := by
    rw [Node.map_tree_children]
    exact isChild
  obtain ⟨node, member, equal⟩ := mem_map.mp inRoot
  have isRoot : (ofTokens tokens).tree.root ∈ (ofTokens tokens).tree.nodes := by
    rw [Tree.nodes_eq_cons]
    exact mem_cons_self
  exact ⟨node, Tree.child_mem_nodes isRoot member, equal⟩

theorem awaits_behindSections (tokens : List Token) :
    Awaits tokens (behindSections tokens) := by
  let declared := (rules (behindSections tokens)).1.trees
  let modes := (repeated modeStep (rules (behindSections tokens)).2).1
  have inGroup {tree : Tree} (member : tree ∈ declared ++ modes.flatMap (·.strays))
      (isRule : tree.kind = .rule) : Keeps tokens tree := by
    obtain ⟨group, isNode, equal⟩ : ∃ node ∈ (ofTokens tokens).tree.nodes,
        node.tree = .group .rules (declared ++ modes.flatMap (·.strays)) :=
      exists_node_of_child (mem_append_left _ (mem_append_right _ (mem_singleton_self _)))
    exact keeps_of_child isNode (equal ▸ member) isRule
  refine ⟨fun tree member => inGroup (mem_append_left _ member),
    fun found isFound tree member isRule => ?_⟩
  rcases mem_append.mp member with isStray | inMode
  · exact inGroup (mem_append_right _ (mem_flatMap.mpr ⟨found, isFound, isStray⟩)) isRule
  · cases isMode : found.mode with
    | none => simp [isMode] at inMode
    | some mode =>
      rw [isMode] at inMode
      have member : mode ∈ modes.filterMap (·.mode) :=
        mem_filterMap.mpr ⟨found, isFound, isMode⟩
      obtain ⟨node, isNode, rfl⟩ := exists_node_of_child (mem_append_right _ member)
      exact keeps_of_child isNode inMode isRule

theorem repeated_of_step {α : Type} {step : List Token → Option (α × List Token)}
    {value : α} (applies : step here = some (value, rest))
    (shorter : rest.length < here.length) :
    repeated step here = (value :: (repeated step rest).1, (repeated step rest).2) := by
  rw [repeated, applies]
  exact if_pos shorter

theorem length_lt_of_ruleStep (applies : ruleStep here = some (harvest, rest)) :
    rest.length < here.length := by
  obtain ⟨taken, rfl, nonempty, _⟩ := ruleStep_spec applies
  have positive := length_pos_iff.mpr nonempty
  rw [length_append]
  omega

theorem trees_of_ruleStep (applies : ruleStep here = some (harvest, rest)) :
    (rules here).1.trees = harvest.trees ++ (rules rest).1.trees ∧
    (rules here).2 = (rules rest).2 := by
  rw [rules, collect, repeated_of_step applies (length_lt_of_ruleStep applies)]
  exact ⟨flatMap_cons, rfl⟩

theorem length_behindModeLine_lt (nonempty : here ≠ []) :
    (behindModeLine here).length < here.length := by
  have positive := length_pos_iff.mpr nonempty
  unfold behindModeLine
  split
  · next outcome =>
    obtain ⟨_, rfl, _, _, _, rfl, _⟩ := ensures_modeLine.done outcome
    rw [length_append]
    exact Nat.lt_add_of_pos_left (Nat.succ_pos _)
  · next left outcome =>
    have fewer := (ensures_modeLine.failed outcome).length_le
    rcases eq_or_ne left [] with rfl | some
    · exact positive
    · have shorter : (skipPast (.punctuation .semicolon) left).length < left.length :=
        length_skipPast_lt some
      omega

/-- A section of a mode has the rules behind its `mode` line. -/
theorem exists_section_of_mode (nonempty : here ≠ []) :
    ∃ found, modeStep here = some (found, (rules (behindModeLine here)).2) ∧
      ∀ tree ∈ (rules (behindModeLine here)).1.trees, tree ∈ found.trees := by
  rw [behindModeLine]
  cases outcome : modeLine here with
  | done mode rest =>
    have applies := ModeStep.applies (.mode outcome) nonempty
    obtain ⟨_, _, _, _, _, _, rfl, _⟩ := ensures_modeLine.done outcome
    exact ⟨_, applies, fun tree member => mem_cons_of_mem _ member⟩
  | failed expected rest =>
    have applies := ModeStep.applies (.strays outcome) nonempty
    exact ⟨_, applies, fun tree member => mem_append_left _ member⟩

theorem Awaits.next (awaits : Awaits tokens here) (next : next? here = some rest) :
    Awaits tokens rest := by
  unfold next? at next
  split at next
  · next harvest left applies =>
    cases next
    obtain ⟨trees, left⟩ := trees_of_ruleStep applies
    refine ⟨fun tree member => awaits.declared tree ?_, left ▸ awaits.modes⟩
    rw [trees]
    exact mem_append_right _ member
  · next stops =>
    split at next
    · cases next
    · next nonempty =>
      cases next
      have some : here ≠ [] := by simpa using nonempty
      obtain ⟨found, applies, included⟩ := exists_section_of_mode some
      have shorter :=
        Nat.lt_of_le_of_lt (length_rules_le _) (length_behindModeLine_lt some)
      -- No rule is left here, so the first section of a mode begins.
      have modes := awaits.modes
      have noRules : (rules here).2 = here := by rw [rules, collect, repeated, stops]
      rw [noRules, repeated_of_step applies shorter, forall_mem_cons] at modes
      exact ⟨fun tree member => modes.1 tree (included tree member), modes.2⟩

theorem Visits.awaits (visits : Visits tokens here) : Awaits tokens here := by
  induction visits with
  | refl => exact awaits_behindSections tokens
  | tail _ next awaits => exact awaits.next next

/-- Every rule that was found is kept. -/
theorem Finds.keeps (finds : Finds tokens tree) : Keeps tokens tree := by
  obtain ⟨here, faults, rest, tries, done⟩ := finds
  have anyToken : ∀ token ∈ here, True := fun _ _ => trivial
  have isRule := mem_singleton.mp (Parse.shapes_rule here _ rest anyToken done).1.ofKinds
  obtain ⟨trees, _⟩ := trees_of_ruleStep (tries.ruleStep_of_done done)
  refine tries.visits.awaits.declared tree ?_ isRule
  rw [trees]
  exact mem_append_left _ (mem_singleton_self tree)

end Reading

end GrammarInspector
