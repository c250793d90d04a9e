import GrammarInspector.Proofs.Arena.Labels
import GrammarInspector.Proofs.Check.Kinds

/-! # Labels and alternatives

Every label is listed with the alternative that it stands at, and with the rule of that
alternative. So the checks can compare the labels of a rule with its alternatives by
counting, and what they report is that some alternatives have a label and others do not.
-/

namespace GrammarInspector

open Grammar (labelledOf ofSource)

/-! ## Messages of one kind -/

/-- Checks that report one message or none. -/
theorem flatMap_eq_map_filter {α β : Type} {values : List α} {accepts : α → Bool}
    {make : α → β} {check : α → List β}
    (each : ∀ value ∈ values, check value = if accepts value then [make value] else []) :
    values.flatMap check = (values.filter accepts).map make := by
  induction values with
  | nil => rfl
  | cons value rest induction =>
    obtain ⟨head, tail⟩ := List.forall_mem_cons.mp each
    rw [List.flatMap_cons, head, induction tail, List.filter_cons]
    split <;> rfl

namespace GrammarFile

variable {file : GrammarFile}

/-- Messages about declarations and labels come from the checks of these. -/
theorem exists_scope (noErrors : file.grammar.errors = []) (files : Files)
    (library : Option String) :
    ∃ external, ∀ kind ∈ Check.declarationKinds ++ Check.labelKinds,
      (file.inspect files library).messages.filter (·.kind = kind) =
        (Check.declarations (file.scope external)).filter (·.kind = kind) ++
          (Check.labels (file.scope external)).filter (·.kind = kind) := by
  obtain ⟨external, messages⟩ := filter_inspect noErrors files library
  have kinds : ∀ kind ∈ Check.declarationKinds ++ Check.labelKinds,
      kind ∉ Check.elementKinds ∧
      kind ∈ Check.declarationKinds ++ Check.elementKinds ++ Check.labelKinds := by decide
  refine ⟨external, fun kind ofKind => ?_⟩
  obtain ⟨other, included⟩ := kinds kind ofKind
  rw [messages kind included, List.filter_append, List.filter_append,
    (Check.reports_references _).filter_eq_nil other, List.append_nil]

end GrammarFile

namespace Grammar

/-! ## Rules with some labels -/

/-- The name of a rule, which is its first child. -/
def nameOf (rule : Node) : Node := rule.firstChild?.getD rule

/-- The alternatives of a rule. -/
def alternativesOf (rule : Node) : List Node :=
  ((rule.childOfKind? .block).map (·.children)).getD []

/-- Whether an alternative is listed with a label. -/
def isLabelled (grammar : Grammar) (alternative : Node) : Bool :=
  grammar.labels.any (·.alternative.index = alternative.index)

/-- Whether a rule has both alternatives with a label and alternatives without. -/
def mixesLabels (grammar : Grammar) (rule : Node) : Bool :=
  (alternativesOf rule).any grammar.isLabelled &&
    (alternativesOf rule).any (!grammar.isLabelled ·)

variable {source : String} {rule alternative : Node}

theorem nameOf_spec (isRule : rule ∈ (ofSource source).tree.rules) :
    rule.firstChild? = some (nameOf rule) ∧ (nameOf rule).kind.isName = true ∧
      rule.tree.ruleName? = some (nameOf rule).text := by
  obtain ⟨member, ofKind⟩ := List.mem_filter.mp isRule
  obtain ⟨_, _, name, first, isName⟩ :=
    (Reading.sourced_of_mem member).declared (of_decide_eq_true ofKind)
  have equal : nameOf rule = name := by rw [nameOf, first]; rfl
  rw [equal]
  refine ⟨first, isName, ?_⟩
  rw [Node.firstChild?_eq] at first
  obtain ⟨child, isFirst, rfl⟩ := Option.map_eq_some_iff.mp first
  have isRuleTree : rule.tree.kind = .rule := of_decide_eq_true ofKind
  rw [Tree.ruleName?, if_pos isRuleTree, isFirst]
  rfl

theorem mem_nodes_of_alternative (isRule : rule ∈ (ofSource source).tree.rules)
    (isAlternative : alternative ∈ alternativesOf rule) :
    alternative ∈ (ofSource source).tree.nodes := by
  unfold alternativesOf at isAlternative
  cases hasBlock : rule.childOfKind? .block with
  | none => simp [hasBlock] at isAlternative
  | some block =>
    rw [hasBlock] at isAlternative
    have inRule := List.mem_of_find?_eq_some hasBlock
    exact Tree.child_mem_nodes (Tree.child_mem_nodes (List.mem_filter.mp isRule).1 inRule)
      isAlternative

theorem isLabelled_eq (member : alternative ∈ (ofSource source).tree.nodes) :
    (ofSource source).isLabelled alternative = alternative.tree.data.label.isSome := by
  rw [Bool.eq_iff_iff, isLabelled, List.any_eq_true]
  constructor
  · rintro ⟨entry, isEntry, sameIndex⟩
    obtain ⟨_, entryMember, _, _, hasLabel⟩ := exists_block_of_mem_labels isEntry
    rw [← Tree.eq_of_index_eq entryMember member (of_decide_eq_true sameIndex), hasLabel]
    rfl
  · intro isSome
    obtain ⟨label, hasLabel⟩ := Option.isSome_iff_exists.mp isSome
    obtain ⟨entry, isEntry, rfl, _⟩ :=
      exists_entry_of_label (Reading.stands_tree (significantTokens source))
        member hasLabel
    exact ⟨entry, isEntry, decide_eq_true rfl⟩

theorem labelledOf_eq (rule : Node) :
    labelledOf rule = (alternativesOf rule).filterMap fun alternative =>
    alternative.tree.data.label.map fun label => ⟨label, rule, alternative⟩ := by
  unfold labelledOf alternativesOf
  cases rule.childOfKind? .block <;> rfl

/-- Counting labels and alternatives tells whether a rule has both kinds of
alternatives. -/
theorem mixesLabels_iff (isRule : rule ∈ (ofSource source).tree.rules) :
    (ofSource source).mixesLabels rule = true ↔
      labelledOf rule ≠ [] ∧ (labelledOf rule).length < (alternativesOf rule).length := by
  have labelled : ∀ alternative ∈ alternativesOf rule,
      (ofSource source).isLabelled alternative = alternative.tree.data.label.isSome :=
    fun _ isAlternative => isLabelled_eq (mem_nodes_of_alternative isRule isAlternative)
  rw [mixesLabels, Bool.and_eq_true, List.any_eq_true, List.any_eq_true, labelledOf_eq,
    List.length_filterMap_lt_length_iff_exists, ne_eq, List.filterMap_eq_nil_iff]
  simp only [Option.map_eq_none_iff, not_forall, exists_prop]
  refine and_congr ?_ ?_
  · refine exists_congr fun alternative => and_congr_right fun isAlternative => ?_
    rw [labelled alternative isAlternative, Option.isSome_iff_ne_none]
  · refine exists_congr fun alternative => and_congr_right fun isAlternative => ?_
    rw [labelled alternative isAlternative]
    simp

end Grammar

namespace Check

theorem alternativeCount_eq (rule : Node) :
    alternativeCount rule = (Grammar.alternativesOf rule).length := by
  rw [alternativeCount, Grammar.alternativesOf, Node.childOfKind?_tree]
  cases rule.childOfKind? .block with
  | none => rfl
  | some block =>
    change block.tree.children.length = block.children.length
    rw [← Node.map_tree_children, List.length_map]

theorem reports_entry (scope : Scope) (all : List Grammar.Labelled)
    (entry : Grammar.Labelled) :
    Reports [.altLabelConflictsWithRule, .altLabelRedef] (label scope all entry) := by
  refine .append (.choose (.atSpan (by decide)) .nil) ?_
  split
  · exact .nil
  · exact .choose .nil (.atSpan (by decide))

/-- The message about a rule that gives labels to some of its alternatives only. -/
def tooFewLabels (scope : Scope) (rule : Node) : List Message :=
  if labelledOf rule ≠ [] ∧ (labelledOf rule).length < alternativeCount rule then
    [scope.file.messageAtNode .ruleWithTooFewAltLabels (rule.firstChild?.getD rule)
      [rule.tree.ruleName?.getD ""]]
  else []

/-- Without labels there is nothing to report about them, so lexer rules need
no exception. -/
theorem labelsOfRule_eq {rule : Node} (scope : Scope) (all : List Grammar.Labelled)
    (unlabelled : rule.tree.isLexerRule = true → labelledOf rule = []) :
    labelsOfRule scope all rule =
      tooFewLabels scope rule ++ (labelledOf rule).flatMap (label scope all) := by
  unfold labelsOfRule tooFewLabels
  dsimp only
  split
  · next skipped =>
    have none : labelledOf rule = [] := by
      rcases Bool.or_eq_true_iff.mp skipped with isLexer | isEmpty
      · exact unlabelled isLexer
      · exact List.isEmpty_iff.mp isEmpty
    rw [if_neg fun both => both.1 none, none]
    rfl
  · next checked =>
    have some : labelledOf rule ≠ [] := fun none => checked (by simp [none])
    rw [if_congr (and_iff_right some).symm rfl rfl]

theorem filter_labelsOfRule {rule : Node} (scope : Scope) (all : List Grammar.Labelled)
    (unlabelled : rule.tree.isLexerRule = true → labelledOf rule = []) :
    (labelsOfRule scope all rule).filter (·.kind = .ruleWithTooFewAltLabels) =
      tooFewLabels scope rule := by
  have others : ((labelledOf rule).flatMap (label scope all)).filter
      (·.kind = .ruleWithTooFewAltLabels) = [] :=
    (Reports.flatMap (reports_entry scope all)).filter_eq_nil (by decide)
  rw [labelsOfRule_eq scope all unlabelled, List.filter_append, others, List.append_nil,
    tooFewLabels]
  split <;> rfl

/-- A rule is reported for its labels if it has some and lacks others. -/
theorem filter_labels {source : String} {file : GrammarFile}
    (isFile : file.grammar = .ofSource source) (external : Vocabulary) :
    (labels (file.scope external)).filter (·.kind = .ruleWithTooFewAltLabels) =
      ((ofSource source).tree.rules.filter (ofSource source).mixesLabels).map fun rule =>
        file.messageAtNode .ruleWithTooFewAltLabels (Grammar.nameOf rule)
          [(Grammar.nameOf rule).text] := by
  have rules : (file.scope external).rules =
      (ofSource source).tree.rules := by rw [← isFile]; rfl
  rw [labels, List.filter_flatMap, rules]
  refine flatMap_eq_map_filter fun rule isRule => ?_
  obtain ⟨first, _, named⟩ := Grammar.nameOf_spec isRule
  rw [filter_labelsOfRule _ _ (Grammar.labelledOf_of_isLexerRule isRule), tooFewLabels,
    alternativeCount_eq, first, named]
  exact if_congr (Grammar.mixesLabels_iff isRule).symm rfl rfl

end Check

namespace Grammar

/-! ## Entries -/

/-- Whether an entry names a parser rule and an alternative that stands directly in the
block of this rule. -/
structure Labelled.Fits (grammar : Grammar) (entry : Labelled) : Prop where
  isRule : entry.rule ∈ grammar.tree.rules
  isParserRule : entry.rule.tree.isLexerRule = false
  inBlock : ∃ block, entry.rule.children.filter (·.kind = .block) = [block] ∧
      entry.alternative ∈ block.children
  isAlternative : entry.alternative.kind = .alternative

/-- Whether the label of an entry stands in front of that of another one, at another
alternative. -/
structure Labelled.Before (entry other : Labelled) : Prop where
  apart : entry.alternative.index ≠ other.alternative.index
  nonempty : entry.label.span.start < entry.label.span.stop
  before : entry.label.span.stop ≤ other.label.span.start

variable {source : String} {entry other : Labelled} {rule : Node}

theorem filter_children_eq (isRule : rule ∈ (ofSource source).tree.rules) {block : Node}
    (hasBlock : rule.childOfKind? .block = some block) :
    rule.children.filter (·.kind = .block) = [block] := by
  obtain ⟨member, ofKind⟩ := List.mem_filter.mp isRule
  obtain ⟨body, only⟩ :=
    exists_body (Reading.stands_tree (significantTokens source)) member
      (of_decide_eq_true ofKind)
  have first : (rule.children.filter (·.kind = .block)).head? = some block :=
    List.head?_filter.trans hasBlock
  rw [only] at first ⊢
  rw [Option.some.inj first]

theorem fits_of_entry (isEntry : entry ∈ (ofSource source).labels) :
    entry.Fits (ofSource source) := by
  obtain ⟨isRule, ofRule⟩ := mem_labels.mp isEntry
  obtain ⟨_, block, hasBlock, isChild, hasLabel⟩ := mem_labelledOf.mp ofRule
  obtain ⟨_, member, _⟩ := exists_block_of_mem_labels isEntry
  have stands := (Reading.stands_tree (significantTokens source)).of_mem member
  exact {
    isRule
    isParserRule := isLexerRule_of_entry isEntry
    inBlock := ⟨block, filter_children_eq isRule hasBlock, isChild⟩
    isAlternative := (stands.allowed.labelled (by simp [hasLabel])).1 }

theorem pairwise_before (source : String) :
    (ofSource source).labels.Pairwise Labelled.Before := by
  refine ((pairwise_labels source).and (nodup_labels (ofSource source))).imp_of_mem ?_
  rintro left right isLeft isRight ⟨before, different⟩
  obtain ⟨_, member, _⟩ := exists_block_of_mem_labels isLeft
  obtain ⟨_, otherMember, _⟩ := exists_block_of_mem_labels isRight
  refine ⟨fun same => different ?_, start_lt_stop_of_entry isLeft, before⟩
  exact eq_of_alternative isLeft isRight (Tree.eq_of_index_eq member otherMember same)

/-- The labels of a rule that was read are listed with it. -/
theorem exists_rule_of_done {taken rest : List Token} {tree : Tree}
    {faults : List SyntaxFault}
    (tries : Reading.Tries (significantTokens source) (taken ++ rest))
    (done : Parse.rule (taken ++ rest) = .done (tree, faults) rest) :
    ∃ rule ∈ (ofSource source).tree.rules, rule.tree = tree ∧
      ((ofSource source).labels.filter (·.rule.index = rule.index)).map (·.label) =
        AltLabel.behindHashes taken := by
  have finds : Reading.Finds (significantTokens source) tree :=
    ⟨_, faults, rest, tries, done⟩
  obtain ⟨rule, isRule, rfl⟩ := finds.keeps
  exact ⟨rule, isRule, rfl, map_label_filter isRule done tries.visits.suffix⟩

end Grammar

open Reading (Finds Tries skipPast) in
/-- Every label is listed with an alternative of its rule. These are the labels that the
arena keeps, and in the end none is pending there. A rule that was read has the labels
behind its hashes, and one that fails has none. So a rule is reported exactly if some of
its alternatives have a label and others do not. -/
theorem Grammar.labels_match_alternatives (source : String) :
    (∀ entry ∈ (ofSource source).labels, entry.Fits (ofSource source) ∧
      Finds (significantTokens source) entry.rule.tree) ∧
    (ofSource source).labels.Pairwise Labelled.Before ∧
    ((Arena.ofSource source).pending = [] ∧
      ∃ ids, (Arena.ofSource source).descendants Arena.root = some ids ∧
        (Arena.ofSource source).kept.map Arena.Tag.numbered =
          (ofSource source).labels.map (Labelled.numbered ids)) ∧
    (∀ here, Tries (significantTokens source) here →
      (∀ tree faults taken rest,
        Parse.rule here = .done (tree, faults) rest → here = taken ++ rest →
        ∃ rule ∈ (ofSource source).tree.rules, rule.tree = tree ∧
          ((ofSource source).labels.filter (·.rule.index = rule.index)).map (·.label) =
            AltLabel.behindHashes taken) ∧
      (∀ expected left skipped, Parse.rule here = .failed expected left →
        here = skipped ++ skipPast (.punctuation .semicolon) left →
          ∀ token ∈ skipped, ∀ entry ∈ (ofSource source).labels,
            entry.label.span.Apart token.span)) ∧
    ((ofSource source).errors = [] →
      ∀ file : GrammarFile, file.grammar = .ofSource source → ∀ files library,
      (file.inspect files library).messages.filter (·.kind = .ruleWithTooFewAltLabels) =
        ((ofSource source).tree.rules.filter (ofSource source).mixesLabels).map
          fun rule => file.messageAtNode .ruleWithTooFewAltLabels (nameOf rule)
            [(nameOf rule).text]) := by
  refine ⟨fun entry isEntry =>
    ⟨fits_of_entry isEntry, Reading.finds_of_rule (mem_labels.mp isEntry).1⟩,
    pairwise_before source, Arena.kept_ofSource source, fun here tries => ⟨?_, ?_⟩, ?_⟩
  · rintro tree faults taken rest done rfl
    exact exists_rule_of_done tries done
  · exact fun expected left skipped failed split token isSkipped entry isEntry =>
      apart_of_failed tries failed split isSkipped isEntry
  · intro noErrors file isFile files library
    obtain ⟨external, messages⟩ :=
      GrammarFile.exists_scope (isFile ▸ noErrors) files library
    rw [messages _ (by decide), (Check.reports_declarations _).filter_eq_nil (by decide),
      List.nil_append, Check.filter_labels isFile]

/-- A grammar whose rule has two alternatives and one label. -/
def partlyLabelled : GrammarFile := ⟨"G.g4", none, .ofSource "grammar G; a : b # L | c ;"⟩

/-- A grammar whose first rule fails behind its label. -/
def faultyLabelled : String := "grammar G; a : b # L c ; d : e # M ;"

open Reading (Tries behindSections next? ruleStep) in
/-- A rule mixes alternatives with and without a label, and no token of a rule that fails
is a label. Nor is the label of this rule kept. -/
theorem Grammar.labels_match_alternatives_mixed : partlyLabelled.grammar.errors = [] ∧
    (∀ files library, ((partlyLabelled.inspect files library).messages.filter
      (·.kind = .ruleWithTooFewAltLabels)).map (·.arguments) = [["a"]]) ∧
    (ofSource faultyLabelled).labels.map (·.label.name) = ["M"] ∧
    (Arena.ofSource faultyLabelled).kept.map (·.label.name) = ["M"] ∧
    (∀ token ∈ ((significantTokens faultyLabelled).drop 3).take 7,
      ∀ entry ∈ (ofSource faultyLabelled).labels,
        entry.label.span.Apart token.span) := by
  have noErrors : partlyLabelled.grammar.errors = [] := by decide +kernel
  obtain ⟨_, _, _, _, reports⟩ := labels_match_alternatives "grammar G; a : b # L | c ;"
  obtain ⟨_, _, _, places, _⟩ := labels_match_alternatives faultyLabelled
  have here : behindSections (significantTokens faultyLabelled) =
      ((significantTokens faultyLabelled).drop 3).take 7 ++
        (significantTokens faultyLabelled).drop 10 := by
    decide +kernel
  have next : next? (behindSections (significantTokens faultyLabelled)) =
      some ((significantTokens faultyLabelled).drop 10) := by decide +kernel
  have noTree : (ruleStep (behindSections (significantTokens faultyLabelled))).map
      (·.1.trees.length) = some 0 := by
    decide +kernel
  have begins : behindSections (significantTokens faultyLabelled) =
      ⟨.ruleRef, ⟨11, 12⟩, "a"⟩ :: (significantTokens faultyLabelled).drop
        4 := by decide +kernel
  have tries : Tries (significantTokens faultyLabelled)
      (behindSections (significantTokens faultyLabelled)) :=
    ⟨.refl, _, _, begins, by decide, by decide⟩
  refine ⟨noErrors, fun files library => ?_, by decide +kernel, by decide +kernel, ?_⟩
  · rw [reports noErrors partlyLabelled rfl files library]
    decide +kernel
  · cases outcome : Parse.rule (behindSections (significantTokens faultyLabelled)) with
    | done found rest =>
      rw [tries.ruleStep_of_done outcome] at noTree
      cases noTree
    | failed expected left =>
      have same := Option.some.inj (next.symm.trans (tries.next?_of_failed outcome))
      exact (places _ tries).2 expected left _ outcome (same ▸ here)

end GrammarInspector
