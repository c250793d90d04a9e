import GrammarInspector.Proofs.Grammar.Attempts
import GrammarInspector.Proofs.Grammar.Hashes
import GrammarInspector.Proofs.Grammar.Texts
import GrammarInspector.Proofs.Grammar.Places
import GrammarInspector.Proofs.Sorting
import GrammarInspector.Proofs.Tree.Reported

/-! # The places of labels

Labels are tokens that no node shows, so the order of nodes says nothing about them. Nodes
whose labels are out of order hold each other, and a node with a label holds no other one;
so labels never overlap, and without errors the labels of one rule after the other follow
the source. Only parser rules have labels, and a rule that fails leaves none behind.
-/

namespace GrammarInspector

open List

namespace Tree

variable {tree : Tree} {left right node other : Node} {known : Token → Prop}

/-- A rule ends before the next one begins. -/
theorem Stands.index_of_rules (stands : tree.Stands known []) (isRule : left ∈ tree.rules)
    (isOther : right ∈ tree.rules) (before : left.index < right.index) :
    left.index + left.tree.size ≤ right.index := by
  obtain ⟨member, ofKind⟩ := mem_filter.mp isRule
  obtain ⟨otherMember, otherKind⟩ := mem_filter.mp isOther
  by_contra inside
  have holds : left.Holds right := by
    refine ⟨mem_descendants_of_index member otherMember (by omega) (by omega), ?_⟩
    rintro rfl
    omega
  have outside :=
    ((stands.of_mem otherMember).allowed.declared (of_decide_eq_true otherKind)).1
  refine outside (mem_map.mpr ⟨(left.index, left.tree),
    holds.suffix.subset (.head _), ?_⟩)
  exact of_decide_eq_true ofKind

/-- A node with a label holds no other one, as there would be a rule in a rule. -/
theorem Stands.not_held (stands : tree.Stands known []) (member : other ∈ tree.nodes)
    (hasLabel : node.tree.data.label ≠ none) (otherLabel : other.tree.data.label ≠ none) :
    (node.index, node.tree) ∉ other.above := by
  intro held
  obtain ⟨front, above, split⟩ := append_of_mem held
  have suffix : (node.index, node.tree) :: above <:+ other.above := ⟨front, split.symm⟩
  have holderMember : ⟨node.index, node.tree, above⟩ ∈ tree.nodes :=
    (holder_mem_nodes member suffix).1
  obtain ⟨isAlternative, _, holderKinds⟩ :=
    (stands.of_mem holderMember).allowed.labelled hasLabel
  obtain ⟨_, _, kinds⟩ := (stands.of_mem member).allowed.labelled otherLabel
  obtain ⟨index, subtree, _⟩ := other
  obtain ⟨⟨blockIndex, block⟩, _, rfl, isBlock, kinds⟩ := map_eq_cons_iff.mp kinds
  obtain ⟨⟨ruleIndex, rule⟩, behind, rfl, isRule, _⟩ := map_eq_cons_iff.mp kinds
  have ruleMember : ⟨ruleIndex, rule, behind⟩ ∈ tree.nodes :=
    parent_mem_nodes (parent_mem_nodes member rfl) rfl
  have outside := ((stands.of_mem ruleMember).allowed.declared isRule).1
  -- The holder would be the block, the rule, or a node above the rule, which then has
  -- a rule above it.
  rcases suffix_cons_iff.mp suffix with isParent | suffix
  · cases isParent
    exact absurd (isAlternative.symm.trans isBlock) (by decide)
  rcases suffix_cons_iff.mp suffix with isRuleNode | suffix
  · cases isRuleNode
    exact absurd (isAlternative.symm.trans isRule) (by decide)
  · have inAbove : .rule ∈ above.map (·.2.kind) := by simp [holderKinds]
    exact outside ((map_subset _ (subset_of_cons_subset suffix.subset)) inAbove)

end Tree

namespace Grammar

variable {source : String} {entry other : Labelled} {rule : Node}
  {taken rest : List Token} {faults : List SyntaxFault} {tree : Tree}

theorem exists_token_of_entry (isEntry : entry ∈ (ofSource source).labels) :
    ∃ token ∈ significantTokens source, entry.label.span = token.span := by
  obtain ⟨_, member, _, _, hasLabel⟩ := exists_block_of_mem_labels isEntry
  have inner : entry.alternative ≠ (ofSource source).tree.root := by
    intro isRoot
    rw [isRoot] at hasLabel
    cases hasLabel
  obtain ⟨token, isKnown, _, equal⟩ :=
    (Reading.worded_of_mem member inner).label _ hasLabel
  exact ⟨token, isKnown, by rw [equal]⟩

theorem start_lt_stop_of_entry (isEntry : entry ∈ (ofSource source).labels) :
    entry.label.span.start < entry.label.span.stop := by
  obtain ⟨token, isKnown, equal⟩ := exists_token_of_entry isEntry
  rw [equal]
  exact start_lt_stop isKnown

theorem mem_labels_of_rule (isRule : rule ∈ (ofSource source).tree.rules)
    (ofRule : entry ∈ labelledOf rule) : entry ∈ (ofSource source).labels :=
  mem_mergeSort.mpr (mem_flatMap.mpr ⟨rule, isRule, ofRule⟩)

theorem apart_of_entries (isEntry : entry ∈ (ofSource source).labels)
    (isOther : other ∈ (ofSource source).labels) (different : entry ≠ other) :
    entry.label.span.Apart other.label.span := by
  obtain ⟨_, member, _, _, hasLabel⟩ := exists_block_of_mem_labels isEntry
  obtain ⟨_, otherMember, _, _, otherLabel⟩ := exists_block_of_mem_labels isOther
  have stands := Reading.stands_tree (significantTokens source)
  have pairs := Reading.pairwise_follows (ordered_significantTokens source)
  have numbers : entry.alternative.index ≠ other.alternative.index := fun same =>
    different (eq_of_alternative isEntry isOther
      (Tree.eq_of_index_eq member otherMember same))
  rcases Nat.lt_or_gt_of_ne numbers with before | behind
  · exact (Tree.rel_of_index_lt pairs member otherMember before).labels
      (stands.not_held otherMember (by simp [hasLabel]) (by simp [otherLabel])) _ _
        hasLabel otherLabel
  · exact ((Tree.rel_of_index_lt pairs otherMember member behind).labels
      (stands.not_held member (by simp [otherLabel]) (by simp [hasLabel])) _ _ otherLabel
        hasLabel).symm

/-- Labels are listed in the order of the source. -/
theorem pairwise_labels (source : String) :
    (ofSource source).labels.Pairwise fun left right =>
      left.label.span.stop ≤ right.label.span.start := by
  have ranks := ranks_of_key fun entry : Labelled => entry.label.span.start
  have sorted := pairwise_mergeSort ranks.trans ranks.total
      ((ofSource source).tree.rules.flatMap labelledOf)
  refine (sorted.and (nodup_labels (ofSource source))).imp_of_mem ?_
  rintro left right isLeft isRight ⟨inOrder, different⟩
  have positive := start_lt_stop_of_entry isRight
  rcases apart_of_entries isLeft isRight different with before | behind
  · exact before
  · have starts := of_decide_eq_true inOrder
    omega

/-! ## Rules with labels -/

theorem map_label_labelledOf {block : Node}
    (hasBlock : rule.childOfKind? .block = some block) :
    (labelledOf rule).map (·.label) = block.tree.children.filterMap (·.data.label) := by
  rw [labelledOf, hasBlock, ← Node.map_tree_children, filterMap_map, map_filterMap]
  exact filterMap_congr fun alternative _ => by simp [Function.comp_def]

/-- The labels of a rule are the names behind the hashes of its tokens. -/
theorem among_labelledOf (isRule : rule ∈ (ofSource source).tree.rules)
    (done : Parse.rule (taken ++ rest) = .done (rule.tree, faults) rest) :
    AltLabel.Among taken ((labelledOf rule).map (·.label)) := by
  obtain ⟨member, ofKind⟩ := mem_filter.mp isRule
  obtain ⟨body, isChild, isBlock, among⟩ := Parse.ensures_labels.of_append done
  rw [← Node.map_tree_children, mem_map] at isChild
  obtain ⟨block, inRule, rfl⟩ := isChild
  have stands := Reading.stands_tree (significantTokens source)
  rwa [map_label_labelledOf
    (childOfKind?_of_mem_children stands member (of_decide_eq_true ofKind)
    inRule isBlock)]

theorem filter_entries (isRule : rule ∈ tree.rules) :
    (tree.rules.flatMap labelledOf).filter (·.rule.index = rule.index) =
      labelledOf rule := by
  have numbers := tree.pairwise_index_rules
  obtain ⟨front, behind, split⟩ := append_of_mem isRule
  have ofOther {other : Node} (different : other.index ≠ rule.index) :
      (labelledOf other).filter (·.rule.index = rule.index) = [] := by
    refine filter_eq_nil_iff.mpr fun entry ofRule => ?_
    rw [(mem_labelledOf.mp ofRule).1]
    simpa using different
  have own : (labelledOf rule).filter (·.rule.index = rule.index) = labelledOf rule := by
    refine filter_eq_self.mpr fun entry ofRule => ?_
    rw [(mem_labelledOf.mp ofRule).1]
    exact decide_eq_true rfl
  rw [split, pairwise_append, pairwise_cons] at numbers
  have noFront :
      front.flatMap (fun other => (labelledOf other).filter (·.rule.index = rule.index)) =
      [] :=
    flatMap_eq_nil_iff.mpr fun other member =>
      ofOther (numbers.2.2 other member rule (.head _)).ne
  have noBehind :
      behind.flatMap (fun other =>
      (labelledOf other).filter (·.rule.index = rule.index)) = [] :=
    flatMap_eq_nil_iff.mpr fun other member => ofOther (numbers.2.1.1 other member).ne'
  rw [filter_flatMap, split, flatMap_append, flatMap_cons, noFront, noBehind, own,
    nil_append, append_nil]

/-- The labels that are listed with a rule are the names behind its hashes, in order. -/
theorem map_label_filter (isRule : rule ∈ (ofSource source).tree.rules)
    (done : Parse.rule (taken ++ rest) = .done (rule.tree, faults) rest)
    (suffix : taken ++ rest <:+ significantTokens source) :
    ((ofSource source).labels.filter (·.rule.index = rule.index)).map (·.label) =
      AltLabel.behindHashes taken := by
  have among := (among_labelledOf isRule done).eq
  have ordered : Token.Ordered taken :=
    (ordered_significantTokens source).sublist
      ((sublist_append_left ..).trans suffix.sublist)
  have inOrder : (labelledOf rule).Pairwise fun left right =>
      left.label.span.stop ≤ right.label.span.start := by
    have pairs := AltLabel.pairwise_behindHashes ordered
    rwa [among, pairwise_map] at pairs
  have sorted : (labelledOf rule).Pairwise fun left right =>
      decide (left.label.span.start ≤ right.label.span.start) = true := by
    refine inOrder.imp_of_mem fun isLeft _ before => decide_eq_true ?_
    have positive := start_lt_stop_of_entry (mem_labels_of_rule isRule isLeft)
    omega
  rw [labels, filter_mergeSort (ranks_of_key _), filter_entries isRule,
    mergeSort_of_pairwise sorted, among]

theorem labelledOf_of_isLexerRule (isRule : rule ∈ (ofSource source).tree.rules)
    (isLexer : rule.tree.isLexerRule = true) : labelledOf rule = [] := by
  obtain ⟨here, faults, rest, _, done⟩ := Reading.finds_of_rule isRule
  obtain ⟨taken, rfl, noHash⟩ := Parse.ensures_lexerRule.done done
  rw [← map_eq_nil_iff, ← (among_labelledOf isRule done).eq, (noHash isLexer).eq]

theorem isLexerRule_of_entry (isEntry : entry ∈ (ofSource source).labels) :
    entry.rule.tree.isLexerRule = false := by
  obtain ⟨isRule, ofRule⟩ := mem_labels.mp isEntry
  refine Bool.eq_false_iff.mpr fun isLexer => ?_
  rw [labelledOf_of_isLexerRule isRule isLexer] at ofRule
  cases ofRule

/-! ## Without errors -/

theorem mem_descendants_of_entry (isEntry : entry ∈ labelledOf rule) :
    entry.alternative ∈ rule.descendants := by
  obtain ⟨_, block, hasBlock, isChild, _⟩ := mem_labelledOf.mp isEntry
  have inRule := Node.mem_descendants_of_mem_children (mem_of_find?_eq_some hasBlock)
  exact Node.mem_ofTree_of_mem_descendants rule.tree inRule
    (Node.mem_descendants_of_mem_children isChild)

/-- The alternatives of the entries are in pre-order if the entries are listed
rule by rule. -/
theorem pairwise_index_entries {known : Token → Prop} (stands : tree.Stands known []) :
    (tree.rules.flatMap labelledOf).Pairwise fun left right =>
      left.alternative.index < right.alternative.index := by
  refine pairwise_flatMap.mpr ⟨fun rule _ => pairwise_index_labelledOf rule, ?_⟩
  refine tree.pairwise_index_rules.imp_of_mem ?_
  intro first second isFirst isSecond before left isLeft right isRight
  have upper := (Node.index_of_mem_ofTree _ (mem_descendants_of_entry isLeft)).2
  have lower := (Node.index_of_mem_ofTree _ (mem_descendants_of_entry isRight)).1
  have behind := Tree.Stands.index_of_rules stands isFirst isSecond before
  omega

/-- Without errors the labels in the order of the source are those of one rule
after the other. -/
theorem labels_eq_of_errors_nil (none : (ofSource source).errors = []) :
    (ofSource source).labels = (ofSource source).tree.rules.flatMap labelledOf := by
  have stands := Reading.stands_tree (significantTokens source)
  have noFaults := ((errors_eq_nil_iff source).mp none).2
  have pairs :=
    (Reading.nonempty_listing_of_faults_nil noFaults (ordered_significantTokens source)).2
  refine mergeSort_of_pairwise ((pairwise_index_entries stands).imp_of_mem ?_)
  intro left right isLeft isRight numbers
  have isEntry {entry : Labelled}
      (member : entry ∈ (ofSource source).tree.rules.flatMap labelledOf) :
      entry ∈ (ofSource source).labels := mem_mergeSort.mpr member
  obtain ⟨_, member, _, _, hasLabel⟩ := exists_block_of_mem_labels (isEntry isLeft)
  obtain ⟨_, otherMember, _, _, otherLabel⟩ :=
    exists_block_of_mem_labels (isEntry isRight)
  have positive := start_lt_stop_of_entry (isEntry isLeft)
  have before := (Tree.rel_of_index_lt pairs member otherMember numbers).labels
    (stands.not_held otherMember (by simp [hasLabel]) (by simp [otherLabel])) _ _
      hasLabel otherLabel
  exact decide_eq_true (by omega)

/-! ## Rules that fail -/

open Reading (Finds Tries Visits skipPast) in
/-- What was left out because a rule failed has no label in it. -/
theorem apart_of_failed {here left skipped : List Token} {expected : Expected}
    {token : Token} (tries : Tries (significantTokens source) here)
    (failed : Parse.rule here = .failed expected left)
    (split : here = skipped ++ skipPast (.punctuation .semicolon) left)
    (isSkipped : token ∈ skipped) (isEntry : entry ∈ (ofSource source).labels) :
    entry.label.span.Apart token.span := by
  obtain ⟨isRule, ofRule⟩ := mem_labels.mp isEntry
  obtain ⟨there, faults, rest, triesThere, done⟩ := Reading.finds_of_rule isRule
  obtain ⟨taken, equal, _, built, _⟩ := Parse.ensures_rule.done done
  have inside : entry.alternative ∈ Node.ofTrees entry.rule.index entry.rule.above
      [entry.rule.tree] := by
    simpa [Node.descendants] using mem_descendants_of_entry ofRule
  obtain ⟨_, block, _, _, hasLabel⟩ := mem_labelledOf.mp ofRule
  obtain ⟨label, isTaken, _, same⟩ := (built.worded inside).label _ hasLabel
  have ordered {part : List Token} (suffix : part <:+ significantTokens source) :
      Token.Ordered part :=
    (ordered_significantTokens source).sublist suffix.sublist
  have hereOrdered := ordered tries.visits.suffix
  have thereOrdered := ordered triesThere.visits.suffix
  rw [split] at hereOrdered
  rw [equal] at thereOrdered
  rw [same]
  -- The rule of the entry was found at another place, and what is taken at one place is
  -- not met from the other.
  rcases tries.visits.eq_or_suffix triesThere.visits (tries.next?_of_failed failed)
    (triesThere.next?_of_done done) with isHere | behind | before
  · rw [isHere, done] at failed
    cases failed
  · have inThere : label ∈ there := equal ▸ mem_append_left rest isTaken
    exact Or.inr ((pairwise_append.mp hereOrdered).2.2 token isSkipped label
      (behind.subset inThere))
  · have inHere : token ∈ here := split ▸ mem_append_left _ isSkipped
    exact Or.inl ((pairwise_append.mp thereOrdered).2.2 label isTaken token
      (before.subset inHere))

end Grammar

end GrammarInspector
