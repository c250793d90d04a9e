import Mathlib.Data.List.Nodup
import GrammarInspector.Grammar.Basic
import GrammarInspector.Proofs.Tree.Shape

/-! # Labels of alternatives

The labels of a grammar are those of its nodes: each label at a node is listed once, with
the rule that the node belongs to.
-/

namespace GrammarInspector.Grammar

open List

variable {grammar : Grammar} {rule node : Node} {entry other : Labelled}

theorem mem_labelledOf :
    entry ∈ labelledOf rule ↔ entry.rule = rule ∧ ∃ block,
      rule.childOfKind? .block = some block ∧
      entry.alternative ∈ block.children ∧ entry.alternative.tree.data.label =
        some entry.label := by
  obtain ⟨label, owner, alternative⟩ := entry
  unfold labelledOf
  cases found : rule.childOfKind? .block with
  | none => simp
  | some block =>
    simp only [mem_filterMap, Option.map_eq_some_iff, Labelled.mk.injEq,
      Option.some.injEq, exists_eq_left']
    grind

theorem mem_labels :
    entry ∈ grammar.labels ↔ entry.rule ∈ grammar.tree.rules ∧
    entry ∈ labelledOf entry.rule := by
  simp only [labels, mem_mergeSort, mem_flatMap]
  constructor
  · intro ⟨rule, member, isEntry⟩
    obtain ⟨rfl, _⟩ := mem_labelledOf.mp isEntry
    exact ⟨member, isEntry⟩
  · intro ⟨member, isEntry⟩
    exact ⟨entry.rule, member, isEntry⟩

/-- The alternative of an entry is a node of the grammar, below the entry's rule. -/
theorem exists_block_of_mem_labels (isEntry : entry ∈ grammar.labels) :
    ∃ block, entry.alternative ∈ grammar.tree.nodes ∧
      entry.alternative.parent? = some block ∧
      block.parent? = some entry.rule ∧ entry.alternative.tree.data.label =
        some entry.label := by
  obtain ⟨ruleMember, isLabelled⟩ := mem_labels.mp isEntry
  obtain ⟨_, block, hasBlock, isChild, hasLabel⟩ := mem_labelledOf.mp isLabelled
  have inRule := mem_of_find?_eq_some hasBlock
  have blockMember := Tree.child_mem_nodes (mem_filter.mp ruleMember).1 inRule
  exact ⟨block, Tree.child_mem_nodes blockMember isChild,
    Node.parent?_of_mem_children isChild,
    Node.parent?_of_mem_children inRule, hasLabel⟩

theorem eq_of_alternative (isEntry : entry ∈ grammar.labels)
    (isOther : other ∈ grammar.labels) (same : entry.alternative = other.alternative) :
    entry = other := by
  obtain ⟨block, _, isParent, ofRule, hasLabel⟩ := exists_block_of_mem_labels isEntry
  obtain ⟨otherBlock, _, isOtherParent, ofOtherRule, hasOtherLabel⟩ :=
    exists_block_of_mem_labels isOther
  rw [same] at isParent hasLabel
  cases isParent.symm.trans isOtherParent
  have sameLabel := Option.some.inj (hasLabel.symm.trans hasOtherLabel)
  have sameRule := Option.some.inj (ofRule.symm.trans ofOtherRule)
  cases entry
  cases other
  simp_all

theorem pairwise_index_labelledOf (rule : Node) :
    (labelledOf rule).Pairwise fun left right =>
      left.alternative.index < right.alternative.index := by
  unfold labelledOf
  split
  · exact .nil
  · next block _ =>
    refine (Node.pairwise_index_children block).filterMap _ ?_
    intro left right before entry isEntry other isOther
    obtain ⟨_, _, rfl⟩ := Option.map_eq_some_iff.mp isEntry
    obtain ⟨_, _, rfl⟩ := Option.map_eq_some_iff.mp isOther
    exact before

theorem nodup_labels (grammar : Grammar) : grammar.labels.Nodup := by
  refine (mergeSort_perm _ _).nodup_iff.mpr (nodup_flatMap.mpr ⟨fun rule _ => ?_, ?_⟩)
  · exact (pairwise_index_labelledOf rule).imp
      fun before equal => by simp [equal] at before
  · refine grammar.tree.pairwise_index_rules.imp ?_
    intro left right before entry isLeft isRight
    have same := (mem_labelledOf.mp isLeft).1.symm.trans (mem_labelledOf.mp isRight).1
    simp [same] at before

theorem exists_body {known : Token → Prop} (stands : grammar.tree.Stands known [])
    (member : rule ∈ grammar.tree.nodes) (isRule : rule.kind = .rule) :
    ∃ body, rule.children.filter (·.kind = .block) = [body] := by
  obtain ⟨_, only, _⟩ := ((stands.of_mem member).allowed.declared isRule).2
  rw [← Node.map_tree_children, filter_map] at only
  obtain ⟨body, rest, equal, _, none⟩ := map_eq_cons_iff.mp only
  rw [map_eq_nil_iff.mp none] at equal
  exact ⟨body, equal⟩

/-- Any block in a rule is its body. -/
theorem childOfKind?_of_mem_children {known : Token → Prop} {block : Node}
    (stands : grammar.tree.Stands known []) (member : rule ∈ grammar.tree.nodes)
    (isRule : rule.kind = .rule) (isChild : block ∈ rule.children)
    (isBlock : block.kind = .block) : rule.childOfKind? .block = some block := by
  obtain ⟨body, only⟩ := exists_body stands member isRule
  have inside : block ∈ rule.children.filter (·.kind = .block) :=
    mem_filter.mpr ⟨isChild, decide_eq_true isBlock⟩
  have first : rule.childOfKind? .block =
      (rule.children.filter (·.kind = .block)).head? := head?_filter.symm
  rw [only, mem_singleton] at inside
  rw [first, only, inside]
  rfl

theorem exists_entry_of_label {known : Token → Prop} {label : AltLabel}
    (stands : grammar.tree.Stands known []) (member : node ∈ grammar.tree.nodes)
    (hasLabel : node.tree.data.label = some label) :
    ∃ entry ∈ grammar.labels, entry.alternative = node ∧ entry.label = label := by
  obtain ⟨_, further, kinds⟩ :=
    (stands.of_mem member).allowed.labelled (by simp [hasLabel])
  obtain ⟨index, tree, above⟩ := node
  obtain ⟨⟨blockIndex, blockTree⟩, behind, rfl, isBlock, kinds⟩ :=
    map_eq_cons_iff.mp kinds
  obtain ⟨⟨ruleIndex, ruleTree⟩, behind, rfl, isRule, kinds⟩ := map_eq_cons_iff.mp kinds
  let block : Node := ⟨blockIndex, blockTree, (ruleIndex, ruleTree) :: behind⟩
  let rule : Node := ⟨ruleIndex, ruleTree, behind⟩
  have blockMember : block ∈ grammar.tree.nodes := Tree.parent_mem_nodes member rfl
  have ruleMember : rule ∈ grammar.tree.nodes := Tree.parent_mem_nodes blockMember rfl
  have isChild : ⟨index, tree, _⟩ ∈ block.children :=
    Tree.mem_children_of_parent? member rfl
  have inRule : block ∈ rule.children := Tree.mem_children_of_parent? blockMember rfl
  have hasBlock := childOfKind?_of_mem_children stands ruleMember isRule inRule isBlock
  refine ⟨⟨label, rule, _⟩, mem_labels.mpr ⟨?_, ?_⟩, rfl, rfl⟩
  · exact mem_filter.mpr ⟨ruleMember, decide_eq_true isRule⟩
  · exact mem_labelledOf.mpr ⟨rfl, block, hasBlock, isChild, hasLabel⟩

end GrammarInspector.Grammar
