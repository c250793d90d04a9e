import GrammarInspector.Check.Inspect
import GrammarInspector.Proofs.Grammar.Names

/-! # The nodes that checks point at

A check that quotes the text of a node points at a name, a reference, a literal or a set.
All of them show one line of the source.
-/

namespace GrammarInspector

open List

/-- What follows a pattern that begins with one child. -/
theorem Part.Match.exists_cons {kinds found : List NodeKind} {parts : List Part}
    (follows : Part.Match (⟨.one, kinds⟩ :: parts) found) :
    ∃ kind rest, found = kind :: rest ∧ kind ∈ kinds ∧ Part.Match parts rest := by
  cases follows with
  | @cons _ _ front behind allowed ofKinds rest =>
    obtain ⟨kind, rfl⟩ := length_eq_one_iff.mp allowed
    exact ⟨kind, behind, rfl, ofKinds kind (mem_singleton_self _), rest⟩

namespace Grammar

variable {source : String} {node : Node}

theorem pattern_of_mem (member : node ∈ (ofSource source).tree.nodes) :
    ∃ parts ∈ node.kind.patterns, Part.Match parts (node.tree.children.map Tree.kind) :=
  ((Reading.stands_tree (significantTokens source)).of_mem member).allowed.pattern

theorem root_mem (source : String) :
    (ofSource source).tree.root ∈ (ofSource source).tree.nodes :=
  Node.ofTree_self_mem 0 [] _

/-- The first child of a node that begins with a name is quoted. -/
theorem quoted_firstChild {parts : List Part}
    (member : node ∈ (ofSource source).tree.nodes)
    (begins : node.kind.patterns = [⟨.one, [.identifier]⟩ :: parts])
    (other : node.kind ≠ .assign) :
    ∃ name, node.firstChild? = some name ∧ name.Quoted source := by
  obtain ⟨found, isPattern, follows⟩ := pattern_of_mem member
  rw [begins, mem_singleton] at isPattern
  subst isPattern
  obtain ⟨kind, rest, kinds, isName, _⟩ := follows.exists_cons
  rw [← Node.map_tree_children, map_map] at kinds
  obtain ⟨name, others, children, ofKind, _⟩ := map_eq_cons_iff.mp kinds
  have isChild : name ∈ node.children := by
    rw [children]
    exact mem_cons_self ..
  refine ⟨name, ?_, ?_⟩
  · rw [Node.firstChild?, children]
    rfl
  · exact quoted_of_parent (Tree.child_mem_nodes member isChild)
      (ofKind.trans (mem_singleton.mp isName))
        (Node.parent?_of_mem_children isChild) other

theorem quoted_nameNode? {name : Node} (found : (ofSource source).nameNode? = some name) :
    name.Quoted source := by
  obtain ⟨first, isName⟩ := Option.filter_eq_some_iff.mp found
  have isChild : name ∈ (ofSource source).tree.root.children := mem_of_mem_head? first
  exact quoted_of_parent (Tree.child_mem_nodes (root_mem source) isChild)
    (of_decide_eq_true isName) (Node.parent?_of_mem_children isChild) NodeKind.noConfusion

theorem nameNode?_ne_none (wellFormed : (ofSource source).errors = []) :
    (ofSource source).nameNode? ≠ none := by
  obtain ⟨name, isFirst⟩ :=
    Reading.exists_name_of_faults_nil ((errors_eq_nil_iff source).mp wellFormed).2
  have first : (ofSource source).tree.root.firstChild?.map (·.tree) =
      some (.leaf .identifier name) := by
    rw [Node.firstChild?, ← head?_map, Node.map_tree_children]
    exact isFirst
  obtain ⟨child, isChild, tree⟩ := Option.map_eq_some_iff.mp first
  have isName : child.kind = .identifier := congrArg Tree.kind tree
  rw [nameNode?, isChild, Option.filter_some, if_pos (decide_eq_true isName)]
  exact Option.some_ne_none child

theorem section_mem {kind : NodeKind}
    (isSection : node ∈ (ofSource source).sections kind) :
    node ∈ (ofSource source).tree.nodes ∧ node.kind = kind ∧
      node.tree.NamesTokens (· ∈ significantTokens source) := by
  obtain ⟨isChild, ofKind⟩ := mem_filter.mp isSection
  refine ⟨Tree.child_mem_nodes (root_mem source) isChild, of_decide_eq_true ofKind, ?_⟩
  exact Reading.names_children _ node.tree (Node.tree_mem_children isChild)

/-- The names of options are quoted, and their values are nodes of the grammar. -/
theorem quoted_option {option : Node × Node}
    (isOption : option ∈ (ofSource source).options) :
    option.1.Quoted source ∧ option.2 ∈ (ofSource source).tree.nodes := by
  obtain ⟨entry, isEntry, found⟩ := mem_filterMap.mp isOption
  obtain ⟨options, isSection, isChild⟩ := mem_flatMap.mp isEntry
  obtain ⟨member, ofKind, names⟩ := section_mem isSection
  have entryMember := Tree.child_mem_nodes member isChild
  obtain ⟨nameTree, valueTree, trees, isName⟩ :=
    names.option ofKind entry.tree (Node.tree_mem_children isChild)
  split at found
  · next name value children =>
    split at found
    · cases found
      rw [← Node.map_tree_children, children] at trees
      have mem (child : Node) (isChild : child ∈ [name, value]) :
          child ∈ (ofSource source).tree.nodes :=
        Tree.child_mem_nodes entryMember (children ▸ isChild)
      have sameName : name.tree = nameTree := (List.cons.inj trees).1
      exact ⟨quoted_of_isName (mem name (by simp)) (sameName ▸ isName),
        mem value (by simp)⟩
    · cases found
  · cases found

theorem vocabularyName_mem (isName : node ∈ (ofSource source).vocabularyNames) :
    node ∈ (ofSource source).tree.nodes := by
  obtain ⟨option, isOption, rfl⟩ := mem_map.mp isName
  exact (quoted_option (mem_filter.mp isOption).1).2

theorem quoted_importName (isName : node ∈ (ofSource source).importNames) :
    node.Quoted source := by
  obtain ⟨entry, isEntry, found⟩ := mem_filterMap.mp isName
  obtain ⟨imports, isSection, isChild⟩ := mem_flatMap.mp isEntry
  obtain ⟨member, ofKind, names⟩ := section_mem isSection
  have entryMember := Tree.child_mem_nodes member isChild
  rcases names.delegate ofKind entry.tree (Node.tree_mem_children isChild) with
    isName | ⟨isAssign, name, target, trees, isTarget⟩
  · have other : entry.kind ≠ .assign := by
      obtain ⟨name, _, _, equal⟩ := isName
      rw [Node.kind, equal]
      exact NodeKind.noConfusion
    rw [if_neg other] at found
    cases found
    exact quoted_of_isName entryMember isName
  · rw [if_pos (show entry.kind = .assign from isAssign)] at found
    refine quoted_of_isName (Tree.child_mem_nodes entryMember (mem_of_getElem? found)) ?_
    have tree := congrArg (Option.map Node.tree) found
    rw [← getElem?_map, Node.map_tree_children, trees] at tree
    cases tree
    exact isTarget

theorem quoted_ruleName {rule : Node} (isRule : rule ∈ (ofSource source).tree.rules) :
    ∃ name, rule.firstChild? = some name ∧ name.Quoted source ∧
    rule.tree.ruleName? = some name.text := by
  obtain ⟨member, ofKind⟩ := mem_filter.mp isRule
  have kind : rule.kind = .rule := of_decide_eq_true ofKind
  obtain ⟨_, _, name, first, isName⟩ := (Reading.sourced_of_mem member).declared kind
  refine ⟨name, first, ?_, ?_⟩
  · have isOneLine : name.kind.isOneLine = true := by
      generalize name.kind = kind at isName
      cases kind <;> cases isName <;> rfl
    refine quoted_of_isOneLine (Tree.firstChild_mem_nodes member first) isOneLine
      fun isIdentifier => ?_
    rw [isIdentifier] at isName
    cases isName
  · have tree : rule.tree.firstChild? = some name.tree := by
      rw [Node.firstChild?_eq, Option.map_eq_some_iff] at first
      obtain ⟨child, isFirst, rfl⟩ := first
      exact isFirst
    rw [Tree.ruleName?, if_pos (show rule.tree.kind = .rule from kind), tree]
    rfl

theorem quoted_command {alternative command : Node}
    (isAlternative : alternative ∈ (ofSource source).tree.nodesOfKind .lexerAlternative)
    (isCommand : command ∈ alternative.children.drop 1) :
    (Check.commandParts command).1.Quoted source := by
  obtain ⟨member, ofKind⟩ := mem_filter.mp isAlternative
  have kind : alternative.kind = .lexerAlternative := of_decide_eq_true ofKind
  have isChild : command ∈ alternative.children := mem_of_mem_drop isCommand
  have commandMember := Tree.child_mem_nodes member isChild
  obtain ⟨found, isPattern, follows⟩ := pattern_of_mem member
  rw [kind, NodeKind.patterns, mem_singleton] at isPattern
  subst isPattern
  obtain ⟨first, rest, kinds, _, others⟩ := follows.exists_cons
  have inRest : command.kind ∈ rest := by
    have dropped : (alternative.children.drop 1).map Node.kind = rest := by
      rw [← Node.map_tree_children, map_map] at kinds
      rw [map_drop]
      exact congrArg (List.drop 1) kinds
    rw [← dropped]
    exact mem_map_of_mem isCommand
  obtain ⟨part, isPart, ofPart⟩ := others.exists_part inRest
  cases mem_singleton.mp isPart
  unfold Check.commandParts
  split
  · next isCall =>
    obtain ⟨name, first, quoted⟩ :=
      quoted_firstChild commandMember (by rw [isCall]; rfl) (by simp [isCall])
    rw [first]
    exact quoted
  · next noCall =>
    have isName : command.kind = .identifier := by simpa [noCall] using ofPart
    exact quoted_of_parent commandMember isName (Node.parent?_of_mem_children isChild)
      (by simp [kind])

end Grammar

end GrammarInspector
