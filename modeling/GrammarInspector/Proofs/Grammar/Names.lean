import GrammarInspector.Proofs.Grammar.Places
import GrammarInspector.Proofs.Grammar.Shape.Reading
import GrammarInspector.Proofs.Token.OneLine

/-! # Nodes that show one line of the source

References, literals, sets, labels and names have the text that the source has at their
span, and no line break is in it. Of the names only the values of options can be
different.
-/

namespace GrammarInspector

open List

namespace NodeKind

/-- The kinds of nodes that show a token on one line. -/
def isOneLine : NodeKind → Bool
  | .identifier | .tokenRef | .ruleRef | .literal | .charSet => true
  | _ => false

theorem isOneLine_of_fits {kind : NodeKind} {shown : TokenKind}
    (isOneLine : kind.isOneLine = true) (fitting : kind.fits shown = true) :
    shown.isOneLine = true := by
  unfold fits at fitting
  split at fitting <;> first
    | rfl
    | cases isOneLine
    | cases fitting

end NodeKind

/-- Whether a node of a grammar has the text that the source has at its span, with no line
break in it. -/
structure Node.Quoted (source : String) (node : Node) : Prop where
  member : node ∈ (Grammar.ofSource source).tree.nodes
  shows : ∃ span, node.tree.span = some span ∧ span.Shows source node.text
  oneLine : '\n' ∉ node.text.toList

/-- Whether a node stands where the names and values of options do. -/
def Node.InOption (node : Node) : Prop :=
  ∃ option options, node.parent? = some option ∧ option.kind = .assign ∧
    option.parent? = some options ∧ options.kind = .options

/-! ## Sections in front of the rules -/

namespace Tree

/-- Whether a tree is the leaf of a name. -/
def IsName (known : Token → Prop) (tree : Tree) : Prop :=
  ∃ name, known name ∧ name.kind.isIdentifier = true ∧ tree = leaf .identifier name

/-- What is known of the names in options and imports. -/
structure NamesTokens (known : Token → Prop) (tree : Tree) : Prop where
  option : tree.kind = .options → ∀ entry ∈ tree.children,
    ∃ name value, entry.children = [name, value] ∧ name.IsName known
  delegate : tree.kind = .imports → ∀ entry ∈ tree.children, entry.IsName known ∨
    entry.kind = .assign ∧ ∃ name target, entry.children = [name, target] ∧
    target.IsName known

theorem NamesTokens.of_other {known : Token → Prop} {tree : Tree}
    (noOptions : tree.kind ≠ .options) (noImports : tree.kind ≠ .imports) :
    tree.NamesTokens known :=
  ⟨fun isOptions => absurd isOptions noOptions, fun isImports =>
    absurd isImports noImports⟩

end Tree

namespace Parse

variable {known : Token → Prop}

theorem names_identifier :
    Yields known identifier fun name => known name ∧ name.kind.isIdentifier = true := by
  refine .of_ensures (Ensures.take _ _) ?_
  rintro _ token isKnown ⟨rfl, isName⟩
  exact ⟨isKnown token (.head _), isName⟩

theorem names_option : Yields known option fun entry =>
    ∃ name value, entry.children = [name, value] ∧ name.IsName known := by
  refine names_identifier.bind fun name ⟨isKnown, isName⟩ => ?_
  refine Yields.mark.bind fun assign _ => ?_
  refine shapes_optionValue.bind fun value _ => ?_
  exact Yields.mark.bind fun _ _ => .pure ⟨_, value, rfl, name, isKnown, isName, rfl⟩

theorem names_options : Yields known options (Tree.NamesTokens known) := by
  refine Yields.expect.bind fun opening _ => ?_
  refine names_option.many.bind fun entries areOptions => ?_
  exact Yields.mark.bind fun _ _ => .pure ⟨fun _ => areOptions, NodeKind.noConfusion⟩

theorem names_delegate : Yields known delegate fun entry => entry.IsName known ∨
    entry.kind = .assign ∧ ∃ name target, entry.children = [name, target] ∧
    target.IsName known := by
  refine names_identifier.bind fun name isName => ?_
  refine Yields.eat.bind fun found _ => ?_
  split
  · refine names_identifier.bind fun target isTarget =>
      .pure (Or.inr ⟨rfl, _, _, rfl, ?_⟩)
    exact ⟨target, isTarget.1, isTarget.2, rfl⟩
  · exact .pure (Or.inl ⟨name, isName.1, isName.2, rfl⟩)

theorem names_imports : Yields known imports (Tree.NamesTokens known) := by
  refine Yields.expect.bind fun keyword _ => ?_
  refine names_delegate.separated.bind fun delegates areDelegates => ?_
  exact Yields.mark.bind fun _ _ => .pure ⟨NodeKind.noConfusion, fun _ => areDelegates⟩

end Parse

namespace Reading

theorem names_sections {known : Token → Prop} {tokens : List Token}
    (areKnown : ∀ token ∈ tokens, known token) :
    ∀ tree ∈ (collect prequelStep tokens).1.trees, tree.NamesTokens known := by
  have other {construct : Parse Tree} {kinds : List NodeKind}
      (yields : construct.Yields known (Tree.IsShaped known .anywhere kinds))
        (noOptions : .options ∉ kinds)
      (noImports : .imports ∉ kinds) :
        construct.Yields known (Tree.NamesTokens known) := by
    refine yields.mono fun tree isShaped => .of_other ?_ ?_
    · exact fun isOptions => noOptions (isOptions ▸ isShaped.ofKinds)
    · exact fun isImports => noImports (isImports ▸ isShaped.ofKinds)
  refine (sections_keep (fun isSection => ?_) areKnown).1
  cases isSection with
  | options => exact Parse.names_options
  | tokenNames => exact other (Parse.shapes_nameSection rfl rfl) (by decide) (by decide)
  | channelNames => exact other (Parse.shapes_nameSection rfl rfl) (by decide) (by decide)
  | imports => exact Parse.names_imports
  | action => exact other Parse.shapes_namedAction (by decide) (by decide)

theorem names_children (tokens : List Token) :
    ∀ child ∈ (ofTokens tokens).tree.children, child.NamesTokens (· ∈ tokens) := by
  have areKnown : ∀ token ∈ tokens, token ∈ tokens := fun _ => id
  obtain ⟨line, lineEqual, _⟩ := header_spec tokens
  have behindLine := known_of_append lineEqual areKnown
  have ofModes := shapes_modes (shapes_rules (shapes_sections behindLine).2).2
  have children : (ofTokens tokens).tree.children = (header tokens).1.name.toList ++
        (collect prequelStep (behindHeader (header tokens).2).2).1.trees ++ [_] ++ _ :=
          rfl
  rw [children]
  simp only [forall_mem_append, forall_mem_singleton]
  refine ⟨⟨⟨?_, names_sections behindLine⟩,
    .of_other NodeKind.noConfusion NodeKind.noConfusion⟩, ?_⟩
  · intro name isName
    obtain ⟨part, isPart, ofKind⟩ := (shapes_headerName areKnown).follows.exists_part
      (mem_map_of_mem isName)
    cases mem_singleton.mp isPart
    have isIdentifier := mem_singleton.mp ofKind
    exact .of_other (by simp [isIdentifier]) (by simp [isIdentifier])
  · intro mode isMode
    have ofKind := mem_singleton.mp (shapes_found ofModes mode isMode).ofKinds
    exact .of_other (by simp [ofKind]) (by simp [ofKind])

end Reading

/-! ## Nodes -/

namespace Grammar

variable {source : String} {node : Node}

theorem quoted_of_token {token : Token} (member : node ∈ (ofSource source).tree.nodes)
    (isKnown : token ∈ significantTokens source) (isOneLine : token.kind.isOneLine = true)
    (own : node.tree.span = some token.span) (text : node.text = token.text) :
      node.Quoted source where
  member := member
  shows := ⟨token.span, own, text ▸ shows_of_mem isKnown⟩
  oneLine := text ▸ Token.not_break_of_isOneLine (mem_ofText isKnown) isOneLine

theorem quoted_of_isName (member : node ∈ (ofSource source).tree.nodes)
    (isName : node.tree.IsName (· ∈ significantTokens source)) : node.Quoted source := by
  obtain ⟨name, isKnown, isIdentifier, equal⟩ := isName
  refine quoted_of_token member isKnown ?_ (congrArg Tree.span equal)
    (congrArg Tree.text equal)
  rcases TokenKind.isIdentifier_iff.mp isIdentifier with isToken | isRule
  · rw [isToken]
    rfl
  · rw [isRule]
    rfl

/-- A label is the name that the source has at its span. -/
theorem shows_of_label {label : AltLabel} (member : node ∈ (ofSource source).tree.nodes)
    (hasLabel : node.tree.data.label = some label) :
    label.span.Shows source label.name ∧ '\n' ∉ label.name.toList := by
  have inner : node ≠ (ofSource source).tree.root := by
    rintro rfl
    cases hasLabel
  obtain ⟨token, isKnown, isName, rfl⟩ :=
    (Reading.worded_of_mem member inner).label label hasLabel
  exact ⟨shows_of_mem isKnown, Token.not_break_of_isIdentifier
    (mem_ofText isKnown) isName⟩

/-- Names, references, literals and sets are quoted, except for the values of options. -/
theorem quoted_of_isOneLine (member : node ∈ (ofSource source).tree.nodes)
    (isOneLine : node.kind.isOneLine = true)
    (outside : node.kind = .identifier → ¬node.InOption) : node.Quoted source := by
  have plain : node.kind.fixedText? = none := by
    cases kind : node.kind <;> rw [kind] at isOneLine <;> cases isOneLine <;> rfl
  cases (Reading.worded_of_mem member (ne_root_of_plain plain)).text with
  | byKind text =>
    rw [text] at plain
    cases plain
  | byToken isKnown _ shown own text =>
    refine quoted_of_token member isKnown ?_ own text
    rcases shown with isModifier | fitting
    · rw [isModifier] at isOneLine
      cases isOneLine
    · exact NodeKind.isOneLine_of_fits isOneLine fitting
  | byNames together joined equal =>
    have own : node.tree.span = some _ := congrArg Tree.span equal
    have isIdentifier : node.kind = .identifier := congrArg Tree.kind equal
    exact absurd (dottedValue_of_joined member together joined equal own).1.value
      (outside isIdentifier)

/-- A name that does not stand under an assignment is quoted. -/
theorem quoted_of_parent {parent : Node} (member : node ∈ (ofSource source).tree.nodes)
    (isName : node.kind = .identifier) (isParent : node.parent? = some parent)
    (other : parent.kind ≠ .assign) : node.Quoted source := by
  refine quoted_of_isOneLine member (by rw [isName]; rfl) fun _ inOption => ?_
  obtain ⟨option, options, isOption, isAssign, _⟩ := inOption
  cases isParent.symm.trans isOption
  exact other isAssign

end Grammar

end GrammarInspector
