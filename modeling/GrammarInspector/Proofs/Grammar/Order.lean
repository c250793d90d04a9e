import GrammarInspector.Proofs.Grammar.Sound.Reading

/-! # The nodes of a whole grammar

Every node of a grammar comes from its tokens, and pre-order follows the source with one
exception: rules behind a faulty `mode` line are put in front of all modes. Between such a
rule and a mode that precedes it in the source there are at least the keyword and the
semicolon of the faulty line.
-/

namespace GrammarInspector

open List

namespace Span

/-- Whether a span lies before another one with a `mode` line between them. -/
def BeforeMode (tokens : List Token) (other own : Span) : Prop :=
  ∃ first ∈ tokens, ∃ keyword ∈ tokens, ∃ semicolon ∈ tokens,
    first.span.start = other.start ∧ first.span.stop ≤ keyword.span.start ∧
      other.stop ≤ keyword.span.start ∧ keyword.kind = .keyword .mode ∧
      keyword.span.stop ≤ semicolon.span.start ∧ semicolon.span.stop ≤ own.start

theorem BeforeMode.mono {tokens more : List Token} {other own : Span}
    (before : BeforeMode tokens other own) (included : tokens ⊆ more) :
    BeforeMode more other own := by
  obtain ⟨first, firstMember, keyword, keywordMember, semicolon, semicolonMember,
      facts⟩ := before
  exact ⟨first, included firstMember, keyword, included keywordMember, semicolon,
    included semicolonMember, facts⟩

end Span

namespace Node

variable {tokens : List Token} {left right : Node}

/-- The order of two nodes of a grammar, the first of which precedes the other
in pre-order. -/
structure Follows (tokens : List Token) (left right : Node) : Prop where
  places : left.kind.isText = true → right.kind.isModifier = false →
    ∀ own other, left.tree.anchor = some own → right.tree.anchor = some other →
      own.stop ≤ other.start ∨ other.BeforeMode tokens own
  labels : (left.index, left.tree) ∉ right.above → ∀ own other,
    left.tree.data.label = some own → right.tree.data.label = some other →
      own.span.Apart other.span

theorem Precedes.follows (precedes : left.Precedes right) :
    left.Follows tokens right where
  places isText notModifier _ _ begins otherBegins :=
    Or.inl (precedes.places isText notModifier _ _ begins otherBegins)
  labels apart _ _ hasLabel otherLabel :=
    Or.inl (precedes.labels apart _ _ hasLabel otherLabel)

theorem Follows.mono {more : List Token} (follows : left.Follows tokens right)
    (included : tokens ⊆ more) : left.Follows more right where
  places isText notModifier _ _ begins otherBegins :=
    (follows.places isText notModifier _ _ begins otherBegins).imp_right (·.mono included)
  labels := follows.labels

/-- Whether a node belongs to a tree that was built from some tokens. -/
def BuiltFrom (tokens : List Token) (node : Node) : Prop :=
  ∃ trees index above, Tree.Built (fun _ => True) false tokens trees ∧
    node ∈ ofTrees index above trees

theorem BuiltFrom.lies {node : Node} (built : node.BuiltFrom tokens) :
    node.Lies tokens := by
  obtain ⟨trees, index, above, built, member⟩ := built
  exact built.lies member

end Node

namespace Reading

variable {modes : List (List Token × ModeSection)} {taken tokens : List Token}
  {found : ModeSection} {index : Nat} {above : List (Nat × Tree)} {node : Node}

/-! ## Modes and strays -/

theorem built_mode (took : TookMode taken found) :
    Tree.Built (fun _ => True) false taken found.mode.toList := by
  cases took with
  | mode _ built _ => exact built
  | strays _ _ => exact .of_forall fun _ _ => trivial

theorem built_stray (took : TookMode taken found) :
    Tree.Built (fun _ => True) false taken found.strays := by
  cases took with
  | mode _ _ _ => exact .of_forall fun _ _ => trivial
  | @strays line behind trees fault faults _ built =>
    have passed : Tree.Built (fun _ => True) false line [] :=
      .of_forall fun _ _ => trivial
    exact passed.append built

theorem filterMap_mode_cons (part : List Token × ModeSection) :
    (part :: modes).filterMap (·.2.mode) =
      part.2.mode.toList ++ modes.filterMap (·.2.mode) := by
  rw [filterMap_cons]
  cases part.2.mode <;> rfl

theorem built_modes (took : ∀ part ∈ modes, TookMode part.1 part.2) :
    Tree.Built (fun _ => True) false (modes.flatMap (·.1))
      (modes.filterMap (·.2.mode)) := by
  induction modes with
  | nil => exact .nothing
  | cons part rest induction =>
    obtain ⟨head, tail⟩ := forall_mem_cons.mp took
    rw [filterMap_mode_cons]
    exact (built_mode head).append (induction tail)

theorem built_strays (took : ∀ part ∈ modes, TookMode part.1 part.2) :
    Tree.Built (fun _ => True) false (modes.flatMap (·.1))
      (modes.flatMap (·.2.strays)) := by
  induction modes with
  | nil => exact .nothing
  | cons part rest induction =>
    obtain ⟨head, tail⟩ := forall_mem_cons.mp took
    exact (built_stray head).append (induction tail)

/-- A stray has a faulty `mode` line in front of it. -/
theorem marks_of_stray (took : ∀ part ∈ modes, TookMode part.1 part.2)
    (ordered : Token.Ordered (modes.flatMap (·.1)))
    (member : node ∈ Node.ofTrees index above (modes.flatMap (·.2.strays))) {own : Span}
    (begins : node.tree.anchor = some own) :
    ∃ keyword ∈ modes.flatMap (·.1), ∃ semicolon ∈ modes.flatMap (·.1),
      keyword.kind = .keyword .mode ∧ keyword.span.stop ≤ semicolon.span.start ∧
      semicolon.span.stop ≤ own.start := by
  induction modes generalizing index with
  | nil => simp at member
  | cons part rest induction =>
    obtain ⟨head, tail⟩ := forall_mem_cons.mp took
    obtain ⟨headOrdered, tailOrdered, _⟩ := pairwise_append.mp ordered
    rw [flatMap_cons, Node.ofTrees_append, mem_append] at member
    rcases member with here | later
    · obtain ⟨taken, found⟩ := part
      cases head with
      | mode _ _ _ => simp at here
      | @strays line behind trees fault faults marks built =>
        have some : trees ≠ [] := by
          rintro rfl
          simp at here
        obtain ⟨keyword, skipped, semicolon, rfl, isMode, isSemicolon⟩ := marks some
        obtain ⟨lineOrdered, _, _⟩ := pairwise_append.mp headOrdered
        have onLine := (pairwise_append.mp lineOrdered).2.2 keyword (by simp) semicolon
          (by simp)
        have semicolonFrom : semicolon.span.From (keyword :: skipped ++ [semicolon]) :=
          Span.from_of_mem (by simp)
        refine ⟨keyword, by simp, semicolon, by simp, isMode, onLine, ?_⟩
        exact semicolonFrom.precedes headOrdered (built.anchor_from here begins)
    · obtain ⟨keyword, keywordMember, semicolon, semicolonMember, facts⟩ :=
        induction tail tailOrdered later
      exact ⟨keyword, mem_append_right _ keywordMember, semicolon,
        mem_append_right _ semicolonMember, facts⟩

/-- A stray was built in front of a mode, or behind it and the tokens of some sections. -/
theorem built_of_stray (took : ∀ part ∈ modes, TookMode part.1 part.2) {otherIndex : Nat}
    {otherAbove : List (Nat × Tree)} {stray mode : Node}
    (isStray : stray ∈ Node.ofTrees index above (modes.flatMap (·.2.strays)))
    (isMode : mode ∈ Node.ofTrees otherIndex otherAbove (modes.filterMap (·.2.mode))) :
    ∃ (first : List Token) (behind : List (List Token × ModeSection)),
      first ++ behind.flatMap (·.1) <:+: modes.flatMap (·.1) ∧
      (∀ part ∈ behind, TookMode part.1 part.2) ∧
      (stray.BuiltFrom first ∧ mode.BuiltFrom (behind.flatMap (·.1)) ∨
        mode.BuiltFrom first ∧
          ∃ index above, stray ∈ Node.ofTrees index above
            (behind.flatMap (·.2.strays))) := by
  induction modes generalizing index otherIndex with
  | nil => simp at isStray
  | cons part rest induction =>
    obtain ⟨head, tail⟩ := forall_mem_cons.mp took
    rw [flatMap_cons, Node.ofTrees_append, mem_append] at isStray
    rw [filterMap_mode_cons, Node.ofTrees_append, mem_append] at isMode
    rcases isStray with here | later
    · rcases isMode with same | behind
      · obtain ⟨taken, found⟩ := part
        cases head with
        | mode _ _ _ => simp at here
        | strays _ _ => simp at same
      · exact ⟨part.1, rest, infix_rfl, tail,
          Or.inl ⟨⟨_, _, _, built_stray head, here⟩, _, _, _, built_modes tail, behind⟩⟩
    · rcases isMode with before | behind
      · exact ⟨part.1, rest, infix_rfl, tail,
          Or.inr ⟨⟨_, _, _, built_mode head, before⟩, _, _, later⟩⟩
      · obtain ⟨first, parts, within, found⟩ := induction tail later behind
        exact ⟨first, parts, within.trans (suffix_append ..).isInfix, found⟩

/-- Strays precede modes in pre-order, and in the source too or with a `mode` line
between them. -/
theorem follows_of_stray (took : ∀ part ∈ modes, TookMode part.1 part.2)
    (ordered : Token.Ordered (modes.flatMap (·.1))) {otherIndex : Nat}
    {otherAbove : List (Nat × Tree)} {other : Node}
    (member : node ∈ Node.ofTrees index above (modes.flatMap (·.2.strays)))
    (otherMember : other ∈ Node.ofTrees otherIndex otherAbove
      (modes.filterMap (·.2.mode))) :
    node.Follows (modes.flatMap (·.1)) other := by
  obtain ⟨tokens, behind, within, tail, ⟨isFirst, isSecond⟩ | ⟨isFirst, _, _, later⟩⟩ :=
    built_of_stray took member otherMember
  · exact (isFirst.lies.ahead (ordered.sublist within.sublist)
      isSecond.lies).precedes.follows
  have partOrdered := ordered.sublist within.sublist
  obtain ⟨_, tailOrdered, across⟩ := pairwise_append.mp partOrdered
  refine ⟨fun _ _ own otherOwn ownBegins otherBegins => Or.inr ?_,
    fun _ _ _ hasLabel otherLabel => ?_⟩
  · obtain ⟨keyword, isKeyword, semicolon, isSemicolon, isMode, onLine, inFront⟩ :=
      marks_of_stray tail tailOrdered later ownBegins
    obtain ⟨⟨first, firstMember, start⟩, last, lastMember, stop⟩ :=
      isFirst.lies.anchor _ otherBegins
    refine Span.BeforeMode.mono ⟨first, mem_append_left _ firstMember, keyword,
      mem_append_right _ isKeyword, semicolon, mem_append_right _ isSemicolon, start,
      across _ firstMember _ isKeyword, ?_, isMode, onLine, inFront⟩ within.subset
    rw [← stop]
    exact across _ lastMember _ isKeyword
  · have ahead := isFirst.lies.ahead partOrdered ((built_strays tail).lies later)
    exact Or.inr (ahead.labels _ _ otherLabel hasLabel)

/-! ## Whole grammars -/

namespace Division

variable (division : Division tokens)

/-- The tokens of all modes and strays. -/
def modeTokens : List Token := division.modes.flatMap (·.1)

/-- The rules outside of modes. -/
def ruleTrees : List Tree :=
  division.declared.trees ++ division.modes.flatMap (·.2.strays)

/-- What stands in front of the rules. -/
def frontTrees : List Tree := division.line.name.toList ++ division.sections.trees

def frontTokens : List Token := division.lineTokens ++ division.sectionTokens

theorem tokens_split : tokens =
    division.frontTokens ++
      (division.declaredTokens ++ (division.modeTokens ++ division.left)) := by
  rw [frontTokens, append_assoc]
  exact division.tokens_eq

theorem frontTokens_infix : division.frontTokens <:+: tokens :=
  ⟨[], _, division.tokens_split.symm⟩

theorem ruleTokens_infix :
    division.declaredTokens ++ division.modeTokens <:+: tokens := by
  refine ⟨division.frontTokens, division.left, ?_⟩
  rw [append_assoc, append_assoc]
  exact division.tokens_split.symm

theorem modeTokens_infix : division.modeTokens <:+: tokens :=
  (suffix_append ..).isInfix.trans division.ruleTokens_infix

/-- The modes. -/
def modeTrees : List Tree := division.modes.filterMap (·.2.mode)

theorem ordered (inOrder : Token.Ordered tokens) :
    Token.Ordered (division.frontTokens ++
      (division.declaredTokens ++ division.modeTokens)) := by
  have split := (congrArg Token.Ordered division.tokens_split).mp inOrder
  rw [← append_assoc division.declaredTokens, ← append_assoc] at split
  exact (pairwise_append.mp split).1

theorem built_frontTrees :
    Tree.Built (fun _ => True) false division.frontTokens division.frontTrees :=
  division.tookLine.built.append division.tookSections.built

theorem built_ruleTrees :
    Tree.Built (fun _ => True) false (division.declaredTokens ++ division.modeTokens)
      [.group .rules division.ruleTrees] :=
  .group rfl (division.tookDeclared.built.append (built_strays division.tookModes))

/-- What stands in front of the rules is ahead of the modes. -/
theorem front_ahead (inOrder : Token.Ordered tokens) {index otherIndex : Nat}
    {above otherAbove : List (Nat × Tree)} {node other : Node}
    (member : node ∈ Node.ofTrees index above division.frontTrees)
    (otherMember : other ∈ Node.ofTrees otherIndex otherAbove division.modeTrees) :
    node.Ahead other := by
  have passed : Tree.Built (fun _ => True) false division.declaredTokens [] :=
    .of_forall fun _ _ => trivial
  exact (division.built_frontTrees.lies member).ahead (division.ordered inOrder)
    ((passed.append (built_modes division.tookModes)).lies otherMember)

end Division

/-- Every node below the root was built from tokens of the grammar, with trees that stand
outside of rule bodies. -/
theorem exists_built_of_mem (member : node ∈ (ofTokens tokens).tree.nodes) :
    node.kind = .grammar ∧ node = (ofTokens tokens).tree.root ∨ ∃ taken trees index above,
      taken <:+: tokens ∧
      Tree.Built (fun _ => True) false taken trees ∧
      node ∈ Node.ofTrees index above trees ∧
      Walk.inBodyOf above = false := by
  obtain ⟨division⟩ := nonempty_division tokens
  rw [division.tree_eq, Tree.nodes_eq, Node.ofTree_node, mem_cons, Node.ofTrees_append,
    Node.ofTrees_append, mem_append, mem_append] at member
  rcases member with rfl | (inFront | inRules) | inModes
  · exact Or.inl ⟨rfl, congrArg Tree.root division.tree_eq.symm⟩
  · exact Or.inr ⟨_, _, _, _, division.frontTokens_infix, division.built_frontTrees,
      inFront, rfl⟩
  · exact Or.inr ⟨_, _, _, _, division.ruleTokens_infix, division.built_ruleTrees,
      inRules, rfl⟩
  · exact Or.inr ⟨_, _, _, _, division.modeTokens_infix, built_modes division.tookModes,
      inModes, rfl⟩

theorem sourced_of_mem (member : node ∈ (ofTokens tokens).tree.nodes) : node.Sourced := by
  rcases exists_built_of_mem member with
    ⟨isRoot, _⟩ | ⟨_, _, _, _, _, built, inside, outside⟩
  · refine .of_neither (by rw [isRoot]; rfl) ?_ ?_ <;> rw [isRoot] <;> nofun
  · exact built.sourced inside outside

/-- The texts of all nodes but the root come from kinds and tokens. -/
theorem worded_of_mem (member : node ∈ (ofTokens tokens).tree.nodes)
    (inner : node ≠ (ofTokens tokens).tree.root) : node.Worded tokens := by
  obtain ⟨_, _, _, _, part, built, inside, _⟩ :=
    (exists_built_of_mem member).resolve_left fun root => inner root.2
  exact (built.worded inside).mono part

theorem shown_of_mem (member : node ∈ (ofTokens tokens).tree.nodes)
    (isText : node.kind.isText = true) (single : node.kind ≠ .identifier) :
    ∃ token ∈ tokens, node.kind.fits token.kind = true ∧
      node.tree.span = some token.span ∧
      node.text = token.text :=
  (worded_of_mem member (by rintro rfl; cases isText)).shown isText single

/-- Every node below the root begins and ends with tokens of the grammar. -/
theorem anchor_from_of_mem (member : node ∈ (ofTokens tokens).tree.nodes)
    (inner : node.kind ≠ .grammar) {span : Span} (begins : node.tree.anchor = some span) :
    span.From tokens := by
  obtain ⟨_, _, _, _, part, built, inside, _⟩ :=
    (exists_built_of_mem member).resolve_left fun root => inner root.1
  exact (built.anchor_from inside begins).mono part.subset

theorem pairwise_follows (ordered : Token.Ordered tokens) :
    (ofTokens tokens).tree.nodes.Pairwise (Node.Follows tokens) := by
  obtain ⟨division⟩ := nonempty_division tokens
  have modesBuilt := built_modes division.tookModes
  have frontOrdered := division.ordered ordered
  have behindOrdered := (pairwise_append.mp frontOrdered).2.1
  have modesOrdered := (pairwise_append.mp behindOrdered).2.1
  rw [division.tree_eq, Tree.nodes_eq, Node.ofTree_node, pairwise_cons]
  rw [Node.ofTrees_append, pairwise_append]
  refine ⟨?_, ?_, ?_, ?_⟩
  · exact fun _ _ => Node.Precedes.follows (.of_neither Bool.false_ne_true rfl)
  · have built := division.built_frontTrees.append division.built_ruleTrees
    exact (built.pairwise_precedes frontOrdered _ _).imp Node.Precedes.follows
  · exact (modesBuilt.pairwise_precedes modesOrdered _ _).imp Node.Precedes.follows
  · intro node member other otherMember
    rw [Node.ofTrees_append, mem_append] at member
    rcases member with inFront | inRules
    · exact (division.front_ahead ordered inFront otherMember).precedes.follows
    · rcases Node.mem_ofTrees_singleton.mp inRules with isGroup | inside
      · subst isGroup
        exact Node.Precedes.follows (.of_neither Bool.false_ne_true rfl)
      · rw [Node.ofTrees_append, mem_append] at inside
        rcases inside with inDeclared | isStray
        · exact ((division.tookDeclared.built.lies inDeclared).ahead behindOrdered
            (modesBuilt.lies otherMember)).precedes.follows
        · refine (follows_of_stray division.tookModes modesOrdered isStray
            otherMember).mono ?_
          exact division.modeTokens_infix.subset

end Reading

end GrammarInspector
