import GrammarInspector.Proofs.Grammar.Sound.Prequel
import GrammarInspector.Proofs.Tree.Origin

/-! # Alternatives are read as their productions say

Elements, alternatives and blocks. A block can hold blocks, so the statements about what
lies between take what the inner blocks ensure as a hypothesis, and the statement about
blocks is proved by induction on the number of tokens.
-/

namespace GrammarInspector.Parse

open List

variable {inBody : Bool} {flavour : RuleFlavour} {kind : NodeKind} {shown : TokenKind}
  {passes : Token → Prop} {taken : List Token} {expression : Ebnf}

/-! ## Options of elements -/

theorem ensures_elementOptionValue :
    ReadsAs elementOptionValue (.oneOf [.identifier, .terminal .literal, .terminal .int])
      false := by
  refine .peek fun kind => ?_
  split
  · exact ensures_identifierLeaf.oneOf (by simp)
  · exact ensures_identifierLeaf.oneOf (by simp)
  · exact (ensures_leaf rfl rfl).oneOf (by simp)
  · exact (ensures_leaf rfl rfl).oneOf (by simp)
  · exact .fail

theorem ensures_elementOption : ReadsAs elementOption .elementOption false := by
  refine Ensures.identifier.bind ?_
  rintro name _ ⟨rfl, isName⟩
  refine (Ensures.eat _).bind ?_
  rintro found _ ⟨rfl, isAssign⟩
  cases found with
  | none => exact .pure ((Reads.identifier isName).ended (Reads.absent.cons .nil))
  | some assign =>
    refine ensures_elementOptionValue.returns fun taken value reads => ?_
    refine .holderAt rfl (by simp)
      ((Reads.identifier isName).cons (Reads.last (.present ?_)))
    exact (Reads.mark (isAssign _ rfl)).cons reads.last

theorem ensures_elementOptions (inBody : Bool) :
    ReadsAs elementOptions (.construct .elementOptions) inBody := by
  refine (Ensures.mark _).bind ?_
  rintro opening _ ⟨rfl, isOpening⟩
  refine (ensures_separatedTrees ensures_elementOption).bind fun entries taken reads => ?_
  refine (Ensures.mark _).bind ?_
  rintro closing _ ⟨rfl, isClosing⟩
  refine .pure (.construct (.holderAt rfl (by simp) ?_))
  exact (Reads.mark isOpening).cons (reads.ended ((Reads.mark isClosing).cons .nil))

theorem ensures_elementOptions? (inBody : Bool) :
    Ensures elementOptions? (Reads (.optional (.construct .elementOptions)) inBody) := by
  refine .peek fun kind => ?_
  split
  · exact (ensures_elementOptions inBody).returns fun taken options reads => reads.present
  · exact .pure .absent

/-! ## Atoms -/

theorem ensures_characterRange : ReadsAs characterRange .range inBody := by
  refine (Ensures.expect _).bind ?_
  rintro first _ ⟨rfl, isFirst⟩
  refine (Ensures.mark _).bind ?_
  rintro dots _ ⟨rfl, areDots⟩
  refine (Ensures.expect _).bind ?_
  rintro last _ ⟨rfl, isLast⟩
  refine .pure (.holderAt rfl (by simp) ?_)
  exact (Reads.leaf isFirst rfl rfl).cons
    ((Reads.mark areDots).cons ((Reads.leaf isLast rfl rfl).cons .nil))

theorem ensures_setElement :
    ReadsAs (setElement flavour) (.construct (.setElement flavour)) true := by
  refine .peek fun first => .peekSecond fun second => ?_
  split
  · exact .construct ((ensures_leaf rfl rfl).oneOf (by simp))
  · exact .construct (ensures_characterRange.oneOf (by simp))
  · exact .construct ((ensures_leaf rfl rfl).oneOf (by simp))
  · split
    · rename_i isLexer
      subst isLexer
      exact .construct ((ensures_leaf rfl rfl).oneOf (by simp [Ebnf.charSet]))
    · exact .fail
  · exact .fail

theorem ensures_complement : ReadsAs (complement flavour) (.complement flavour) true := by
  refine (Ensures.mark _).bind ?_
  rintro tilde _ ⟨rfl, isTilde⟩
  refine (Ensures.eat _).bind ?_
  rintro found _ ⟨rfl, isOpening⟩
  cases found with
  | none =>
    refine ensures_setElement.returns fun taken element reads => ?_
    refine .holderAt rfl (by simp) (.group rfl ?_)
    exact (Reads.mark isTilde).cons (reads.oneOf (by simp)).last
  | some opening =>
    refine (ensures_separatedTrees ensures_setElement).bind fun elements taken reads => ?_
    refine (Ensures.mark _).bind ?_
    rintro closing _ ⟨rfl, isClosing⟩
    refine .pure (.holderAt rfl (by simp) (.group rfl ?_))
    have inside :=
      (Reads.mark (isOpening _ rfl)).cons (reads.ended (Reads.mark isClosing).last)
    exact (Reads.mark isTilde).cons (inside.oneOf (by simp)).last

theorem ensures_arguments? (inBody : Bool) :
    Ensures (arguments? flavour) (Reads (.arguments flavour) inBody) := by
  cases flavour with
  | lexer => exact .pure .nil
  | parser =>
    refine (Ensures.eat _).bind ?_
    rintro found _ ⟨rfl, isBracket⟩
    cases found with
    | none => exact .pure .absent
    | some token => exact .pure (.present (.leaf (isBracket _ rfl) rfl rfl))

theorem ensures_leafWithOptions (fitting : kind.fits shown = true)
    (place : (!kind.isName || inBody) = true) :
    ReadsAs (do
      let token ← expect shown
      return (Tree.leaf kind token).append (← elementOptions?))
        (.sequence [.terminal shown, .optional (.construct .elementOptions)]) inBody := by
  refine (Ensures.expect _).bind ?_
  rintro token _ ⟨rfl, isToken⟩
  refine (ensures_elementOptions? inBody).returns fun taken options reads => ?_
  exact .leafWith isToken fitting place reads.last

theorem ensures_ruleReference :
    ReadsAs (do
      let reference ← expect .ruleRef
      let arguments ← arguments? flavour
      return (Tree.leaf .ruleRef reference).append (arguments ++ (← elementOptions?)))
        (.sequence [.terminal .ruleRef, .arguments flavour,
          .optional (.construct .elementOptions)]) true := by
  refine (Ensures.expect _).bind ?_
  rintro token _ ⟨rfl, isToken⟩
  refine (ensures_arguments? true).bind fun arguments argumentsTaken argumentsRead => ?_
  refine (ensures_elementOptions? true).returns fun taken options reads => ?_
  exact .leafWith isToken rfl rfl (argumentsRead.cons reads.last)

theorem ensures_wildcard :
    ReadsAs (do
      let dot ← mark .dot
      return Tree.builtAt .wildcard dot.span (← elementOptions?))
        (.sequence [.mark .dot, .optional (.construct .elementOptions)]) true := by
  refine (Ensures.mark _).bind ?_
  rintro dot _ ⟨rfl, isDot⟩
  refine (ensures_elementOptions? true).returns fun taken options reads => ?_
  exact .holderAt rfl (by simp) ((Reads.mark isDot).cons reads.last)

theorem ensures_atom : ReadsAs (atom flavour) (.construct (.atom flavour)) true := by
  refine .peek fun first => .peekSecond fun second => ?_
  split
  · exact .construct ((ensures_leafWithOptions rfl rfl).oneOf (by simp))
  · exact .construct (ensures_ruleReference.oneOf (by simp))
  · exact .construct (ensures_characterRange.oneOf (by simp))
  · exact .construct ((ensures_leafWithOptions rfl rfl).oneOf (by simp))
  · split
    · rename_i isLexer
      subst isLexer
      exact .construct ((ensures_leaf rfl rfl).oneOf (by simp [Ebnf.charSet]))
    · exact .fail
  · exact .construct (ensures_wildcard.oneOf (by simp))
  · exact .construct (ensures_complement.oneOf (by simp))
  · exact .fail

/-! ## Elements -/

theorem elementStart_from {element : Tree}
    (built : Tree.Built passes inBody taken [element]) {span : Span}
    (begins : elementStart element = some span) : span.From taken := by
  have whole : ⟨0, element, []⟩ ∈ Node.ofTrees 0 [] [element] := Node.root_mem_ofTrees ..
  have first {child : Tree} (isFirst : element.firstChild? = some child)
      (childBegins : child.anchor = some span) : span.From taken := by
    have childNode : Node.firstChild? ⟨0, element, []⟩ =
        some ⟨1, child, [(0, element)]⟩ := by
      rw [Node.firstChild?_eq, isFirst]
      rfl
    exact built.anchor_from (Node.firstChild_mem_ofTrees _ whole childNode) childBegins
  unfold elementStart at begins
  split at begins
  · obtain ⟨child, isFirst, childBegins⟩ := Option.bind_eq_some_iff.mp begins
    exact first isFirst childBegins
  · obtain ⟨child, isFirst, childBegins⟩ := Option.bind_eq_some_iff.mp begins
    exact first isFirst childBegins
  · exact built.anchor_from whole begins

/-- The block that a suffix wraps is built from the tokens of the element. -/
theorem built_suffixBlock {element : Tree}
    (built : Tree.Built passes true taken [element]) :
    Tree.Built passes true taken [suffixBlock element] := by
  unfold suffixBlock
  split
  · exact built
  · refine .holder rfl (fun own begins => elementStart_from built begins)
      (.holder rfl ?_ built)
    intro own begins
    cases begins

/-- The tokens of a suffix and the nodes they become. -/
theorem suffixKind?_eq_some (isSuffix : suffixKind? shown = some kind) :
    kind.isHolder = true ∧ Node.bodyBelow true kind = true ∧ shown.isText = false ∧
      (Ebnf.oneOf [.mark .question, .mark .star, .mark .plus]).Derives [shown] := by
  unfold suffixKind? at isSuffix
  split at isSuffix
  · cases isSuffix
    exact ⟨rfl, rfl, rfl, .oneOf (mem_cons_self ..) (.terminal _)⟩
  · cases isSuffix
    exact ⟨rfl, rfl, rfl, .oneOf (mem_cons_of_mem _ (mem_cons_self ..)) (.terminal _)⟩
  · cases isSuffix
    exact ⟨rfl, rfl, rfl, .oneOf (mem_cons_of_mem _ (mem_cons_of_mem _
      (mem_cons_self ..))) (.terminal _)⟩
  · cases isSuffix

/-- An element with its suffix, if one follows. The phrase is the element's own phrase
with an optional suffix behind it, whatever the expression that allows it. -/
theorem ensures_suffixed {element : Tree}
    (derives : ∀ more, (Ebnf.optional .suffix).Derives more →
      expression.Derives (taken.map Token.kind ++ more))
    (built : Tree.Built (fun token => token.kind.isText = false) true taken [element]) :
    Ensures (suffixed element) fun more tree =>
      Reads expression true (taken ++ more) [tree] := by
  have bare : Reads expression true (taken ++ []) [element] := by
    rw [append_nil]
    refine ⟨?_, built⟩
    rw [← append_nil (taken.map Token.kind)]
    exact derives _ (Ebnf.derives_optional.mpr (Or.inl rfl))
  have wrapped {suffix : Token} {kind : NodeKind}
      (isSuffix : suffixKind? suffix.kind = some kind) :
      Ensures (do
        let _ ← eat (.punctuation .question)
        return Tree.builtAt kind suffix.span [suffixBlock element]) fun more tree =>
        Reads expression true (taken ++ suffix :: more) [tree] := by
    obtain ⟨isHolder, inside, structural, derivesSuffix⟩ := suffixKind?_eq_some isSuffix
    refine (Ensures.eat _).returns ?_
    rintro _ found ⟨rfl, isQuestion⟩
    have lazily : Reads (.optional (.mark .question)) true found.toList [] := by
      cases found with
      | none => exact .absent
      | some question => exact .present (.mark (isQuestion _ rfl))
    have marks : Reads .suffix true (suffix :: found.toList) [] :=
      Reads.cons ⟨derivesSuffix, .passed structural⟩ lazily.last
    refine .holderAt isHolder (by simp) ⟨?_, ?_⟩
    · rw [map_append]
      exact derives _ (Ebnf.derives_optional.mpr (Or.inr marks.derives))
    · rw [inside]
      exact (built_suffixBlock built).append marks.built
  constructor
  · intro tokens tree rest outcome
    cases tokens with
    | nil =>
      cases outcome
      exact ⟨[], rfl, bare⟩
    | cons suffix following =>
      rw [suffixed] at outcome
      split at outcome
      · cases outcome
        exact ⟨[], rfl, bare⟩
      · rename_i kind isSuffix
        obtain ⟨more, rfl, reads⟩ := (wrapped isSuffix).done outcome
        exact ⟨suffix :: more, rfl, reads⟩
  · intro tokens expected rest outcome
    cases tokens with
    | nil => cases outcome
    | cons suffix following =>
      rw [suffixed] at outcome
      split at outcome
      · cases outcome
      · rename_i kind isSuffix
        exact ((wrapped isSuffix).failed outcome).trans (suffix_cons ..)

theorem ensures_labelTarget {block : Parse Tree}
    (inner : ReadsAs block (.construct (.block flavour)) true) :
    ReadsAs (labelTarget block flavour)
      (.oneOf [.construct (.atom flavour), .construct (.block flavour)]) true := by
  refine .peek fun kind => ?_
  split
  · exact inner.oneOf (by simp)
  · exact ensures_atom.oneOf (by simp)

theorem ensures_labelled {block : Parse Tree}
    (inner : ReadsAs block (.construct (.block flavour)) true) :
    ReadsAs (labelled block flavour) (.sequence [.optional .label,
        .oneOf [.construct (.atom flavour), .construct (.block flavour)]]) true := by
  refine Ensures.identifier.bind ?_
  rintro label _ ⟨rfl, isName⟩
  refine (Ensures.take _ _).bind ?_
  rintro operator _ ⟨rfl, isOperator⟩
  have operation : Reads (.oneOf [.mark .equals, .mark .plusEquals]) true
      [operator] [] := by
    rw [Bool.or_eq_true, decide_eq_true_iff, decide_eq_true_iff] at isOperator
    rcases isOperator with isEquals | isPlusEquals
    · exact (Reads.mark isEquals).oneOf (by simp)
    · exact (Reads.mark isPlusEquals).oneOf (by simp)
  have whole : Reads .label true [label, operator] [.leaf .identifier label] :=
    (Reads.identifier isName).cons operation.last
  refine (ensures_labelTarget inner).returns fun taken target reads => ?_
  have both := whole.present.cons reads.last
  split
  · exact .holderAt rfl (by simp) both
  · exact .holderAt rfl (by simp) both

theorem ensures_element {block : Parse Tree}
    (inner : ReadsAs block (.construct (.block flavour)) true) :
    ReadsAs (element block flavour) (.construct (.element flavour)) true := by
  -- What can have a suffix, with the suffix behind it.
  have ending {taken : List Token} {tree : Tree}
      (reads : Reads (.sequence [.optional .label,
        .oneOf [.construct (.atom flavour), .construct (.block flavour)]]) true
          taken [tree]) :
      Ensures (suffixed tree) fun more tree =>
        Reads (.construct (.element flavour)) true (taken ++ more) [tree] := by
    refine ensures_suffixed (fun more suffix => ?_) reads.built
    have derivation := reads.derives.append (.cons suffix .nil)
    rw [append_nil] at derivation
    exact .construct (.oneOf (by simp) derivation)
  have plain {part : Ebnf} {taken : List Token} {tree : Tree}
      (reads : Reads part true taken [tree])
      (member : part ∈ [.construct (.atom flavour), .construct (.block flavour)]) :=
    ending (Reads.absent.cons (reads.oneOf member).last)
  refine .peek fun first => .peekSecond fun second => ?_
  split
  · exact (ensures_labelled inner).bind fun tree taken reads => ending reads
  · split
    · exact inner.bind fun tree taken reads => plain reads (by simp)
    · exact .construct ((ensures_leaf rfl rfl).oneOf (by simp))
    · exact .construct ((ensures_leaf rfl rfl).oneOf (by simp))
    · exact ensures_atom.bind fun tree taken reads => plain reads (by simp)

/-! ## Commands -/

theorem ensures_commandArgument (inBody : Bool) :
    ReadsAs commandArgument (.oneOf [.identifier, .terminal .int]) inBody := by
  refine .peek fun kind => ?_
  split
  · exact ensures_identifierLeaf.oneOf (by simp)
  · exact ensures_identifierLeaf.oneOf (by simp)
  · exact (ensures_leaf rfl rfl).oneOf (by simp)
  · exact .fail

theorem reads_commandName {token : Token} (isName : namesCommand token.kind = true) :
    Reads (.oneOf [.identifier, .keyword .mode]) inBody [token]
      [.leaf .identifier token] := by
  cases kind : token.kind with
  | tokenRef => exact (Reads.identifier (by rw [kind]; rfl)).oneOf (by simp)
  | ruleRef => exact (Reads.identifier (by rw [kind]; rfl)).oneOf (by simp)
  | keyword word =>
    rw [kind] at isName
    cases word with
    | mode => exact (Reads.leaf kind rfl rfl).oneOf (by simp [Ebnf.keyword])
    | _ => cases isName
  | _ =>
    rw [kind] at isName
    cases isName

theorem ensures_command (inBody : Bool) :
    ReadsAs command (.construct .command) inBody := by
  refine (Ensures.take _ _).bind ?_
  rintro name _ ⟨rfl, isName⟩
  refine (Ensures.eat _).bind ?_
  rintro found _ ⟨rfl, isOpening⟩
  cases found with
  | none =>
    exact .pure (.construct ((reads_commandName isName).ended (Reads.absent.cons .nil)))
  | some opening =>
    refine (ensures_commandArgument inBody).bind fun argument taken reads => ?_
    refine (Ensures.mark _).bind ?_
    rintro closing _ ⟨rfl, isClosing⟩
    refine .pure (.construct (.group rfl ?_))
    have inside : Reads .commandArgument inBody (opening :: (taken ++ [closing]))
        [argument] :=
      (Reads.mark (isOpening _ rfl)).cons (reads.ended (Reads.mark isClosing).last)
    exact (reads_commandName isName).cons inside.present.last

/-! ## Alternatives and blocks -/

theorem ensures_alternativeOptions? :
    Ensures (alternativeOptions? flavour) (Reads (.alternativeOptions flavour) true) := by
  cases flavour with
  | parser => exact ensures_elementOptions? true
  | lexer => exact .pure .nil

/-- The elements of an alternative, or the node that stands for none. -/
theorem reads_elementsOrEpsilon {elements : List Tree}
    (reads : Reads expression true taken elements) :
    Reads expression true taken
      (if elements.isEmpty then [Tree.group .epsilon []] else elements) := by
  cases elements with
  | nil =>
    have built := reads.built.append .epsilon
    rw [append_nil] at built
    exact ⟨reads.derives, built⟩
  | cons first rest => exact reads

/-- What is known of an alternative. One of the parser is a plain group, so that a label
can be put on it. -/
structure ReadsAlternative (flavour : RuleFlavour) (taken : List Token)
    (tree : Tree) : Prop where
  reads : Reads (.construct (.alternative flavour)) true taken [tree]
  plain : flavour = .parser → ∃ children, tree = .group .alternative children ∧
    Tree.Built (fun token => token.kind.isText = false) true taken children

theorem reads_noCommands : Reads (.commands flavour) true [] [] := by
  cases flavour with
  | parser => exact .nil
  | lexer => exact .absent

theorem ensures_alternative {block : Parse Tree}
    (inner : ReadsAs block (.construct (.block flavour)) true) :
    Ensures (alternative block flavour) (ReadsAlternative flavour) := by
  refine ensures_alternativeOptions?.bind fun options optionsTaken optionsRead => ?_
  refine (ensures_manyTrees (ensures_element inner)).bind
    fun elements elementsTaken reads => ?_
  have bodyRead := reads_elementsOrEpsilon reads
  have built := optionsRead.built.append bodyRead.built
  have bare : ReadsAlternative flavour (optionsTaken ++ (elementsTaken ++ []))
      (Tree.group .alternative (options ++
        if elements.isEmpty then [Tree.group .epsilon []] else elements)) := by
    refine ⟨.construct (.group rfl ?_), fun _ => ⟨_, rfl, ?_⟩⟩
    · exact optionsRead.cons (bodyRead.ended (reads_noCommands.cons .nil))
    · rw [append_nil]
      exact built
  refine .peek fun kind => ?_
  split
  · split
    · rename_i isLexer
      subst isLexer
      refine (Ensures.mark _).bind ?_
      rintro arrow _ ⟨rfl, isArrow⟩
      refine (ensures_separatedTrees (ensures_command true)).returns
        fun taken commands read => ?_
      have commandsRead : Reads (.commands .lexer) true (arrow :: taken) commands :=
        .present ((Reads.mark isArrow).cons read.last)
      have whole := optionsRead.cons (bodyRead.cons commandsRead.last)
      refine ⟨⟨.construct whole.derives, ?_⟩, fun isParser => by cases isParser⟩
      have grouped : Tree.Built (fun token => token.kind.isText = false) true
          (optionsTaken ++ (elementsTaken ++ (arrow :: taken)))
          (Tree.group .alternative (options ++
            if elements.isEmpty then [Tree.group .epsilon []]
            else elements) :: commands) := by
        rw [← append_assoc]
        exact .append (.group rfl built) commandsRead.built
      exact .group rfl grouped
    · exact .pure bare
  · exact .pure bare

theorem ensures_blockPrequels :
    Ensures blockPrequels
      (Reads (.optional (.sequence [.rulePrequel, .many .rulePrequel, .mark .colon]))
      true) := by
  refine (ensures_manyTrees_cases (ensures_rulePrequel true)).bind ?_
  rintro _ _ (⟨rfl, rfl⟩ | ⟨first, rest, tree, trees, rfl, rfl, head, tail⟩)
  · exact .pure .absent
  · refine (Ensures.mark _).bind ?_
    rintro colon _ ⟨rfl, isColon⟩
    refine .pure (.present ?_)
    rw [append_assoc]
    exact head.cons (tail.ended ((Reads.mark isColon).cons .nil))

theorem ensures_blockOf {inner : Parse Tree}
    (ensures : ReadsAs inner (.construct (.block flavour)) true) :
    ReadsAs (blockOf inner flavour) (.construct (.block flavour)) true := by
  refine (Ensures.mark _).bind ?_
  rintro opening _ ⟨rfl, isOpening⟩
  refine ensures_blockPrequels.bind fun sections sectionsTaken sectionsRead => ?_
  have alternatives := (ensures_alternative ensures).mono fun _ _ known => known.reads
  refine (ensures_separatedTrees alternatives).bind fun trees taken reads => ?_
  refine (Ensures.mark _).bind ?_
  rintro closing _ ⟨rfl, isClosing⟩
  refine .pure (.construct (.holderAt rfl (by simp) ?_))
  exact (Reads.mark isOpening).cons
    (sectionsRead.cons (reads.ended ((Reads.mark isClosing).cons .nil)))

/-- The way to read a block where fewer than `bound` tokens are left. -/
def blockWithin (flavour : RuleFlavour) (bound : Nat) : Parse Tree := fun tokens =>
  if tokens.length < bound then block flavour tokens else .failed .element tokens

theorem block_eq (flavour : RuleFlavour) (tokens : List Token) :
    block flavour tokens = blockOf (blockWithin flavour tokens.length)
      flavour tokens := by
  rw [block]
  rfl

theorem ensures_blockWithin (bound : Nat) :
    ReadsAs (blockWithin flavour bound) (.construct (.block flavour)) true := by
  induction bound using Nat.strongRecOn with
  | ind bound induction =>
    constructor
    · intro tokens tree rest outcome
      unfold blockWithin at outcome
      split at outcome
      · rename_i shorter
        rw [block_eq] at outcome
        exact (ensures_blockOf (induction _ shorter)).done outcome
      · cases outcome
    · intro tokens expected rest outcome
      unfold blockWithin at outcome
      split at outcome
      · rename_i shorter
        rw [block_eq] at outcome
        exact (ensures_blockOf (induction _ shorter)).failed outcome
      · cases outcome
        exact suffix_rfl

theorem ensures_block : ReadsAs (block flavour) (.construct (.block flavour)) true where
  done outcome := by
    rw [block_eq] at outcome
    exact (ensures_blockOf (ensures_blockWithin _)).done outcome
  failed outcome := by
    rw [block_eq] at outcome
    exact (ensures_blockOf (ensures_blockWithin _)).failed outcome

end GrammarInspector.Parse
