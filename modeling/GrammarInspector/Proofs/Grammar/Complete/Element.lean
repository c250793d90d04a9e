import GrammarInspector.Proofs.Grammar.Complete.Prequel
import GrammarInspector.Proofs.Grammar.Sound.Element

/-! # All alternatives are read

Elements, alternatives and blocks. An element takes what can belong to it, so it must not
be followed by options, a suffix, arguments, the rest of a range, or what would make a
label of it. Elements themselves and the marks behind alternatives are nothing of that
kind.
-/

namespace GrammarInspector.Parse

open List

variable {bound : Nat} {follow : Option TokenKind → Bool} {flavour : RuleFlavour}
  {kind : TokenKind} {second : Option TokenKind} {front tail tokens : List Token}

/-! ## Options of elements -/

theorem accepts_elementOptionValue :
    Accepts bound elementOptionValue
      (.oneOf [.identifier, .terminal .literal, .terminal .int]) follow := by
  refine .peek ?_
  simp only [forall_mem_cons, not_mem_nil, false_implies, implies_true, and_true]
  refine ⟨?_, ?_, ?_⟩
  · exact .two rfl rfl accepts_identifierLeaf accepts_identifierLeaf
  · exact .one rfl rfl accepts_leaf
  · exact .one rfl rfl accepts_leaf

theorem accepts_elementOption :
    Accepts bound elementOption .elementOption (excluding [.punctuation .equals]) :=
  Accepts.identifier.andThen fun _ =>
    .eat (fun _ => accepts_elementOptionValue.returns.last) .pure
      (by decide) fun _ _ holds => ne_of_excluding holds (by simp)

theorem accepts_elementOptions :
    Accepts bound elementOptions (.construct .elementOptions) anything := by
  have entries : Accepts bound (separated .comma elementOption)
      (.separated .comma .elementOption) (among [.punctuation .greater]) :=
    accepts_elementOption.separatedBefore (by decide) (by decide)
  exact .construct (Accepts.mark.andThen fun _ =>
    entries.bind (fun _ => Accepts.mark.andThen fun _ => .pure) (by decide)
      fun solid => by cases solid)

theorem accepts_elementOptions? :
    Accepts bound elementOptions? (.optional (.construct .elementOptions))
      (excluding [.punctuation .less]) := by
  refine .peekOptional (.one rfl rfl accepts_elementOptions.always.returns) ?_
  intro kind holds
  split
  · exact absurd rfl (ne_of_excluding holds (by simp))
  · exact .pure

/-! ## Atoms -/

theorem accepts_characterRange : Accepts bound characterRange .range follow :=
  Accepts.expect.andThen fun _ => Accepts.mark.andThen fun _ =>
    Accepts.expect.andThen fun _ => .pure

theorem accepts_setElement :
    Accepts bound (setElement flavour) (.construct (.setElement flavour))
      (excluding [.punctuation .dots]) := by
  refine .construct (.peekTwo (forall_mem_append.mpr ⟨?_, ?_⟩))
  · simp only [forall_mem_cons, not_mem_nil, false_implies, implies_true, and_true]
    refine ⟨?_, ?_, ?_⟩
    · exact .single anything (fun _ _ => rfl) fun _ _ => accepts_leaf
    · refine .sequence (among [.punctuation .dots]) (by decide)
        (fun solid => by cases solid) ?_
      intro second areDots
      rw [eq_of_among areDots]
      exact accepts_characterRange
    · refine .single (excluding [.punctuation .dots]) (fun _ holds => holds) ?_
      intro second noDots
      cases second with
      | none => exact accepts_leaf
      | some kind =>
        cases kind with
        | punctuation mark =>
          cases mark with
          | dots => cases noDots
          | _ => exact accepts_leaf
        | _ => exact accepts_leaf
  · cases flavour with
    | parser => exact fun part member => by cases member
    | lexer =>
      refine forall_mem_singleton.mpr ?_
      exact .single anything (fun _ _ => rfl) fun _ _ => accepts_leaf

theorem accepts_complement :
    Accepts bound (complement flavour) (.complement flavour)
      (excluding [.punctuation .dots]) := by
  have elements : Accepts bound (separated .bar (setElement flavour))
      (.separated .bar (.construct (.setElement flavour)))
        (among [.punctuation .rightParen]) :=
    accepts_setElement.separatedBefore (by decide) (by decide)
  refine Accepts.mark.andThen fun tilde => Accepts.last (.eatOr (fun _ => ?_) ?_ rfl ?_)
  · exact elements.bind (fun _ => Accepts.mark.andThen fun _ => .pure) (by decide)
      fun solid => by cases solid
  · exact accepts_setElement.returns
  · cases flavour <;> decide

/-- What would be taken for arguments behind a reference. -/
def argumentStarts : RuleFlavour → List TokenKind
  | .parser => [.bracket]
  | .lexer => []

theorem accepts_arguments? :
    Accepts bound (arguments? flavour) (.arguments flavour)
      (excluding (argumentStarts flavour)) := by
  cases flavour with
  | lexer => exact .pure
  | parser =>
    exact .only (.eatToken (fun _ => .pure) .pure (by decide)
      fun _ _ holds => ne_of_excluding holds (by decide))

theorem accepts_leafWithOptions {kind : NodeKind} {shown : TokenKind} :
    Accepts bound (do
      let token ← expect shown
      return (Tree.leaf kind token).append (← elementOptions?))
      (.sequence [.terminal shown, .optional (.construct .elementOptions)])
      (excluding [.punctuation .less]) :=
  Accepts.expect.andThen fun _ => accepts_elementOptions?.returns.last

/-- What an atom would go on with: options, the rest of a range, or arguments. -/
def atomGoesOn (flavour : RuleFlavour) : List TokenKind :=
  [.punctuation .less, .punctuation .dots] ++ argumentStarts flavour

theorem accepts_atom :
    Accepts bound (atom flavour) (.construct (.atom flavour))
      (excluding (atomGoesOn flavour)) := by
  have noOptions : ∀ next, excluding (atomGoesOn flavour) next = true →
      excluding [.punctuation .less] next = true :=
    fun next holds => excluding_mono holds (by simp [atomGoesOn])
  have noDots : ∀ next, excluding (atomGoesOn flavour) next = true →
      excluding [.punctuation .dots] next = true :=
    fun next holds => excluding_mono holds (by simp [atomGoesOn])
  have noArguments : ∀ next, excluding (atomGoesOn flavour) next = true →
      excluding (argumentStarts flavour) next = true :=
    fun next holds => excluding_mono holds fun kind member => mem_append_right _ member
  refine .construct (.peekTwo (forall_mem_append.mpr ⟨?_, ?_⟩))
  · simp only [forall_mem_cons, not_mem_nil, false_implies, implies_true, and_true]
    refine ⟨?_, ?_, ?_, ?_, ?_, ?_⟩
    · exact .sequence anything (fun _ _ => rfl) (fun _ _ _ => rfl) fun _ _ =>
        accepts_leafWithOptions.weaken noOptions
    · refine .sequence anything (fun _ _ => rfl) (fun _ _ _ => rfl) fun _ _ => ?_
      refine Accepts.expect.andThen fun _ =>
        accepts_arguments?.bind (fun _ => ?_) ?_ fun _ => noArguments
      · exact (accepts_elementOptions?.weaken noOptions).returns.last
      · cases flavour <;> decide
    · refine .sequence (among [.punctuation .dots]) (by decide)
        (fun solid => by cases solid) ?_
      intro second areDots
      rw [eq_of_among areDots]
      exact accepts_characterRange
    · refine .sequence (excluding [.punctuation .dots]) (by decide) (fun _ => noDots) ?_
      intro second noDots
      cases second with
      | none => exact accepts_leafWithOptions.weaken noOptions
      | some kind =>
        cases kind with
        | punctuation mark =>
          cases mark with
          | dots => cases noDots
          | _ => exact accepts_leafWithOptions.weaken noOptions
        | _ => exact accepts_leafWithOptions.weaken noOptions
    · refine .sequence anything (fun _ _ => rfl) (fun _ _ _ => rfl) fun _ _ => ?_
      exact Accepts.mark.andThen fun _ =>
        (accepts_elementOptions?.weaken noOptions).returns.last
    · exact .sequence anything (fun _ _ => rfl) (fun _ _ _ => rfl) fun _ _ =>
        accepts_complement.weaken noDots
  · cases flavour with
    | parser => exact fun part member => by cases member
    | lexer =>
      refine forall_mem_singleton.mpr ?_
      exact .single anything (fun _ _ => rfl) fun _ _ => accepts_leaf

/-! ## Elements -/

def suffixMarks : List TokenKind :=
  [.punctuation .question, .punctuation .star, .punctuation .plus]

theorem suffixKind?_eq_none (other : kind ∉ suffixMarks) : suffixKind? kind = none := by
  unfold suffixKind?
  split
  · exact absurd (by decide) other
  · exact absurd (by decide) other
  · exact absurd (by decide) other
  · rfl

theorem exists_suffixKind? (isSuffix : kind ∈ suffixMarks) :
    ∃ nodeKind, suffixKind? kind = some nodeKind := by
  simp only [suffixMarks, mem_cons, not_mem_nil, or_false] at isSuffix
  rcases isSuffix with rfl | rfl | rfl
  · exact ⟨_, rfl⟩
  · exact ⟨_, rfl⟩
  · exact ⟨_, rfl⟩

theorem accepts_suffixed (element : Tree) :
    Accepts bound (suffixed element) (.optional .suffix) (excluding suffixMarks) := by
  intro taken rest short derives behind
  rcases Ebnf.derives_optional.mp derives with isEmpty | body
  · rw [map_eq_nil_iff.mp isEmpty, nil_append]
    cases rest with
    | nil => exact ⟨element, rfl⟩
    | cons token others =>
      refine ⟨element, ?_⟩
      rw [suffixed, suffixKind?_eq_none (of_decide_eq_true behind)]
  · obtain ⟨head, tail, equal, headDerives, tailDerives⟩ := Ebnf.derives_cons.mp body
    obtain ⟨kind, rfl, isSuffix⟩ := Accepts.single_of_oneOf suffixMarks
      (fun _ member => decide_eq_true member) _ headDerives
    obtain ⟨suffix, others, rfl, rfl, rfl⟩ := map_eq_cons_iff.mp equal
    obtain ⟨nodeKind, known⟩ := exists_suffixKind? (of_decide_eq_true isSuffix)
    have wrapped : Accepts bound (do
        let _ ← eat (.punctuation .question)
        return Tree.builtAt nodeKind suffix.span [suffixBlock element])
        (.sequence [.optional (.mark .question)]) (excluding suffixMarks) :=
      .eatToken (fun _ => .pure) .pure (by decide) fun _ _ holds =>
        ne_of_excluding holds (by decide)
    have shorter : (others ++ rest).length < bound := by
      rw [cons_append, length_cons] at short
      omega
    obtain ⟨tree, outcome⟩ := wrapped others rest shorter tailDerives behind
    refine ⟨tree, ?_⟩
    rw [cons_append, suffixed, known]
    exact outcome

/-- What an element would go on with: a suffix, what an atom goes on with, or the mark
behind a label. -/
def elementGoesOn (flavour : RuleFlavour) : List TokenKind :=
  [.punctuation .equals, .punctuation .plusEquals] ++ (suffixMarks ++ atomGoesOn flavour)

theorem accepts_labelTarget {block : Parse Tree}
    (inner : Accepts bound block (.construct (.block flavour)) anything) :
    Accepts bound (labelTarget block flavour)
      (.oneOf [.construct (.atom flavour), .construct (.block flavour)])
      (excluding (atomGoesOn flavour)) := by
  refine .peek ?_
  simp only [forall_mem_cons, not_mem_nil, false_implies, implies_true, and_true]
  refine ⟨⟨rfl, fun kind isStart => ?_⟩, .one rfl rfl inner.always⟩
  split
  · rename_i isOpening
    cases isOpening
    exact absurd isStart (by cases flavour <;> decide)
  · exact accepts_atom

theorem accepts_labelled {block : Parse Tree}
    (inner : Accepts bound block (.construct (.block flavour)) anything) :
    Accepts bound (labelled block flavour)
      (.sequence [.identifier, .oneOf [.mark .equals, .mark .plusEquals],
        .oneOf [.construct (.atom flavour), .construct (.block flavour)]])
      (excluding (atomGoesOn flavour)) := by
  refine Accepts.identifier.andThen fun _ => Accepts.andThen (.take ?_) fun _ => ?_
  · exact Accepts.single_of_oneOf [.punctuation .equals, .punctuation .plusEquals]
      (by decide)
  · exact (accepts_labelTarget inner).returns.last

theorem startsLabelled_of_second {first : Option TokenKind}
    (other : excluding [.punctuation .equals, .punctuation .plusEquals] second = true) :
    startsLabelled first second = false := by
  have noEquals := ne_of_excluding other (mem_cons_self ..)
  have noPlusEquals := ne_of_excluding other (mem_cons_of_mem _ (mem_singleton_self _))
  simp [startsLabelled, noEquals, noPlusEquals]

theorem startsLabelled_of_first (noName : kind.isIdentifier = false) :
    startsLabelled (some kind) second = false := by
  simp [startsLabelled, noName]

theorem startsLabelled_of_operator {first second : TokenKind}
    (isName : first.isIdentifier = true)
    (isOperator : second ∈ [TokenKind.punctuation .equals, .punctuation .plusEquals]) :
    startsLabelled (some first) (some second) = true := by
  simp only [mem_cons, not_mem_nil, or_false] at isOperator
  rcases isOperator with rfl | rfl
  · simp [startsLabelled, isName]
  · simp [startsLabelled, isName]

/-- A token followed by what can stand behind it, and then by no mark of a label,
begins no label. -/
theorem not_startsLabelled_of_derives {parts : List Ebnf}
    (derives : (Ebnf.sequence (.terminal kind :: parts)).Derives (front.map Token.kind))
    (behind : excluding [.punctuation .equals, .punctuation .plusEquals]
      (headKind? tail) = true)
    (begins : ∀ kind ∈ (Ebnf.sequence parts).starts,
      kind ∉ [TokenKind.punctuation .equals, .punctuation .plusEquals]) :
    startsLabelled (headKind? (front ++ tail)) (headKind? (front ++ tail).tail) =
      false := by
  obtain ⟨token, rest, rfl, rfl, othersDerive⟩ := Ebnf.tokens_of_terminal derives
  refine startsLabelled_of_second ?_
  exact Ebnf.next_of_derives _ othersDerive behind
    (fun kind isStart => decide_eq_true (begins kind isStart)) fun _ _ holds => holds

theorem not_startsLabelled_of_solid {expression : Ebnf} (tail : List Token)
    (derives : expression.Derives (front.map Token.kind))
    (solid : expression.nullable = false)
    (begins : ∀ kind ∈ expression.starts, kind.isIdentifier = false) :
    startsLabelled (headKind? (front ++ tail)) (headKind? (front ++ tail).tail) =
      false := by
  obtain ⟨token, rest, rfl, isStart⟩ := Ebnf.exists_cons_of_derives derives solid
  exact startsLabelled_of_first (begins _ isStart)

theorem not_startsLabelled_of_atom
    (derives : (Ebnf.construct (.atom flavour)).Derives (front.map Token.kind))
    (behind : excluding [.punctuation .equals, .punctuation .plusEquals]
      (headKind? tail) = true) :
    startsLabelled (headKind? (front ++ tail)) (headKind? (front ++ tail).tail) =
      false := by
  obtain ⟨chosen, member, body⟩ :=
    Ebnf.derives_oneOf.mp (Ebnf.derives_construct.mp derives)
  rcases mem_append.mp member with common | isSet
  · simp only [mem_cons, not_mem_nil, or_false] at common
    rcases common with rfl | rfl | rfl | rfl | rfl | rfl
    · exact not_startsLabelled_of_derives body behind (by decide)
    · exact not_startsLabelled_of_derives body behind (by cases flavour <;> decide)
    · exact not_startsLabelled_of_solid tail body rfl (by decide)
    · exact not_startsLabelled_of_solid tail body rfl (by decide)
    · exact not_startsLabelled_of_solid tail body rfl (by decide)
    · exact not_startsLabelled_of_solid tail body rfl (by cases flavour <;> decide)
  · cases flavour with
    | parser => cases isSet
    | lexer =>
      obtain rfl := mem_singleton.mp isSet
      exact not_startsLabelled_of_solid tail body rfl (by decide)

theorem element_of_labelled {block : Parse Tree}
    (isLabelled : startsLabelled (headKind? tokens) (headKind? tokens.tail) = true) :
    element block flavour tokens = (do suffixed (← labelled block flavour) :
        Parse Tree) tokens := by
  change (if startsLabelled (headKind? tokens) (headKind? tokens.tail) =
    true then _ else _ : Parse Tree) tokens = _
  rw [if_pos isLabelled]

/-- The way to read an element without a label, by its first token. -/
def elementBy (block : Parse Tree) (flavour : RuleFlavour) : Option TokenKind → Parse Tree
  | some (.punctuation .leftParen) => do suffixed (← block)
  | some .predicate => do return .leaf .predicate (← expect .predicate)
  | some .action => do return .leaf .action (← expect .action)
  | _ => do suffixed (← atom flavour)

theorem element_of_not_labelled {block : Parse Tree}
    (notLabelled : startsLabelled (headKind? tokens) (headKind? tokens.tail) = false) :
    element block flavour tokens = elementBy block flavour (headKind? tokens) tokens := by
  change (if startsLabelled (headKind? tokens) (headKind? tokens.tail) =
    true then _ else _ : Parse Tree) tokens = _
  rw [notLabelled, if_neg Bool.false_ne_true]
  rfl

theorem elementBy_atom {block : Parse Tree}
    (isStart : kind ∈ Construct.atomStarts flavour) :
    elementBy block flavour (some kind) = (do suffixed (← atom flavour)) := by
  unfold elementBy
  split
  · rename_i isOpening
    cases isOpening
    exact absurd isStart (by cases flavour <;> decide)
  · rename_i isPredicate
    cases isPredicate
    exact absurd isStart (by cases flavour <;> decide)
  · rename_i isAction
    cases isAction
    exact absurd isStart (by cases flavour <;> decide)
  · rfl

/-- What can have a suffix, with the suffix behind it. -/
theorem accepts_withSuffix {parse : Parse Tree} {part : Ebnf}
    (accepts : Accepts bound parse part (excluding (atomGoesOn flavour))) :
    Accepts bound (do suffixed (← parse)) (.sequence [part, .optional .suffix])
      (excluding (elementGoesOn flavour)) := by
  refine accepts.bind (fun tree =>
    ((accepts_suffixed tree).weaken fun _ holds => ?_).last) ?_ ?_
  · exact excluding_mono holds fun kind member =>
      mem_append_right _ (mem_append_left _ member)
  · cases flavour <;> decide
  · exact fun _ _ holds => excluding_mono holds fun kind member =>
      mem_append_right _ (mem_append_right _ member)

theorem accepts_plainAtom (block : Parse Tree) :
    Accepts bound (element block flavour)
      (.sequence [.construct (.atom flavour), .optional .suffix])
      (excluding (elementGoesOn flavour)) := by
  intro taken rest short derives behind
  have notLabelled :
      startsLabelled (headKind? (taken ++ rest)) (headKind? (taken ++ rest).tail) =
      false := by
    obtain ⟨front, back, rfl, headDerives, tailDerives⟩ := Ebnf.tokens_of_cons derives
    rw [append_assoc]
    refine not_startsLabelled_of_atom headDerives ?_
    exact Ebnf.next_of_derives _ tailDerives behind (by decide)
      fun _ _ holds => excluding_mono holds fun kind member => mem_append_left _ member
  obtain ⟨token, others, rfl, isStart⟩ := Ebnf.exists_cons_of_derives derives rfl
  have isAtom : token.kind ∈ Construct.atomStarts flavour ++ [] := isStart
  rw [append_nil] at isAtom
  rw [element_of_not_labelled notLabelled, cons_append, headKind?_cons,
    elementBy_atom isAtom]
  exact accepts_withSuffix accepts_atom _ rest short derives behind

theorem accepts_plainBlock {block : Parse Tree}
    (inner : Accepts bound block (.construct (.block flavour)) anything) :
    Accepts bound (element block flavour)
      (.sequence [.construct (.block flavour), .optional .suffix])
      (excluding (elementGoesOn flavour)) := by
  intro taken rest short derives behind
  obtain ⟨token, others, rfl, isStart⟩ := Ebnf.exists_cons_of_derives derives rfl
  have isOpening : token.kind = .punctuation .leftParen := mem_singleton.mp isStart
  have notLabelled : startsLabelled (headKind? (token :: others ++ rest))
      (headKind? (token :: others ++ rest).tail) = false :=
    startsLabelled_of_first (by rw [isOpening]; rfl)
  rw [element_of_not_labelled notLabelled, cons_append, headKind?_cons, isOpening]
  exact accepts_withSuffix inner.always _ rest short derives behind

theorem accepts_withLabel {block : Parse Tree}
    (inner : Accepts bound block (.construct (.block flavour)) anything) :
    Accepts bound (element block flavour)
      (.sequence [.sequence [.identifier, .oneOf [.mark .equals, .mark .plusEquals],
        .oneOf [.construct (.atom flavour), .construct (.block flavour)]],
          .optional .suffix])
      (excluding (elementGoesOn flavour)) := by
  intro taken rest short derives behind
  have isLabelled : startsLabelled (headKind? (taken ++ rest))
      (headKind? (taken ++ rest).tail) = true := by
    obtain ⟨labelled, suffix, equal, labelledDerives, _⟩ := Ebnf.derives_cons.mp derives
    obtain ⟨name, others, rfl, nameDerives, othersDerive⟩ :=
      Ebnf.derives_cons.mp labelledDerives
    obtain ⟨operator, target, rfl, operatorDerives, _⟩ :=
      Ebnf.derives_cons.mp othersDerive
    obtain ⟨first, rfl, isName⟩ := Accepts.single_of_identifier _ nameDerives
    obtain ⟨second, rfl, isOperator⟩ := Accepts.single_of_oneOf
      [.punctuation .equals, .punctuation .plusEquals]
      (fun _ member => decide_eq_true member) _ operatorDerives
    obtain ⟨token, more, rfl, rfl, moreEqual⟩ := map_eq_cons_iff.mp equal
    obtain ⟨mark, behindMark, rfl, rfl, _⟩ := map_eq_cons_iff.mp moreEqual
    exact startsLabelled_of_operator isName (of_decide_eq_true isOperator)
  rw [element_of_labelled isLabelled]
  exact accepts_withSuffix (accepts_labelled inner) _ rest short derives behind

theorem accepts_element {block : Parse Tree}
    (inner : Accepts bound block (.construct (.block flavour)) anything) :
    Accepts bound (element block flavour) (.construct (.element flavour))
      (excluding (elementGoesOn flavour)) := by
  intro taken rest short derives behind
  obtain ⟨chosen, member, body⟩ :=
    Ebnf.derives_oneOf.mp (Ebnf.derives_construct.mp derives)
  simp only [mem_cons, not_mem_nil, or_false] at member
  rcases member with rfl | rfl | rfl
  · have notLabelled := not_startsLabelled_of_solid rest body rfl (by decide)
    obtain ⟨token, rfl, isAction⟩ := exists_of_map_kind (Ebnf.derives_terminal.mp body)
    rw [element_of_not_labelled notLabelled, headKind?_append, map_singleton, isAction]
    exact accepts_leaf _ rest short body behind
  · have notLabelled := not_startsLabelled_of_solid rest body rfl (by decide)
    obtain ⟨token, rfl, isPredicate⟩ := exists_of_map_kind (Ebnf.derives_terminal.mp body)
    rw [element_of_not_labelled notLabelled, headKind?_append, map_singleton, isPredicate]
    exact accepts_leaf _ rest short body behind
  · obtain ⟨label, others, equal, labelDerives, othersDerive⟩ := Ebnf.derives_cons.mp body
    obtain ⟨target, suffix, rfl, targetDerives, suffixDerives⟩ :=
      Ebnf.derives_cons.mp othersDerive
    rcases Ebnf.derives_optional.mp labelDerives with rfl | isLabel
    · rw [nil_append] at equal
      obtain ⟨part, member, partDerives⟩ := Ebnf.derives_oneOf.mp targetDerives
      have plain := Ebnf.Derives.cons partDerives suffixDerives
      rw [← equal] at plain
      simp only [mem_cons, not_mem_nil, or_false] at member
      rcases member with rfl | rfl
      · exact accepts_plainAtom block taken rest short plain behind
      · exact accepts_plainBlock inner taken rest short plain behind
    · have labelled := isLabel.append (.cons targetDerives .nil)
      have whole := Ebnf.Derives.cons labelled suffixDerives
      rw [append_nil, append_assoc, ← equal] at whole
      exact accepts_withLabel inner taken rest short whole behind

/-! ## Commands -/

theorem accepts_commandArgument :
    Accepts bound commandArgument (.oneOf [.identifier, .terminal .int]) anything := by
  refine .peek ?_
  simp only [forall_mem_cons, not_mem_nil, false_implies, implies_true, and_true]
  refine ⟨?_, ?_⟩
  · exact .two rfl rfl accepts_identifierLeaf accepts_identifierLeaf
  · exact .one rfl rfl accepts_leaf

theorem accepts_commandName {expected : Expected} :
    Accepts bound (take namesCommand expected) (.oneOf [.identifier, .keyword .mode])
      anything := by
  refine .take fun phrase derives => ?_
  obtain ⟨chosen, member, body⟩ := Ebnf.derives_oneOf.mp derives
  simp only [mem_cons, not_mem_nil, or_false] at member
  rcases member with rfl | rfl
  · obtain ⟨kind, rfl, isName⟩ := Accepts.single_of_identifier _ body
    rcases TokenKind.isIdentifier_iff.mp isName with rfl | rfl
    · exact ⟨_, rfl, rfl⟩
    · exact ⟨_, rfl, rfl⟩
  · exact ⟨_, Ebnf.derives_terminal.mp body, rfl⟩

theorem accepts_command :
    Accepts bound command (.construct .command)
      (excluding [.punctuation .leftParen]) := by
  refine .construct (accepts_commandName.andThen fun _ =>
    .eat (fun _ => ?_) .pure (by decide) ?_)
  · exact accepts_commandArgument.andThen fun _ => Accepts.mark.andThen fun _ => .pure
  · exact fun _ _ holds => ne_of_excluding holds (by simp)

/-! ## Alternatives and blocks -/

/-- What can stand behind an alternative. -/
def alternativeEnds : List TokenKind :=
  [.punctuation .bar, .punctuation .rightParen, .punctuation .semicolon,
    .punctuation .hash]

theorem accepts_alternativeOptions? :
    Accepts bound (alternativeOptions? flavour) (.alternativeOptions flavour)
      (excluding [.punctuation .less]) := by
  cases flavour with
  | parser => exact accepts_elementOptions?
  | lexer => exact .pure

theorem accepts_elements {block : Parse Tree}
    (inner : Accepts bound block (.construct (.block flavour)) anything) :
    Accepts bound (many (startsElement flavour) (element block flavour))
      (.many (.construct (.element flavour)))
        (among (.punctuation .arrow :: alternativeEnds)) := by
  refine (accepts_element inner).many rfl ?_ fun next holds => ⟨?_, ?_⟩
  · cases flavour <;> decide
  · exact excluding_of_among holds (by cases flavour <;> decide)
  · rintro kind rfl
    have member : kind ∈ .punctuation .arrow :: alternativeEnds := of_decide_eq_true holds
    have none : ∀ kind ∈ .punctuation .arrow :: alternativeEnds,
        startsElement flavour kind = false := by
      cases flavour <;> decide
    exact none kind member

/-- The end of an alternative, where only the lexer has commands. -/
theorem accepts_commands (tree : Tree) :
    Accepts bound (do
      match ← peek with
      | some (.punctuation .arrow) =>
        if flavour = .lexer then
          let _ ← mark .arrow
          let commands ← separated .comma command
          return .group .lexerAlternative (tree :: commands)
        else return tree
      | _ => return tree) (.commands flavour) (among alternativeEnds) := by
  cases flavour with
  | parser =>
    refine .peekNothing fun next _ => ?_
    split
    · exact .pure
    · exact .pure
  | lexer =>
    have commands : Accepts bound (separated .comma command)
        (.separated .comma (.construct .command)) (among alternativeEnds) :=
      accepts_command.separatedBefore (by decide) (by decide)
    refine .peekOptional (.one rfl rfl ?_) fun next holds => ?_
    · exact Accepts.mark.andThen fun _ => commands.returns.last
    · split
      · exact absurd rfl (ne_of_excluding (excluding_of_among holds
          (by decide : ∀ kind ∈ alternativeEnds, kind ∉ [TokenKind.punctuation .arrow]))
          (mem_singleton_self _))
      · exact .pure

theorem accepts_alternative {block : Parse Tree}
    (inner : Accepts bound block (.construct (.block flavour)) anything) :
    Accepts bound (alternative block flavour) (.construct (.alternative flavour))
      (among alternativeEnds) := by
  refine .construct (accepts_alternativeOptions?.bind (fun options => ?_) ?_
    fun _ _ holds => ?_)
  · refine (accepts_elements inner).bind (fun elements => (accepts_commands _).last) ?_ ?_
    · cases flavour <;> decide
    · exact fun _ _ holds => among_mono holds fun kind member => mem_cons_of_mem _ member
  · cases flavour <;> decide
  · exact excluding_of_among holds (by decide)

theorem ne_nil_of_prequels {taken rest : List Token} {sections : List Tree}
    (outcome : prequels (taken ++ rest) = .done sections rest) (nonempty : taken ≠ []) :
    sections.isEmpty = false := by
  rcases (ensures_manyTrees_cases (ensures_rulePrequel true)).of_append outcome with
    ⟨isEmpty, _⟩ | ⟨first, others, tree, trees, _, rfl, _⟩
  · exact absurd isEmpty nonempty
  · rfl

theorem accepts_blockPrequels : Accepts bound blockPrequels
      (.optional (.sequence [.rulePrequel, .many .rulePrequel, .mark .colon]))
      (excluding [.opener .options, .punctuation .at]) := by
  intro taken rest short derives behind
  rcases Ebnf.derives_optional.mp derives with isEmpty | body
  · rw [map_eq_nil_iff.mp isEmpty, nil_append]
    refine ⟨[], ?_⟩
    rw [blockPrequels, bind_apply, prequels,
      Accepts.many_of_stops (startsPrequel_of_excluding behind)]
    rfl
  · obtain ⟨head, tail, equal, headDerives, tailDerives⟩ := Ebnf.derives_cons.mp body
    obtain ⟨others, last, rfl, othersDerive, lastDerives⟩ :=
      Ebnf.derives_cons.mp tailDerives
    rw [← append_assoc] at equal
    obtain ⟨front, colons, rfl, frontEqual, rfl⟩ := map_eq_append_iff.mp equal
    have many : (Ebnf.many .rulePrequel).Derives (front.map Token.kind) := by
      rw [frontEqual]
      exact .more headDerives othersDerive
    have nonempty : front ≠ [] := by
      rintro rfl
      rw [map_nil, eq_comm, append_eq_nil_iff] at frontEqual
      rcases Ebnf.starts_of_derives headDerives with ⟨_, isNullable⟩ | ⟨_, _, isCons, _⟩
      · cases isNullable
      · rw [frontEqual.1] at isCons
        cases isCons
    have colonNext : excluding [.opener .options, .punctuation .at]
        (headKind? (colons ++ rest)) = true :=
      Ebnf.next_of_derives _ lastDerives behind (by decide) fun solid => by cases solid
    rw [append_assoc] at short ⊢
    obtain ⟨sections, outcome⟩ :=
      accepts_prequels front (colons ++ rest) short many colonNext
    have closing : Accepts bound (do let _ ← mark .colon; return sections)
        (.sequence [.mark .colon]) anything :=
      Accepts.mark.andThen fun _ => .pure
    have shorter : (colons ++ rest).length < bound :=
      Nat.lt_of_le_of_lt (suffix_append ..).length_le short
    obtain ⟨value, done⟩ := closing colons rest shorter lastDerives rfl
    refine ⟨value, ?_⟩
    rw [blockPrequels, bind_apply, outcome]
    dsimp only
    rw [ne_nil_of_prequels outcome nonempty, if_neg Bool.false_ne_true]
    exact done

theorem accepts_blockOf {inner : Parse Tree}
    (accepts : Accepts bound inner (.construct (.block flavour)) anything) :
    Accepts (bound + 1) (blockOf inner flavour) (.construct (.block flavour))
      anything := by
  have alternatives : Accepts bound (separated .bar (alternative inner flavour))
      (.separated .bar (.construct (.alternative flavour)))
        (among [.punctuation .rightParen]) := by
    refine (accepts_alternative accepts).separated (by decide) fun next holds => ⟨?_, ?_⟩
    · exact among_mono holds (by decide)
    · rw [eq_of_among holds]
      decide
  refine .construct (.expectThen fun _ => accepts_blockPrequels.bind (fun _ => ?_) ?_ ?_)
  · exact alternatives.bind (fun _ => Accepts.mark.andThen fun _ => .pure) (by decide)
      fun solid => by cases solid
  · cases flavour <;> decide
  · exact fun solid => by cases flavour <;> cases solid

theorem accepts_blockWithin (bound : Nat) :
    Accepts bound (blockWithin flavour bound) (.construct (.block flavour)) anything := by
  induction bound using Nat.strongRecOn with
  | ind bound induction =>
    intro taken rest short derives behind
    obtain ⟨tree, outcome⟩ :=
      accepts_blockOf (induction _ short) taken rest (Nat.lt_succ_self _)
      derives behind
    refine ⟨tree, ?_⟩
    rw [blockWithin, if_pos short, block_eq]
    exact outcome

theorem accepts_block :
    Accepts bound (block flavour) (.construct (.block flavour)) anything := by
  intro taken rest short derives behind
  obtain ⟨tree, outcome⟩ := accepts_blockWithin bound taken rest short derives behind
  refine ⟨tree, ?_⟩
  rw [blockWithin, if_pos short] at outcome
  exact outcome

end GrammarInspector.Parse
