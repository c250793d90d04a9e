import GrammarInspector.Proofs.Grammar.Ensures

/-! # Sections are read as their productions say

Options, name sections, imports and named actions: what is taken can be derived, and the
trees given are built from it. None of these trees stands in a rule body.
-/

namespace GrammarInspector.Parse

variable {inBody : Bool}

theorem ensures_leaf {kind : NodeKind} {shown : TokenKind}
    (fitting : kind.fits shown = true) (place : (!kind.isName || inBody) = true) :
    ReadsAs (do return Tree.leaf kind (← expect shown)) (.terminal shown) inBody := by
  refine (Ensures.expect shown).bind ?_
  rintro token _ ⟨rfl, equal⟩
  exact .pure (.leaf equal fitting place)

theorem ensures_identifierLeaf :
    ReadsAs (do return Tree.leaf .identifier (← identifier)) .identifier inBody := by
  refine Ensures.identifier.bind ?_
  rintro token _ ⟨rfl, isName⟩
  exact .pure (.identifier isName)

/-! ## Options -/

/-- The tokens of a dotted name are its names with a dot in front of each
but the first. -/
theorem ensures_dottedParts : Ensures (separated .dot identifier) fun taken names =>
      ∃ (first : Token) (rest : List (Token × Token)), names = first :: rest.map (·.2) ∧
        taken = first :: rest.flatMap (fun pair => [pair.1, pair.2]) ∧
        first.kind.isIdentifier = true ∧
        ∀ pair ∈ rest, pair.1.kind = .punctuation .dot ∧
        pair.2.kind.isIdentifier = true := by
  have behind : Ensures (do let _ ← mark .dot; identifier) fun taken name =>
      ∃ dot, taken = [dot, name] ∧ dot.kind = .punctuation .dot ∧
        name.kind.isIdentifier = true := by
    refine (Ensures.mark .dot).bind ?_
    rintro dot _ ⟨rfl, isDot⟩
    refine Ensures.identifier.mono ?_
    rintro _ name ⟨rfl, isName⟩
    exact ⟨dot, rfl, isDot, isName⟩
  refine Ensures.identifier.bind ?_
  rintro first _ ⟨rfl, isName⟩
  refine (behind.many (motive := fun taken names => ∃ rest : List (Token × Token),
    names = rest.map (·.2) ∧ taken = rest.flatMap (fun pair => [pair.1, pair.2]) ∧
      ∀ pair ∈ rest, pair.1.kind = .punctuation .dot ∧ pair.2.kind.isIdentifier = true)
    ⟨[], rfl, rfl, by simp⟩ ?_).bind ?_
  · rintro _ name _ _ ⟨dot, rfl, isDot, nameKind⟩ ⟨rest, rfl, rfl, areNames⟩
    refine ⟨(dot, name) :: rest, rfl, rfl, ?_⟩
    simp only [List.mem_cons, forall_eq_or_imp]
    exact ⟨⟨isDot, nameKind⟩, areNames⟩
  · rintro _ _ ⟨rest, rfl, rfl, areNames⟩
    exact .pure ⟨first, rest, rfl, by simp, isName, areNames⟩

theorem ensures_dottedName : ReadsAs dottedName .dottedName false := by
  have derives : Ensures (separated .dot identifier) fun taken _ =>
      Ebnf.dottedName.Derives (taken.map Token.kind) := by
    have leaves : Ensures identifier fun taken name =>
        Reads .identifier false taken [Tree.leaf .identifier name] := by
      refine Ensures.identifier.mono ?_
      rintro _ name ⟨rfl, isName⟩
      exact .identifier isName
    exact (ensures_separated leaves).mono fun _ _ reads => reads.derives
  refine (derives.and ensures_dottedParts).bind ?_
  rintro _ taken ⟨derivation, first, rest, rfl, rfl, isName, areNames⟩
  refine .pure ⟨?_, ?_⟩
  · rw [List.append_nil]
    exact derivation
  · rw [List.append_nil]
    exact .dotted isName areNames

theorem ensures_optionValue : ReadsAs optionValue .optionValue false := by
  refine .peek fun kind => ?_
  split
  · exact (ensures_leaf rfl rfl).oneOf (by simp)
  · exact (ensures_leaf rfl rfl).oneOf (by simp)
  · exact (ensures_leaf rfl rfl).oneOf (by simp)
  · exact ensures_dottedName.oneOf (by simp)
  · exact ensures_dottedName.oneOf (by simp)
  · exact .fail

theorem ensures_option : ReadsAs option .option false := by
  refine Ensures.identifier.bind ?_
  rintro name _ ⟨rfl, isName⟩
  refine (Ensures.mark _).bind ?_
  rintro assign _ ⟨rfl, isAssign⟩
  refine ensures_optionValue.bind fun value valueTaken reads => ?_
  refine (Ensures.mark _).bind ?_
  rintro semicolon _ ⟨rfl, isSemicolon⟩
  refine .pure (.holderAt rfl (by simp) ?_)
  exact (Reads.identifier isName).cons ((Reads.mark isAssign).cons
    (reads.cons ((Reads.mark isSemicolon).cons .nil)))

theorem ensures_options : ReadsAs options (.construct .options) inBody := by
  refine (Ensures.expect _).bind ?_
  rintro opening _ ⟨rfl, isOpening⟩
  refine (ensures_manyTrees ensures_option).bind fun entries entriesTaken reads => ?_
  refine (Ensures.mark _).bind ?_
  rintro brace _ ⟨rfl, isBrace⟩
  refine .pure (.construct (.holderAt rfl (by simp) ?_))
  exact (Reads.passed isOpening rfl).cons (reads.ended ((Reads.mark isBrace).cons .nil))

/-! ## Names -/

/-- Names are taken with the commas behind them, and then perhaps one without. -/
theorem ensures_names :
    Ensures names fun taken trees => ∃ listed last listedTrees lastTrees,
      taken = listed ++ last ∧ trees = listedTrees ++ lastTrees ∧
        Reads (.many (.sequence [.identifier, .mark .comma])) false listed listedTrees ∧
        Reads (.optional .identifier) false last lastTrees := by
  refine ⟨fun {tokens trees rest} outcome => ?_, fun outcome => by cases outcome⟩
  obtain ⟨rfl, rfl⟩ : (namesFrom tokens).1 = trees ∧ (namesFrom tokens).2 = rest := by
    cases outcome
    exact ⟨rfl, rfl⟩
  clear outcome
  fun_induction namesFrom tokens with
  | case1 => exact ⟨[], rfl, [], [], [], [], rfl, rfl, .none, .absent⟩
  | case2 name isName =>
    exact ⟨[name], rfl, [], [name], [], _, rfl, rfl, .none, .present (.identifier isName)⟩
  | case3 name isName comma rest isComma names left recursion induction =>
    obtain ⟨taken, equal, listed, last, listedTrees, lastTrees, rfl, treesEqual, many,
        final⟩ := induction
    rw [recursion] at equal treesEqual
    obtain rfl : names = listedTrees ++ lastTrees := treesEqual
    have head : Reads (.sequence [.identifier, .mark .comma]) false [name, comma]
        [.leaf .identifier name] :=
      (Reads.identifier isName).cons ((Reads.mark isComma).cons .nil)
    refine ⟨name :: comma :: (listed ++ last), ?_, name :: comma :: listed, last,
      .leaf .identifier name :: listedTrees, lastTrees, rfl, rfl, head.more many, final⟩
    rw [equal]
    rfl
  | case4 name isName comma rest noComma =>
    exact ⟨[name], rfl, [], [name], [], _, rfl, rfl, .none, .present (.identifier isName)⟩
  | case5 name rest noName => exact ⟨[], rfl, [], [], [], [], rfl, rfl, .none, .absent⟩

theorem ensures_nameSection {opener : Opener} {kind : NodeKind}
    (isHolder : kind.isHolder = true) (outside : Node.bodyBelow false kind = false)
    (member : Ebnf.opener opener ∈ [Ebnf.opener .tokens, .opener .channels]) :
    ReadsAs (nameSection opener kind) (.construct .prequel) false := by
  refine (Ensures.expect _).bind ?_
  rintro opening _ ⟨rfl, isOpening⟩
  refine ensures_names.bind ?_
  rintro _ _ ⟨listed, last, listedTrees, lastTrees, rfl, rfl, many, final⟩
  refine (Ensures.mark _).bind ?_
  rintro brace _ ⟨rfl, isBrace⟩
  have names : Reads .nameList false (listed ++ (last ++ [brace]))
      (listedTrees ++ lastTrees) :=
    many.cons (final.ended (Reads.mark isBrace).last)
  refine .pure (.construct (.holderAt isHolder (by simp) ?_))
  rw [outside, List.append_nil, List.append_assoc]
  exact (((Reads.passed isOpening rfl).oneOf member).cons names.last).oneOf (by simp)

/-! ## Imports -/

theorem ensures_delegate : ReadsAs delegate .delegate false := by
  refine Ensures.identifier.bind ?_
  rintro name _ ⟨rfl, isName⟩
  refine (Ensures.eat _).bind ?_
  rintro found _ ⟨rfl, isAssign⟩
  cases found with
  | none => exact .pure ((Reads.identifier isName).ended (Reads.absent.cons .nil))
  | some assign =>
    refine Ensures.identifier.bind ?_
    rintro target _ ⟨rfl, targetIsName⟩
    have renamed : Reads (.optional (.sequence [.mark .equals, .identifier])) false
        [assign, target] [.leaf .identifier target] :=
      .present ((Reads.mark (isAssign _ rfl)).cons
        ((Reads.identifier targetIsName).cons .nil))
    refine .pure (.holderAt rfl (by simp) ?_)
    exact (Reads.identifier isName).cons (renamed.ended .nil)

theorem ensures_imports : ReadsAs imports .imports false := by
  refine (Ensures.expect _).bind ?_
  rintro keyword _ ⟨rfl, isKeyword⟩
  refine (ensures_separatedTrees ensures_delegate).bind
    fun delegates delegatesTaken reads => ?_
  refine (Ensures.mark _).bind ?_
  rintro semicolon _ ⟨rfl, isSemicolon⟩
  refine .pure (.holderAt rfl (by simp) ?_)
  exact (Reads.keyword isKeyword).cons (reads.ended ((Reads.mark isSemicolon).cons .nil))

/-! ## Named actions -/

theorem reads_actionName {token : Token} (isName : namesAction token.kind = true) :
    Reads .actionName inBody [token] [.leaf .identifier token] := by
  cases kind : token.kind with
  | tokenRef => exact (Reads.identifier (by rw [kind]; rfl)).oneOf (by simp)
  | ruleRef => exact (Reads.identifier (by rw [kind]; rfl)).oneOf (by simp)
  | keyword word =>
    rw [kind] at isName
    cases word with
    | lexer => exact (Reads.leaf kind rfl rfl).oneOf (by simp [Ebnf.keyword])
    | parser => exact (Reads.leaf kind rfl rfl).oneOf (by simp [Ebnf.keyword])
    | _ => cases isName
  | _ =>
    rw [kind] at isName
    cases isName

theorem ensures_namedAction : ReadsAs namedAction (.construct .namedAction) inBody := by
  refine (Ensures.mark _).bind ?_
  rintro start _ ⟨rfl, isStart⟩
  refine (Ensures.take _ _).bind ?_
  rintro first _ ⟨rfl, isName⟩
  -- What follows is the same with and without a name behind the scope.
  have ending (names : List Token) (namesTaken : List Token)
      (reads : Reads (.optional (.sequence [.mark .doubleColon, .identifier]))
        false namesTaken (names.map (.leaf .identifier))) :
      Ensures (do
        let body ← expect .action
        return Tree.builtAt .namedAction start.span
          ((first :: names).map (.leaf .identifier) ++ [.leaf .action body]))
            fun taken tree =>
        Reads (.construct .namedAction) inBody
          ([start] ++ ([first] ++ (namesTaken ++ taken)))
          [tree] := by
    refine (Ensures.expect _).bind ?_
    rintro body _ ⟨rfl, isBody⟩
    refine .pure (.construct (.holderAt rfl (by simp) ?_))
    exact (Reads.mark isStart).cons ((reads_actionName isName).cons
      (reads.cons ((Reads.leaf isBody rfl rfl).cons .nil)))
  refine (Ensures.eat _).bind ?_
  rintro found _ ⟨rfl, isColon⟩
  cases found with
  | none => exact ending [] [] .absent
  | some colon =>
    refine Ensures.identifier.bind ?_
    rintro name _ ⟨rfl, nameKind⟩
    have named : Reads (.optional (.sequence [.mark .doubleColon, .identifier])) false
        [colon, name] [.leaf .identifier name] :=
      .present ((Reads.mark (isColon _ rfl)).cons ((Reads.identifier nameKind).cons .nil))
    exact ending [name] [colon, name] named

/-! ## Sections of a rule or block -/

theorem ensures_rulePrequel (inBody : Bool) :
    ReadsAs (do
      match ← peek with
      | some (.opener .options) => options
      | _ => namedAction) .rulePrequel inBody := by
  refine .peek fun kind => ?_
  split
  · exact ensures_options.oneOf (by simp)
  · exact ensures_namedAction.oneOf (by simp)

theorem ensures_prequels (inBody : Bool) :
    Ensures prequels (Reads (.many .rulePrequel) inBody) :=
  ensures_manyTrees (ensures_rulePrequel inBody)

end GrammarInspector.Parse
