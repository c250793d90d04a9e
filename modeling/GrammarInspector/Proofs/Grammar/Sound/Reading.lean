import GrammarInspector.Grammar.Reading
import GrammarInspector.Proofs.Grammar.Sound.Rule

/-! # Whole grammars are read as the productions say

Sections and rules are read step by step, and a step that fails leaves tokens out and goes
on. `PrequelStep`, `RuleStep` and `ModeStep` say once in which ways a step can end. For
every step, its trees are built from the tokens it took or left out, and without a fault
these tokens are a phrase of the construct. The statements about repetitions and whole
grammars follow.
-/

namespace GrammarInspector.Reading

open List

variable {tokens taken rest : List Token} {expression : Ebnf} {harvest : Harvest}
  {fault : SyntaxFault}

/-! ## Going on after a fault -/

theorem skipPast_suffix (kind : TokenKind) (tokens : List Token) :
    skipPast kind tokens <:+ tokens :=
  (drop_suffix ..).trans (dropWhile_suffix ..)

theorem length_skipPast_lt {kind : TokenKind} (nonempty : tokens ≠ []) :
    (skipPast kind tokens).length < tokens.length := by
  have positive : 0 < tokens.length := length_pos_iff.mpr nonempty
  have shorter : (tokens.dropWhile fun token => token.kind != kind).length ≤
      tokens.length :=
    (dropWhile_suffix _).length_le
  rw [skipPast, length_drop]
  omega

/-- What is skipped ends with the token looked for if anything is left. -/
theorem exists_skipped (kind : TokenKind) (tokens : List Token) :
    ∃ skipped, tokens = skipped ++ skipPast kind tokens ∧ (skipPast kind tokens ≠ [] →
        ∃ between token, skipped = between ++ [token] ∧ token.kind = kind) := by
  induction tokens with
  | nil => exact ⟨[], rfl, fun found => absurd rfl found⟩
  | cons token rest induction =>
    rcases eq_or_ne token.kind kind with isKind | other
    · have here : skipPast kind (token :: rest) = rest := by simp [skipPast, isKind]
      rw [here]
      exact ⟨[token], rfl, fun _ => ⟨[], token, rfl, isKind⟩⟩
    · have later : skipPast kind (token :: rest) =
          skipPast kind rest := by simp [skipPast, other]
      rw [later]
      obtain ⟨skipped, equal, ending⟩ := induction
      refine ⟨token :: skipped, congrArg (token :: ·) equal, fun found => ?_⟩
      obtain ⟨between, last, rfl, isKind⟩ := ending found
      exact ⟨token :: between, last, rfl, isKind⟩

/-- What a repetition gives, by what each of its steps ensures. It ends where no step
applies, or with a step that took nothing. -/
theorem repeated_spec {α : Type} {step : List Token → Option (α × List Token)}
    {invariant : List Token → Prop} {post : List Token → α → Prop}
    {motive : List Token → List α → Prop}
    (sound : ∀ {tokens value rest}, invariant tokens → step tokens = some (value, rest) →
      ∃ taken, tokens = taken ++ rest ∧ post taken value ∧ invariant rest)
    (nil : motive [] [])
    (cons : ∀ {taken value more values}, post taken value → motive more values →
      motive (taken ++ more) (value :: values))
    (tokens : List Token) (holds : invariant tokens) :
    ∃ taken, tokens = taken ++ (repeated step tokens).2 ∧
      motive taken (repeated step tokens).1 ∧
      (step (repeated step tokens).2 = none ∨ ∃ value ∈ (repeated step tokens).1,
        post [] value) := by
  fun_induction repeated step tokens with
  | case1 tokens stops => exact ⟨[], rfl, nil, Or.inl stops⟩
  | case2 tokens value rest applies shorter values left recursion induction =>
    obtain ⟨taken, rfl, known, kept⟩ := sound holds applies
    obtain ⟨more, restEqual, further, ending⟩ := induction kept
    rw [recursion] at restEqual further ending
    refine ⟨taken ++ more, ?_, cons known further, ?_⟩
    · rw [append_assoc]
      exact congrArg (taken ++ ·) restEqual
    · rcases ending with stops | ⟨last, member, tookNothing⟩
      · exact Or.inl stops
      · exact Or.inr ⟨last, mem_cons_of_mem _ member, tookNothing⟩
  | case3 tokens value rest applies longer =>
    obtain ⟨taken, rfl, known, kept⟩ := sound holds applies
    obtain rfl : taken = [] := by
      rw [length_append] at longer
      exact length_eq_zero_iff.mp (by omega)
    exact ⟨[], rfl, cons known nil, Or.inr ⟨value, mem_singleton_self _, known⟩⟩

/-! ## Steps -/

/-- What a step took: its trees are built from the tokens, which are a phrase if there
was no fault. -/
structure Took (expression : Ebnf) (taken : List Token) (harvest : Harvest) : Prop where
  built : Tree.Built (fun _ => True) false taken harvest.trees
  reads : harvest.faults = [] → Reads expression false taken harvest.trees

theorem Took.of_reads (reads : Reads expression false taken harvest.trees) :
    Took expression taken harvest :=
  ⟨reads.built.mono fun _ _ => trivial, fun _ => reads⟩

/-- A step that failed left its tokens out. -/
theorem Took.of_fault : Took expression taken ⟨[], [fault]⟩ :=
  ⟨.of_forall fun _ _ => trivial, fun none => by cases none⟩

/-- The sections in front of the rules: the token that one begins with, how it is read
and how reading goes on if that fails. -/
inductive IsSection : TokenKind → Parse Tree → (List Token → List Token) → Prop
  | options :
      IsSection (.opener .options) Parse.options (skipPast (.punctuation .rightBrace))
  | tokenNames : IsSection (.opener .tokens) (Parse.nameSection .tokens .tokens)
      (skipPast (.punctuation .rightBrace))
  | channelNames : IsSection (.opener .channels) (Parse.nameSection .channels .channels)
      (skipPast (.punctuation .rightBrace))
  | imports :
      IsSection (.keyword .importWord) Parse.imports (skipPast (.punctuation .semicolon))
  | action : IsSection (.punctuation .at) Parse.namedAction id

section Prequels

variable {kind : TokenKind} {construct : Parse Tree} {recover : List Token → List Token}

theorem IsSection.reads (isSection : IsSection kind construct recover) :
    Parse.ReadsAs construct (.construct .prequel) false := by
  cases isSection with
  | options => exact .construct (Parse.ensures_options.oneOf (by simp))
  | tokenNames => exact Parse.ensures_nameSection rfl rfl (by simp)
  | channelNames => exact Parse.ensures_nameSection rfl rfl (by simp)
  | imports => exact .construct (Parse.ensures_imports.oneOf (by simp))
  | action => exact .construct (Parse.ensures_namedAction.oneOf (by simp))

theorem IsSection.recovers (isSection : IsSection kind construct recover)
    (tokens : List Token) : recover tokens <:+ tokens := by
  cases isSection with
  | action => exact suffix_rfl
  | _ => exact skipPast_suffix ..

theorem IsSection.prequelStep_eq (isSection : IsSection kind construct recover)
    (begins : headKind? tokens = some kind) :
    prequelStep tokens = some (attempt construct recover tokens) := by
  cases isSection <;> rw [prequelStep, begins]

theorem exists_section (applies : prequelStep tokens = some (harvest, rest)) :
    ∃ kind construct recover, IsSection kind construct recover ∧
      headKind? tokens = some kind ∧
      attempt construct recover tokens = (harvest, rest) := by
  unfold prequelStep at applies
  split at applies
  · next begins => exact ⟨_, _, _, .options, begins, Option.some.inj applies⟩
  · next begins => exact ⟨_, _, _, .tokenNames, begins, Option.some.inj applies⟩
  · next begins => exact ⟨_, _, _, .channelNames, begins, Option.some.inj applies⟩
  · next begins => exact ⟨_, _, _, .imports, begins, Option.some.inj applies⟩
  · next begins => exact ⟨_, _, _, .action, begins, Option.some.inj applies⟩
  · cases applies

theorem prequelStep_eq_none_iff : prequelStep tokens = none ↔
    ∀ {kind construct recover}, IsSection kind construct recover →
      headKind? tokens ≠ some kind := by
  constructor
  · intro stops kind construct recover isSection begins
    rw [isSection.prequelStep_eq begins] at stops
    cases stops
  · intro noSection
    cases applies : prequelStep tokens with
    | none => rfl
    | some found =>
      obtain ⟨_, _, _, isSection, begins, _⟩ := exists_section applies
      exact absurd begins (noSection isSection)

/-- How the step of a section ends: with the section, or behind it if it failed. -/
inductive PrequelStep (tokens : List Token) : Harvest → List Token → Prop
  | found {kind : TokenKind} {construct : Parse Tree} {recover : List Token → List Token}
      {tree : Tree} {rest : List Token} (isSection : IsSection kind construct recover)
      (begins : headKind? tokens = some kind)
      (outcome : construct tokens = .done tree rest) :
      PrequelStep tokens ⟨[tree], []⟩ rest
  | failed {kind : TokenKind} {construct : Parse Tree} {recover : List Token → List Token}
      {expected : Expected} {left : List Token}
      (isSection : IsSection kind construct recover)
      (begins : headKind? tokens = some kind)
      (outcome : construct tokens = .failed expected left) :
      PrequelStep tokens ⟨[], [.mismatched expected left]⟩ (recover left)

theorem PrequelStep.applies (ends : PrequelStep tokens harvest rest) :
    prequelStep tokens = some (harvest, rest) := by
  cases ends with
  | found isSection begins outcome =>
    rw [isSection.prequelStep_eq begins, attempt, outcome]
  | failed isSection begins outcome =>
    rw [isSection.prequelStep_eq begins, attempt, outcome]

theorem PrequelStep.of_applies (applies : prequelStep tokens = some (harvest, rest)) :
    PrequelStep tokens harvest rest := by
  obtain ⟨kind, construct, recover, isSection, begins, equal⟩ := exists_section applies
  unfold attempt at equal
  split at equal
  · next outcome =>
    cases equal
    exact .found isSection begins outcome
  · next outcome =>
    cases equal
    exact .failed isSection begins outcome

end Prequels

theorem prequelStep_spec (applies : prequelStep tokens = some (harvest, rest)) :
    ∃ taken, tokens = taken ++ rest ∧ Took (.construct .prequel) taken harvest := by
  cases PrequelStep.of_applies applies with
  | found isSection _ outcome =>
    obtain ⟨taken, equal, reads⟩ := isSection.reads.done outcome
    exact ⟨taken, equal, .of_reads reads⟩
  | failed isSection _ outcome =>
    obtain ⟨taken, equal⟩ :=
      (isSection.recovers _).trans (isSection.reads.failed outcome)
    exact ⟨taken, equal.symm, .of_fault⟩

/-- How one step of the rules ends: with a rule, behind a rule that failed, or behind
tokens that start no rule. -/
inductive RuleStep (token : Token) (behind : List Token) : Harvest → List Token → Prop
  | found {tree : Tree} {faults : List SyntaxFault} {rest : List Token}
      (starts : Parse.startsRule token.kind)
      (outcome : Parse.rule (token :: behind) = .done (tree, faults) rest) :
      RuleStep token behind ⟨[tree], faults⟩ rest
  | failed {expected : Expected} {rest : List Token}
      (starts : Parse.startsRule token.kind)
      (outcome : Parse.rule (token :: behind) = .failed expected rest) :
      RuleStep token behind ⟨[], [.mismatched expected rest]⟩
        (skipPast (.punctuation .semicolon) rest)
  | unstarted (starts : ¬Parse.startsRule token.kind) :
      RuleStep token behind ⟨[], [⟨true, .ruleDeclaration, some token⟩]⟩
        (skipPast (.punctuation .semicolon) (token :: behind))

theorem RuleStep.applies {token : Token} {behind : List Token}
    (ends : RuleStep token behind harvest rest) (notMode : token.kind ≠ .keyword .mode) :
    ruleStep (token :: behind) = some (harvest, rest) := by
  rw [ruleStep, if_neg notMode]
  cases ends with
  | found starts outcome => rw [if_pos starts, outcome]
  | failed starts outcome => rw [if_pos starts, outcome]
  | unstarted starts => rw [if_neg starts]

theorem exists_ruleStep (applies : ruleStep tokens = some (harvest, rest)) :
    ∃ token behind, tokens = token :: behind ∧ token.kind ≠ .keyword .mode ∧
      RuleStep token behind harvest rest := by
  unfold ruleStep at applies
  split at applies
  · cases applies
  · next token behind =>
    split at applies
    · cases applies
    · next notMode =>
      refine ⟨token, behind, rfl, notMode, ?_⟩
      split at applies
      · next starts =>
        split at applies
        · next outcome =>
          cases applies
          exact .found starts outcome
        · next outcome =>
          cases applies
          exact .failed starts outcome
      · next starts =>
        cases applies
        exact .unstarted starts

theorem ruleStep_spec (applies : ruleStep tokens = some (harvest, rest)) :
    ∃ taken, tokens = taken ++ rest ∧ taken ≠ [] ∧
    Took (.construct .rule) taken harvest := by
  -- Skipping takes something wherever there is something.
  have skipped {left : List Token} {fault : SyntaxFault} (nonempty : tokens ≠ [])
      (behind : left <:+ tokens) :
      ∃ taken, tokens = taken ++ skipPast (.punctuation .semicolon) left ∧ taken ≠ [] ∧
        Took (.construct .rule) taken ⟨[], [fault]⟩ := by
    obtain ⟨taken, equal⟩ := (skipPast_suffix (.punctuation .semicolon) left).trans behind
    refine ⟨taken, equal.symm, ?_, .of_fault⟩
    rintro rfl
    cases left with
    | nil => exact nonempty equal.symm
    | cons token others =>
      have shorter : (skipPast (.punctuation .semicolon) (token :: others)).length <
          (token :: others).length := length_skipPast_lt (cons_ne_nil _ _)
      have longer := behind.length_le
      rw [← equal, nil_append] at longer
      omega
  obtain ⟨token, others, rfl, _, ends⟩ := exists_ruleStep applies
  cases ends with
  | found _ outcome =>
    obtain ⟨taken, equal, nonempty, built, complete⟩ := Parse.ensures_rule.done outcome
    exact ⟨taken, equal, nonempty, built, complete⟩
  | failed _ outcome =>
    exact skipped (cons_ne_nil _ _) (Parse.ensures_rule.failed outcome)
  | unstarted => exact skipped (cons_ne_nil _ _) suffix_rfl

theorem collect_spec {step : List Token → Option (Harvest × List Token)}
    {post : List Token → Prop}
    (sound : ∀ {tokens harvest rest}, step tokens = some (harvest, rest) →
      ∃ taken, tokens = taken ++ rest ∧ post taken ∧ Took expression taken harvest)
    (tokens : List Token) :
    ∃ taken, tokens = taken ++ (collect step tokens).2 ∧
      Took (.many expression) taken (collect step tokens).1 ∧
      (step (collect step tokens).2 = none ∨ post []) := by
  have steps : ∀ {tokens harvest rest}, True → step tokens = some (harvest, rest) →
      ∃ taken, tokens = taken ++ rest ∧ (post taken ∧ Took expression taken harvest) ∧
      True := by
    intro tokens harvest rest _ applies
    obtain ⟨taken, equal, holds, took⟩ := sound applies
    exact ⟨taken, equal, ⟨holds, took⟩, trivial⟩
  let together (taken : List Token) (harvests : List Harvest) : Prop :=
    Took (.many expression) taken ⟨harvests.flatMap (·.trees),
      harvests.flatMap (·.faults)⟩
  have nil : together [] [] := ⟨.nothing, fun _ => .none⟩
  have cons : ∀ {taken harvest more harvests},
      (post taken ∧ Took expression taken harvest) →
      together more harvests → together (taken ++ more) (harvest :: harvests) := by
    rintro taken harvest more harvests ⟨_, head⟩ tail
    refine ⟨head.built.append tail.built, fun none => ?_⟩
    obtain ⟨headNone, tailNone⟩ := append_eq_nil_iff.mp none
    exact (head.reads headNone).more (tail.reads tailNone)
  obtain ⟨taken, equal, took, ending⟩ := repeated_spec steps nil cons tokens trivial
  refine ⟨taken, equal, took, ending.imp_right ?_⟩
  rintro ⟨harvest, _, holds, _⟩
  exact holds

theorem prequels_spec (tokens : List Token) :
    ∃ taken, tokens = taken ++ (collect prequelStep tokens).2 ∧
      Took (.many (.construct .prequel)) taken (collect prequelStep tokens).1 := by
  have sound : ∀ {tokens harvest rest}, prequelStep tokens = some (harvest, rest) →
      ∃ taken, tokens = taken ++ rest ∧ True ∧
      Took (.construct .prequel) taken harvest := by
    intro tokens harvest rest applies
    obtain ⟨taken, equal, took⟩ := prequelStep_spec applies
    exact ⟨taken, equal, trivial, took⟩
  obtain ⟨taken, equal, took, _⟩ := collect_spec sound tokens
  exact ⟨taken, equal, took⟩

/-- Rules are read up to a mode or to the end. -/
theorem rules_spec (tokens : List Token) : ∃ taken, tokens = taken ++ (rules tokens).2 ∧
      Took (.many (.construct .rule)) taken (rules tokens).1 ∧
      ruleStep (rules tokens).2 = none := by
  obtain ⟨taken, equal, took, ending⟩ := collect_spec ruleStep_spec tokens
  exact ⟨taken, equal, took, ending.resolve_right fun nothing => nothing rfl⟩

theorem length_rules_le (tokens : List Token) :
    (rules tokens).2.length ≤ tokens.length := by
  obtain ⟨taken, equal, _⟩ := rules_spec tokens
  have lengths := congrArg List.length equal
  rw [length_append] at lengths
  omega

theorem head_of_ruleStep (stops : ruleStep tokens = none) :
    tokens = [] ∨ headKind? tokens = some (.keyword .mode) := by
  unfold ruleStep at stops
  split at stops
  · exact Or.inl rfl
  · split at stops
    · rename_i isMode
      exact Or.inr (congrArg some isMode)
    · split at stops
      · split at stops
        · cases stops
        · cases stops
      · cases stops

/-! ## Modes -/

theorem ensures_modeLine :
    modeLine.Ensures fun taken tree => ∃ keyword name semicolon,
      taken = [keyword, name, semicolon] ∧
      tree = .builtAt .mode keyword.span [.leaf .identifier name] ∧
      Reads (.sequence [.keyword .mode, .identifier, .mark .semicolon]) false taken
        [.leaf .identifier name] := by
  refine (Parse.Ensures.expect _).bind ?_
  rintro keyword _ ⟨rfl, isKeyword⟩
  refine Parse.Ensures.identifier.bind ?_
  rintro name _ ⟨rfl, isName⟩
  refine (Parse.Ensures.mark _).bind ?_
  rintro semicolon _ ⟨rfl, isSemicolon⟩
  refine .pure ⟨keyword, name, semicolon, rfl, rfl, ?_⟩
  exact (Reads.keyword isKeyword).cons
    ((Reads.identifier isName).cons ((Reads.mark isSemicolon).cons .nil))

/-- A lexer mode with its rules. -/
def modeProduction : Ebnf :=
  .sequence [.keyword .mode, .identifier, .mark .semicolon, .many (.construct .rule)]

/-- What a `mode` line and the rules behind it give: a mode, or strays behind a
faulty line. A faulty line that has rules behind it begins with the keyword and ends
with a semicolon. -/
inductive TookMode : List Token → ModeSection → Prop
  | mode {taken : List Token} {tree : Tree} {faults : List SyntaxFault}
      (nonempty : taken ≠ []) (built : Tree.Built (fun _ => True) false taken [tree])
      (reads : faults = [] → Reads modeProduction false taken [tree]) :
      TookMode taken ⟨some tree, [], faults⟩
  | strays {line behind : List Token} {trees : List Tree} {fault : SyntaxFault}
      {faults : List SyntaxFault}
      (marks : trees ≠ [] → ∃ keyword skipped semicolon, line = keyword :: skipped ++
        [semicolon] ∧
        keyword.kind = .keyword .mode ∧ semicolon.kind = .punctuation .semicolon)
      (built : Tree.Built (fun _ => True) false behind trees) :
      TookMode (line ++ behind) ⟨none, trees, fault :: faults⟩

/-- Where modes begin: at the end or in front of the keyword. -/
def AtMode (tokens : List Token) : Prop :=
  tokens = [] ∨ headKind? tokens = some (.keyword .mode)

theorem rules_nil : rules [] = (⟨[], []⟩, []) := by
  rw [rules, collect, repeated]
  rfl

/-- A faulty `mode` line fails behind its keyword. -/
theorem modeLine_failed {keyword : Token} {expected : Expected}
    (isMode : keyword.kind = .keyword .mode)
    (failed : modeLine (keyword :: tokens) = .failed expected rest) :
    rest <:+ tokens := by
  have behind : Parse.Ensures (do
      let name ← Parse.identifier
      let _ ← Parse.mark .semicolon
      return Tree.builtAt .mode keyword.span [.leaf .identifier name]) fun _ _ =>
        True := by
    refine Parse.Ensures.identifier.bind fun _ _ _ => ?_
    exact (Parse.Ensures.mark _).bind fun _ _ _ => .pure trivial
  rw [modeLine, Parse.bind_apply, Parse.expect_cons isMode] at failed
  exact behind.failed failed

/-- How the step of a `mode` line ends: with a mode, or with strays behind a faulty
line. -/
inductive ModeStep (tokens : List Token) : ModeSection → List Token → Prop
  | mode {mode : Tree} {left : List Token} (outcome : modeLine tokens = .done mode left) :
      ModeStep tokens
        ⟨some (mode.append (rules left).1.trees), [], (rules left).1.faults⟩
        (rules left).2
  | strays {expected : Expected} {left : List Token}
      (outcome : modeLine tokens = .failed expected left) :
      ModeStep tokens
        ⟨none, (rules (skipPast (.punctuation .semicolon) left)).1.trees,
          .mismatched expected left ::
            (rules (skipPast (.punctuation .semicolon) left)).1.faults⟩
        (rules (skipPast (.punctuation .semicolon) left)).2

theorem ModeStep.applies {found : ModeSection} (ends : ModeStep tokens found rest)
    (nonempty : tokens ≠ []) : modeStep tokens = some (found, rest) := by
  rw [modeStep, if_neg (by simpa using nonempty)]
  cases ends with
  | mode outcome => simp only [outcome]
  | strays outcome => simp only [outcome]

theorem modeStep_eq_none_iff : modeStep tokens = none ↔ tokens = [] := by
  unfold modeStep
  split
  · next isEmpty => simpa using isEmpty
  · next nonempty => split <;> simpa using nonempty

theorem ModeStep.of_applies {found : ModeSection}
    (applies : modeStep tokens = some (found, rest)) :
    tokens ≠ [] ∧ ModeStep tokens found rest := by
  have nonempty : tokens ≠ [] := by
    rintro rfl
    cases applies
  refine ⟨nonempty, ?_⟩
  cases outcome : modeLine tokens with
  | done mode left =>
    cases (ModeStep.applies (.mode outcome) nonempty).symm.trans applies
    exact .mode outcome
  | failed expected left =>
    cases (ModeStep.applies (.strays outcome) nonempty).symm.trans applies
    exact .strays outcome

theorem modeStep_spec {found : ModeSection} (here : AtMode tokens)
    (applies : modeStep tokens = some (found, rest)) :
    ∃ taken, tokens = taken ++ rest ∧ TookMode taken found ∧ AtMode rest := by
  obtain ⟨nonempty, ends⟩ := ModeStep.of_applies applies
  cases ends with
  | @mode tree left outcome =>
    obtain ⟨line, rfl, keyword, name, semicolon, rfl, rfl, lineReads⟩ :=
      ensures_modeLine.done outcome
    obtain ⟨taken, equal, took, stops⟩ := rules_spec left
    refine ⟨[keyword, name, semicolon] ++ taken, ?_, .mode (by simp) ?_ fun none => ?_,
      head_of_ruleStep stops⟩
    · rw [append_assoc, ← equal]
    · refine .holder rfl ?_ ((lineReads.built.mono fun _ _ => trivial).append took.built)
      rintro own ⟨⟩
      exact Span.from_of_mem (by simp)
    · exact .holderAt rfl (by simp) (lineReads.append (took.reads none).last)
  | @strays expected left outcome =>
    obtain ⟨keyword, tail, rfl, isMode⟩ : ∃ keyword tail, tokens = keyword :: tail ∧
        keyword.kind = .keyword .mode := by
      rcases here with rfl | head
      · exact absurd rfl nonempty
      · cases tokens with
        | nil => cases head
        | cons keyword tail => exact ⟨keyword, tail, rfl, Option.some.inj head⟩
    obtain ⟨front, rfl⟩ := modeLine_failed isMode outcome
    obtain ⟨skipped, skippedEqual, ending⟩ :=
      exists_skipped (.punctuation .semicolon) left
    have marks : (rules (skipPast (.punctuation .semicolon) left)).1.trees ≠ [] →
        ∃ first between last, keyword :: (front ++ skipped) =
          first :: between ++ [last] ∧
          first.kind = .keyword .mode ∧ last.kind = .punctuation .semicolon := by
      intro some
      have reached : skipPast (.punctuation .semicolon) left ≠ [] := by
        intro isEmpty
        rw [isEmpty, rules_nil] at some
        exact some rfl
      obtain ⟨between, semicolon, rfl, isSemicolon⟩ := ending reached
      exact ⟨keyword, front ++ between, semicolon, by simp, isMode, isSemicolon⟩
    obtain ⟨taken, equal, took, stops⟩ :=
      rules_spec (skipPast (.punctuation .semicolon) left)
    refine ⟨keyword :: (front ++ skipped) ++ taken, ?_, .strays marks took.built,
      head_of_ruleStep stops⟩
    simp only [cons_append, append_assoc, ← equal, ← skippedEqual]

/-- The sections of modes with the tokens of each. Without a fault nothing is left
behind them. -/
theorem modes_spec (here : AtMode tokens) : ∃ parts : List (List Token × ModeSection),
      tokens = parts.flatMap (·.1) ++ (repeated modeStep tokens).2 ∧
      (repeated modeStep tokens).1 = parts.map (·.2) ∧
      (∀ part ∈ parts, TookMode part.1 part.2) ∧
      ((repeated modeStep tokens).1.flatMap (·.faults) = [] →
        (repeated modeStep tokens).2 = []) := by
  let together (taken : List Token) (found : List ModeSection) : Prop :=
    ∃ parts : List (List Token × ModeSection), taken = parts.flatMap (·.1) ∧
      found = parts.map (·.2) ∧ ∀ part ∈ parts, TookMode part.1 part.2
  have nil : together [] [] := ⟨[], rfl, rfl, fun part member => by cases member⟩
  have cons : ∀ {taken found more others}, TookMode taken found → together more others →
      together (taken ++ more) (found :: others) := by
    rintro taken found _ _ took ⟨parts, rfl, rfl, each⟩
    exact ⟨(taken, found) :: parts, rfl, rfl, forall_mem_cons.mpr ⟨took, each⟩⟩
  obtain ⟨_, equal, ⟨parts, rfl, foundEqual, each⟩, ending⟩ :=
    repeated_spec modeStep_spec nil cons tokens here
  refine ⟨parts, equal, foundEqual, each, fun none => ?_⟩
  rcases ending with stops | ⟨found, member, tookNothing⟩
  · exact modeStep_eq_none_iff.mp stops
  · exfalso
    have noFaults := flatMap_eq_nil_iff.mp none found member
    generalize nothing : ([] : List Token) = taken at tookNothing
    cases tookNothing with
    | mode nonempty _ _ => exact nonempty nothing.symm
    | strays _ _ => cases noFaults

/-! ## Whole grammars -/

/-- The first line of a grammar. -/
def headerParts : List Ebnf :=
  [.optional (.oneOf [.keyword .lexer, .keyword .parser]), .keyword .grammar, .identifier,
    .mark .semicolon]

theorem flavourOf_spec (tokens : List Token) :
    ∃ taken, tokens = taken ++ (flavourOf tokens).2 ∧
      Reads (.optional (.oneOf [.keyword .lexer, .keyword .parser])) false taken [] := by
  cases tokens with
  | nil => exact ⟨[], rfl, .absent⟩
  | cons token rest =>
    rw [flavourOf]
    split
    · rename_i isLexer
      exact ⟨[token], rfl, .present ((Reads.keyword isLexer).oneOf (by simp))⟩
    · split
      · rename_i isParser
        exact ⟨[token], rfl, .present ((Reads.keyword isParser).oneOf (by simp))⟩
      · exact ⟨[], rfl, .absent⟩

/-- What the first line took. -/
structure TookHeader (taken : List Token) (header : Header)
    (faults : List SyntaxFault) : Prop where
  built : Tree.Built (fun _ => True) false taken header.name.toList
  keyword : ∀ span, header.keyword = some span → span.From taken
  reads : faults = [] → Reads (.sequence headerParts) false taken header.name.toList

/-- Where the first line fails, everything up to the next semicolon is left out. -/
theorem tookHeader_of_fault {front left : List Token} {header : Header}
    (behind : left <:+ rest)
    (built : Tree.Built (fun _ => True) false front header.name.toList)
    (keyword : ∀ span, header.keyword = some span → span.From front) :
    ∃ taken, front ++ rest = taken ++ skipPast (.punctuation .semicolon) left ∧
    TookHeader taken header [fault] := by
  obtain ⟨skipped, equal⟩ := (skipPast_suffix (.punctuation .semicolon) left).trans behind
  refine ⟨front ++ skipped, ?_, ?_, ?_, fun none => by cases none⟩
  · rw [append_assoc, equal]
  · have unused : Tree.Built (fun _ => True) false skipped [] :=
      .of_forall fun _ _ => trivial
    have both := built.append unused
    rwa [append_nil] at both
  · exact fun span own => (keyword span own).mono (subset_append_left ..)

/-- The first line takes tokens from the front, also where it is faulty. -/
theorem header_spec (tokens : List Token) :
    ∃ taken, tokens = taken ++ (behindHeader (header tokens).2).2 ∧
      TookHeader taken (header tokens).1 (behindHeader (header tokens).2).1 := by
  obtain ⟨front, equal, flavourReads⟩ := flavourOf_spec tokens
  rw [header]
  generalize flavourOf tokens = result at equal
  obtain ⟨flavour, rest⟩ := result
  subst equal
  dsimp only
  split
  · rename_i failed
    refine tookHeader_of_fault ((Parse.Ensures.expect _).failed failed) ?_ ?_
    · exact .of_forall fun _ _ => trivial
    · exact fun span none => by cases none
  · rename_i keyword behind outcome
    obtain ⟨_, rfl, rfl, isKeyword⟩ := (Parse.Ensures.expect _).done outcome
    have keywordReads := flavourReads.cons (Reads.keyword isKeyword).last
    have keywordFrom : ∀ span, some keyword.span = some span →
        span.From (front ++ [keyword]) := by
      rintro span ⟨⟩
      exact Span.from_of_mem (by simp)
    rw [← append_assoc]
    split
    · rename_i failed
      refine tookHeader_of_fault (Parse.Ensures.identifier.failed failed) ?_ keywordFrom
      exact .of_forall fun _ _ => trivial
    · rename_i name left found
      obtain ⟨_, rfl, rfl, isName⟩ := Parse.Ensures.identifier.done found
      have nameReads := keywordReads.append (Reads.identifier isName).last
      have nameFrom (span : Span) (own : some keyword.span = some span) :
          span.From (front ++ [keyword] ++ [name]) :=
        (keywordFrom span own).mono (subset_append_left ..)
      rw [← append_assoc]
      cases ending : Parse.mark .semicolon left with
      | failed expected behind =>
        exact tookHeader_of_fault ((Parse.Ensures.mark _).failed ending)
          (nameReads.built.mono fun _ _ => trivial) nameFrom
      | done semicolon behind =>
        obtain ⟨_, rfl, rfl, isSemicolon⟩ := (Parse.Ensures.mark _).done ending
        have whole := nameReads.append (Reads.mark isSemicolon).last
        rw [← append_assoc]
        refine ⟨_, rfl, whole.built.mono fun _ _ => trivial, ?_, fun _ => whole⟩
        exact fun span own => (nameFrom span own).mono (subset_append_left ..)

/-- How the tokens of a grammar are divided among its parts, and what was read from
each of them. -/
structure Division (tokens : List Token) where
  line : Header
  sections : Harvest
  declared : Harvest
  lineFaults : List SyntaxFault
  lineTokens : List Token
  sectionTokens : List Token
  declaredTokens : List Token
  /-- The sections of modes, each with its tokens. -/
  modes : List (List Token × ModeSection)
  /-- Tokens that are left over. -/
  left : List Token
  tokens_eq :
      tokens = lineTokens ++
      (sectionTokens ++ (declaredTokens ++ (modes.flatMap (·.1) ++ left)))
  tree_eq : (ofTokens tokens).tree = .node ⟨.grammar, line.flavour.rootText,
      line.keyword, none⟩ (line.name.toList ++ sections.trees ++
      [.group .rules (declared.trees ++ modes.flatMap (·.2.strays))] ++
        modes.filterMap (·.2.mode))
  faults_eq : (ofTokens tokens).faults =
    lineFaults ++ sections.faults ++ declared.faults ++ modes.flatMap (·.2.faults)
  tookLine : TookHeader lineTokens line lineFaults
  tookSections : Took (.many (.construct .prequel)) sectionTokens sections
  tookDeclared : Took (.many (.construct .rule)) declaredTokens declared
  tookModes : ∀ part ∈ modes, TookMode part.1 part.2
  complete : modes.flatMap (·.2.faults) = [] → left = []

theorem nonempty_division (tokens : List Token) : Nonempty (Division tokens) := by
  obtain ⟨lineTokens, lineEqual, tookLine⟩ := header_spec tokens
  obtain ⟨sectionTokens, sectionEqual, tookSections⟩ :=
    prequels_spec (behindHeader (header tokens).2).2
  obtain ⟨declaredTokens, declaredEqual, tookDeclared, stops⟩ :=
    rules_spec (collect prequelStep (behindHeader (header tokens).2).2).2
  obtain ⟨modes, modesEqual, found, tookModes, complete⟩ :=
    modes_spec (head_of_ruleStep stops)
  have strays : modes.flatMap (·.2.strays) = (modes.map (·.2)).flatMap (·.strays) := by
    rw [flatMap_map]
  have trees : modes.filterMap (·.2.mode) = (modes.map (·.2)).filterMap (·.mode) := by
    rw [filterMap_map]
    rfl
  have faults : modes.flatMap (·.2.faults) = (modes.map (·.2)).flatMap (·.faults) := by
    rw [flatMap_map]
  rw [found] at complete
  exact ⟨{
    line := _, sections := _, declared := _, lineFaults := _, lineTokens, sectionTokens,
    declaredTokens, modes, left := _
    tokens_eq := by rw [← modesEqual, ← declaredEqual, ← sectionEqual, ← lineEqual]
    tree_eq := by
      rw [strays, trees, ← found]
      rfl
    faults_eq := by
      rw [faults, ← found]
      rfl
    tookLine, tookSections, tookDeclared, tookModes
    complete := fun none => complete (by rwa [← faults]) }⟩

theorem derives_modes {modes : List (List Token × ModeSection)}
    (took : ∀ part ∈ modes, TookMode part.1 part.2)
    (none : modes.flatMap (·.2.faults) = []) :
    (Ebnf.many modeProduction).Derives ((modes.flatMap (·.1)).map Token.kind) := by
  induction modes with
  | nil => exact .none
  | cons part rest induction =>
    obtain ⟨headNone, tailNone⟩ := append_eq_nil_iff.mp none
    obtain ⟨head, tail⟩ := forall_mem_cons.mp took
    obtain ⟨taken, found⟩ := part
    rw [flatMap_cons, map_append]
    refine .more ?_ (induction tail tailNone)
    cases head with
    | mode _ _ reads => exact (reads headNone).derives
    | strays _ _ => cases headNone

/-- Tokens that are read without a fault are a phrase of the grammar language. -/
theorem derives_of_faults_nil (none : (ofTokens tokens).faults = []) :
    (Ebnf.construct .grammarSpec).Derives (tokens.map Token.kind ++ [.eof]) := by
  obtain ⟨division⟩ := nonempty_division tokens
  rw [division.faults_eq, append_eq_nil_iff, append_eq_nil_iff, append_eq_nil_iff] at none
  obtain ⟨⟨⟨noLine, noSections⟩, noRules⟩, noModes⟩ := none
  rw [division.tokens_eq, division.complete noModes]
  simp only [map_append, append_assoc, map_nil, nil_append]
  refine .construct ((division.tookLine.reads noLine).derives.append ?_)
  refine .cons (division.tookSections.reads noSections).derives ?_
  refine .cons (division.tookDeclared.reads noRules).derives ?_
  exact .cons (derives_modes division.tookModes noModes) (.cons (.terminal _) .nil)

end GrammarInspector.Reading
