import GrammarInspector.Proofs.Grammar.Alike.Rule
import GrammarInspector.Proofs.Grammar.Complete.Reading

/-! # Whole grammars side by side

Sections, rules and modes are read alike from tokens that are alike, faulty ones included.
So two lists of tokens that differ in their places only give trees that differ in their
places only.
-/

namespace GrammarInspector.Reading

open List

open Parse (Parallel Steady)

variable {α : Type} {pace : Lockstep} {fits : α → α → Prop}
  {tokens others rest : List Token} {pairing : Span.Pairing}

/-- Trees and faults that are alike. -/
structure Harvest.Alike (pace : Lockstep) (harvest other : Harvest) : Prop where
  trees : Forall₂ (Tree.Alike pace.pairing) harvest.trees other.trees
  faults : Forall₂ (SyntaxFault.Alike pace.Meets) harvest.faults other.faults

structure Header.Alike (pairing : Span.Pairing) (header other : Header) : Prop where
  flavour : header.flavour = other.flavour
  keyword : Option.Rel pairing.pairs header.keyword other.keyword
  name : Option.Rel (Tree.Alike pairing) header.name other.name

structure ModeSection.Alike (pace : Lockstep) (found other : ModeSection) : Prop where
  mode : Option.Rel (Tree.Alike pace.pairing) found.mode other.mode
  strays : Forall₂ (Tree.Alike pace.pairing) found.strays other.strays
  faults : Forall₂ (SyntaxFault.Alike pace.Meets) found.faults other.faults

/-! ## Steps -/

theorem skipPast_alike {kind : TokenKind} (alike : pace.Alike tokens others)
    (shared : pace.tail.length ≤ (skipPast kind tokens).length) :
    pace.Alike (skipPast kind tokens) (skipPast kind others) := by
  induction alike with
  | ends =>
    by_cases isEmpty : pace.tail = []
    · have same : pace.Alike [] pace.other := isEmpty ▸ .ends
      rw [isEmpty, same.eq_nil]
      rw [same.eq_nil] at same
      exact same
    · exact absurd shared (Nat.not_le_of_lt (length_skipPast_lt isEmpty))
  | @cons token first tokens others alike further induction =>
    by_cases isKind : token.kind = kind
    · have here (token : Token) (rest : List Token) (isKind : token.kind = kind) :
          skipPast kind (token :: rest) = rest := by simp [skipPast, isKind]
      rw [here _ _ isKind, here _ _ (alike.kind.symm.trans isKind)]
      exact further
    · have later (token : Token) (rest : List Token) (other : token.kind ≠ kind) :
          skipPast kind (token :: rest) = skipPast kind rest := by simp [skipPast, other]
      rw [later _ _ isKind] at shared ⊢
      rw [later _ _ fun isKindToo => isKind (alike.kind.trans isKindToo)]
      exact induction shared

/-- A step that does the same on lists of tokens that are alike. -/
structure StepAlike (pace : Lockstep) (fits : α → α → Prop)
    (step : List Token → Option (α × List Token)) : Prop where
  shrinks : ∀ {tokens value rest}, step tokens = some (value, rest) →
      rest.length ≤ tokens.length
  stops : ∀ {tokens others}, pace.Alike tokens others → step tokens = none →
      step others = none
  applies : ∀ {tokens others value rest}, pace.Alike tokens others →
      step tokens = some (value, rest) →
    pace.tail.length ≤ rest.length →
      ∃ result left, step others = some (result, left) ∧ fits value result ∧
      pace.Alike rest left

namespace StepAlike

variable {step : List Token → Option (α × List Token)}

theorem length_repeated_le (alike : StepAlike pace fits step) (tokens : List Token) :
    (repeated step tokens).2.length ≤ tokens.length := by
  fun_induction repeated step tokens with
  | case1 tokens stops => exact Nat.le_refl _
  | case2 tokens value rest applies shorter values left recursion induction =>
    rw [recursion] at induction
    exact Nat.le_trans induction (Nat.le_of_lt shorter)
  | case3 tokens value rest applies longer => exact alike.shrinks applies

theorem repeated (alike : StepAlike pace fits step)
    (tokensAlike : pace.Alike tokens others)
    (shared : pace.tail.length ≤ (repeated step tokens).2.length) :
    Forall₂ fits (Reading.repeated step tokens).1 (Reading.repeated step others).1 ∧
      pace.Alike (Reading.repeated step tokens).2 (Reading.repeated step others).2 := by
  induction count : tokens.length using Nat.strongRecOn generalizing tokens others with
  | ind count induction =>
    have lengths := tokensAlike.length_eq
    rw [Reading.repeated] at shared ⊢
    rw [Reading.repeated]
    cases outcome : step tokens with
    | none =>
      rw [alike.stops tokensAlike outcome]
      exact ⟨.nil, tokensAlike⟩
    | some found =>
      obtain ⟨value, rest⟩ := found
      simp only [outcome] at shared
      by_cases shorter : rest.length < tokens.length
      · simp only [if_pos shorter] at shared ⊢
        obtain ⟨result, left, applies, holds, restAlike⟩ :=
          alike.applies tokensAlike outcome
          (Nat.le_trans shared (alike.length_repeated_le rest))
        have restLengths := restAlike.length_eq
        have shorterToo : left.length < others.length := by omega
        obtain ⟨values, leftAlike⟩ := induction _ (count ▸ shorter) restAlike shared rfl
        simp only [applies, if_pos shorterToo]
        exact ⟨.cons holds values, leftAlike⟩
      · simp only [if_neg shorter] at shared ⊢
        obtain ⟨result, left, applies, holds, restAlike⟩ :=
          alike.applies tokensAlike outcome shared
        have restLengths := restAlike.length_eq
        have longerToo : ¬ left.length < others.length := by omega
        simp only [applies, if_neg longerToo]
        exact ⟨.cons holds .nil, restAlike⟩

end StepAlike

theorem collect_alike {step : List Token → Option (Harvest × List Token)}
    (alike : StepAlike pace (Harvest.Alike pace) step)
    (tokensAlike : pace.Alike tokens others)
    (shared : pace.tail.length ≤ (collect step tokens).2.length) :
    (collect step tokens).1.Alike pace (collect step others).1 ∧
      pace.Alike (collect step tokens).2 (collect step others).2 := by
  obtain ⟨harvests, restAlike⟩ := alike.repeated tokensAlike shared
  refine ⟨⟨?_, ?_⟩, restAlike⟩
  · exact rel_flatMap harvests fun _ _ holds => holds.trees
  · exact rel_flatMap harvests fun _ _ holds => holds.faults

/-! ## Sections -/

theorem IsSection.steady {kind : TokenKind} {construct : Parse Tree}
    {recover : List Token → List Token} (isSection : IsSection kind construct recover) :
    Steady pace .all True construct := by
  cases isSection with
  | options => exact Parse.parallel_options
  | tokenNames => exact Parse.parallel_nameSection
  | channelNames => exact Parse.parallel_nameSection
  | imports => exact Parse.parallel_imports fun _ => trivial
  | action => exact Parse.parallel_namedAction

theorem IsSection.recovers_alike {kind : TokenKind} {construct : Parse Tree}
    {recover : List Token → List Token} (isSection : IsSection kind construct recover)
    (alike : pace.Alike tokens others)
    (shared : pace.tail.length ≤ (recover tokens).length) :
    pace.Alike (recover tokens) (recover others) := by
  cases isSection with
  | action => exact alike
  | _ => exact skipPast_alike alike shared

theorem prequelStep_alike : StepAlike pace (Harvest.Alike pace) prequelStep := by
  constructor
  · intro tokens harvest rest applies
    obtain ⟨taken, rfl, _⟩ := prequelStep_spec applies
    exact (suffix_append ..).length_le
  · intro tokens others alike stops
    refine prequelStep_eq_none_iff.mpr fun isSection begins => ?_
    exact prequelStep_eq_none_iff.mp stops isSection (alike.headKind?_eq.trans begins)
  · intro tokens others harvest rest alike applies shared
    cases PrequelStep.of_applies applies with
    | found isSection begins outcome =>
      obtain ⟨other, left, doneToo, treeAlike, restAlike⟩ :=
        isSection.steady.exists_done trivial alike outcome shared
      rw [alike.headKind?_eq] at begins
      exact ⟨_, _, PrequelStep.applies (.found isSection begins doneToo),
        ⟨.cons treeAlike .nil, .nil⟩, restAlike⟩
    | failed isSection begins outcome =>
      obtain ⟨left, failedToo, leftAlike⟩ :=
        isSection.steady.exists_failed trivial alike outcome
          (Nat.le_trans shared (isSection.recovers _).length_le)
      rw [alike.headKind?_eq] at begins
      exact ⟨_, _, PrequelStep.applies (.failed isSection begins failedToo),
        ⟨.nil, .cons (.mismatched leftAlike) .nil⟩,
        isSection.recovers_alike leftAlike shared⟩

/-! ## Rules and modes -/

theorem ruleStep_alike : StepAlike pace (Harvest.Alike pace) ruleStep := by
  have rule : Parallel pace .all True (Parse.RulesAlike pace) Parse.rule Parse.rule :=
    Parse.parallel_rule
  constructor
  · intro tokens harvest rest applies
    obtain ⟨taken, rfl, _⟩ := ruleStep_spec applies
    exact (suffix_append ..).length_le
  · intro tokens others alike stops
    refine ruleStep_eq_none ?_
    rw [← alike.headKind?_eq]
    rcases head_of_ruleStep stops with rfl | isMode
    · rfl
    · rw [isMode]
      rfl
  · intro tokens others harvest rest alike applies shared
    obtain ⟨token, behind, rfl, notMode, ends⟩ := exists_ruleStep applies
    have whole := alike
    obtain ⟨first, further, rfl, kinds, _⟩ := alike.exists_cons
    rw [kinds] at notMode
    cases ends with
    | found starts outcome =>
      obtain ⟨⟨other, otherFaults⟩, last, doneToo, found, leftAlike⟩ :=
        rule.exists_done trivial whole outcome shared
      rw [kinds] at starts
      exact ⟨_, _, RuleStep.applies (.found starts doneToo) notMode,
        ⟨.cons found.tree .nil, found.faults⟩, leftAlike⟩
    | failed starts outcome =>
      obtain ⟨last, failedToo, leftAlike⟩ := rule.exists_failed trivial whole outcome
        (Nat.le_trans shared (skipPast_suffix ..).length_le)
      rw [kinds] at starts
      exact ⟨_, _, RuleStep.applies (.failed starts failedToo) notMode,
        ⟨.nil, .cons (.mismatched leftAlike) .nil⟩, skipPast_alike leftAlike shared⟩
    | unstarted starts =>
      rw [kinds] at starts
      exact ⟨_, _, RuleStep.applies (.unstarted starts) notMode,
        ⟨.nil, .cons ⟨rfl, rfl, _, _, whole, rfl, rfl⟩ .nil⟩, skipPast_alike whole shared⟩

theorem rules_alike (alike : pace.Alike tokens others)
    (shared : pace.tail.length ≤ (rules tokens).2.length) :
    (rules tokens).1.Alike pace (rules others).1 ∧
    pace.Alike (rules tokens).2 (rules others).2 :=
  collect_alike ruleStep_alike alike shared

theorem parallel_modeLine : Steady pace .all True modeLine := by
  refine (Parallel.expect (by decide)).bind fun keyword _ => ?_
  refine Parallel.identifier.bind fun name _ => ?_
  refine (Parallel.semicolon fun _ => trivial).bind fun _ _ => .pure fun given => ?_
  obtain ⟨⟨⟨_, keywords⟩, names⟩, _⟩ := given
  exact .builtAt (.some keywords.span) (.cons (.leaf names) .nil)

theorem modeStep_alike : StepAlike pace (ModeSection.Alike pace) modeStep := by
  have parallel : Steady pace .all True modeLine := parallel_modeLine
  have skips (rest : List Token) :
      (rules (skipPast (.punctuation .semicolon) rest)).2.length ≤ rest.length :=
    Nat.le_trans (length_rules_le _) (skipPast_suffix ..).length_le
  constructor
  · intro tokens found rest applies
    obtain ⟨_, ends⟩ := ModeStep.of_applies applies
    have bound := parallel.rest_length_le tokens
    cases ends with
    | mode outcome =>
      rw [outcome] at bound
      exact Nat.le_trans (length_rules_le _) bound
    | strays outcome =>
      rw [outcome] at bound
      exact Nat.le_trans (skips _) bound
  · intro tokens others alike stops
    obtain rfl := modeStep_eq_none_iff.mp stops
    exact modeStep_eq_none_iff.mpr alike.eq_nil
  · intro tokens others found rest alike applies shared
    obtain ⟨nonempty, ends⟩ := ModeStep.of_applies applies
    have nonemptyToo : others ≠ [] := by
      rintro rfl
      have heads := alike.headKind?_eq
      cases tokens with
      | nil => exact nonempty rfl
      | cons token behind => cases heads
    cases ends with
    | mode outcome =>
      obtain ⟨other, last, doneToo, modeAlike, leftAlike⟩ :=
        parallel.exists_done trivial alike outcome
          (Nat.le_trans shared (length_rules_le _))
      obtain ⟨harvestAlike, restAlike⟩ := rules_alike leftAlike shared
      exact ⟨_, _, ModeStep.applies (.mode doneToo) nonemptyToo,
        ⟨.some (modeAlike.append harvestAlike.trees), .nil, harvestAlike.faults⟩,
        restAlike⟩
    | strays outcome =>
      obtain ⟨last, failedToo, leftAlike⟩ := parallel.exists_failed trivial alike outcome
        (Nat.le_trans shared (skips _))
      obtain ⟨harvestAlike, restAlike⟩ :=
        rules_alike (skipPast_alike leftAlike (Nat.le_trans shared (length_rules_le _)))
          shared
      exact ⟨_, _, ModeStep.applies (.strays failedToo) nonemptyToo,
        ⟨.none, harvestAlike.trees, .cons (.mismatched leftAlike) harvestAlike.faults⟩,
        restAlike⟩

/-! ## Whole grammars -/

theorem flavourOf_alike (alike : pace.Alike tokens others)
    (shared : pace.tail.length ≤ (flavourOf tokens).2.length) :
    (flavourOf tokens).1 = (flavourOf others).1 ∧
    pace.Alike (flavourOf tokens).2 (flavourOf others).2 := by
  cases tokens with
  | nil =>
    obtain rfl := alike.eq_nil
    exact ⟨rfl, alike⟩
  | cons token rest =>
    have whole := alike
    obtain ⟨first, further, rfl, kinds, behind⟩ := alike.exists_cons
    rw [flavourOf] at shared ⊢
    rw [flavourOf, ← kinds]
    by_cases isLexer : token.kind = .keyword .lexer
    · rw [if_pos isLexer] at shared
      rw [if_pos isLexer, if_pos isLexer]
      exact ⟨rfl, (behind shared).2⟩
    · rw [if_neg isLexer] at shared
      rw [if_neg isLexer, if_neg isLexer]
      by_cases isParser : token.kind = .keyword .parser
      · rw [if_pos isParser] at shared
        rw [if_pos isParser, if_pos isParser]
        exact ⟨rfl, (behind shared).2⟩
      · rw [if_neg isParser, if_neg isParser]
        exact ⟨rfl, whole⟩

/-- The first line behind its flavour. -/
def headerBehind (flavour : GrammarFlavour) (tokens : List Token) :
    Header × Outcome Token :=
  match Parse.expect (.keyword .grammar) tokens with
  | .failed expected rest => (⟨.combined, none, none⟩, .failed expected rest)
  | .done keyword rest =>
    match Parse.identifier rest with
    | .failed expected rest => (⟨flavour, some keyword.span, none⟩, .failed expected rest)
    | .done name rest =>
      (⟨flavour, some keyword.span, some (.leaf .identifier name)⟩,
        Parse.mark .semicolon rest)

theorem header_eq (tokens : List Token) :
    header tokens = headerBehind (flavourOf tokens).1 (flavourOf tokens).2 := rfl

theorem headerBehind_alike {flavour : GrammarFlavour} (alike : pace.Alike tokens others)
    (shared : pace.tail.length ≤ (headerBehind flavour tokens).2.rest.length) :
    (headerBehind flavour tokens).1.Alike pace.pairing (headerBehind flavour others).1 ∧
      (headerBehind flavour tokens).2.Parallel pace (Token.Alike pace.pairing)
        (headerBehind flavour others).2 := by
  have keywords : Parallel pace .all True (Token.Alike pace.pairing)
      (Parse.expect (.keyword .grammar)) (Parse.expect (.keyword .grammar)) :=
        .expect (by decide)
  have names : Parallel pace .all True (Token.Alike pace.pairing) Parse.identifier
      Parse.identifier := .identifier
  have marks : Parallel pace .all True (Token.Alike pace.pairing) (Parse.mark .semicolon)
      (Parse.mark .semicolon) := .semicolon fun _ => trivial
  rw [headerBehind] at shared ⊢
  rw [headerBehind]
  cases first : Parse.expect (.keyword .grammar) tokens with
  | failed expected rest =>
    rw [first] at shared
    obtain ⟨left, firstToo, restAlike⟩ :=
      keywords.exists_failed trivial alike first shared
    rw [firstToo]
    exact ⟨⟨rfl, .none, .none⟩, .failed restAlike⟩
  | done keyword rest =>
    rw [first] at shared
    dsimp only at shared ⊢
    cases second : Parse.identifier rest with
    | failed expected behind =>
      rw [second] at shared
      have fewer := names.rest_length_le rest
      rw [second] at fewer
      obtain ⟨other, left, firstToo, keywordAlike, restAlike⟩ :=
        keywords.exists_done trivial alike first (Nat.le_trans shared fewer)
      obtain ⟨last, secondToo, behindAlike⟩ :=
        names.exists_failed trivial restAlike second shared
      simp only [firstToo, secondToo]
      exact ⟨⟨rfl, .some keywordAlike.span, .none⟩, .failed behindAlike⟩
    | done name behind =>
      rw [second] at shared
      have fewer := names.rest_length_le rest
      rw [second] at fewer
      have enough := Nat.le_trans shared (marks.rest_length_le behind)
      obtain ⟨other, left, firstToo, keywordAlike, restAlike⟩ :=
        keywords.exists_done trivial alike first (Nat.le_trans enough fewer)
      obtain ⟨twin, last, secondToo, nameAlike, behindAlike⟩ :=
        names.exists_done trivial restAlike second enough
      simp only [firstToo, secondToo]
      exact ⟨⟨rfl, .some keywordAlike.span, .some (.leaf nameAlike)⟩,
        marks.agrees trivial behindAlike shared⟩

theorem length_headerBehind_le (flavour : GrammarFlavour) (tokens : List Token) :
    (headerBehind flavour tokens).2.rest.length ≤ tokens.length := by
  have fewer {parse : Parse Token} {post : List Token → Token → Prop}
      (ensures : parse.Ensures post)
      (tokens : List Token) : (parse tokens).rest.length ≤ tokens.length := by
    cases outcome : parse tokens with
    | done token rest =>
      obtain ⟨taken, rfl, _⟩ := ensures.done outcome
      exact (suffix_append ..).length_le
    | failed expected rest => exact (ensures.failed outcome).length_le
  have keywordFewer := fewer (Parse.Ensures.expect (.keyword .grammar)) tokens
  rw [headerBehind]
  cases first : Parse.expect (.keyword .grammar) tokens with
  | failed expected rest => rwa [first] at keywordFewer
  | done keyword rest =>
    have nameFewer := fewer Parse.Ensures.identifier rest
    rw [first] at keywordFewer
    dsimp only
    cases second : Parse.identifier rest with
    | failed expected behind =>
      rw [second] at nameFewer
      exact Nat.le_trans nameFewer keywordFewer
    | done name behind =>
      rw [second] at nameFewer
      exact Nat.le_trans (fewer (Parse.Ensures.mark .semicolon) behind)
        (Nat.le_trans nameFewer keywordFewer)

theorem header_alike (alike : pace.Alike tokens others)
    (shared : pace.tail.length ≤ (header tokens).2.rest.length) :
    (header tokens).1.Alike pace.pairing (header others).1 ∧
      (header tokens).2.Parallel pace (Token.Alike pace.pairing) (header others).2 := by
  rw [header_eq] at shared ⊢
  rw [header_eq]
  obtain ⟨flavours, restAlike⟩ :=
    flavourOf_alike alike (Nat.le_trans shared (length_headerBehind_le ..))
  rw [← flavours]
  exact headerBehind_alike restAlike shared

theorem behindHeader_alike {outcome other : Outcome Token} {kept : Token → Token → Prop}
    (alike : outcome.Parallel pace kept other)
    (shared : pace.tail.length ≤ (behindHeader outcome).2.length) :
    Forall₂ (SyntaxFault.Alike pace.Meets) (behindHeader outcome).1
      (behindHeader other).1 ∧
      pace.Alike (behindHeader outcome).2 (behindHeader other).2 := by
  cases alike with
  | done _ restAlike => exact ⟨.nil, restAlike⟩
  | failed restAlike =>
      exact ⟨.cons (.mismatched restAlike) .nil, skipPast_alike restAlike shared⟩

/-- Lists of tokens that are alike from the first token to the last. -/
def throughout (pairing : Span.Pairing) : Lockstep where
  pairing
  tail := []
  other := []
  heads := rfl
  seconds := Or.inr rfl

theorem alike_throughout (alike : Forall₂ (Token.Alike pairing) tokens others) :
    (throughout pairing).Alike tokens others := by
  induction alike with
  | nil => exact .ends
  | cons first _ induction => exact .cons first induction

theorem rel_of_meets {token first : Option Token}
    (meets : (throughout pairing).Meets token first) :
    Option.Rel (Token.Alike pairing) token first := by
  obtain ⟨tokens, others, alike, rfl, rfl⟩ := meets
  cases alike with
  | ends => exact .none
  | cons same _ => exact .some same

/-- Readings that differ in places only. -/
structure Alike (pairing : Span.Pairing) (reading other : Reading) : Prop where
  flavour : reading.flavour = other.flavour
  tree : reading.tree.Alike pairing other.tree
  faults : Forall₂ (SyntaxFault.Alike (Option.Rel (Token.Alike pairing)))
      reading.faults other.faults

/-- What the tokens of a grammar say, but for places, depends on their kinds
and texts only. -/
theorem ofTokens_alike (alike : Forall₂ (Token.Alike pairing) tokens others) :
    (ofTokens tokens).Alike pairing (ofTokens others) := by
  have same := alike_throughout alike
  obtain ⟨headerAlike, outcomes⟩ := header_alike same (Nat.zero_le _)
  obtain ⟨headerFaults, restAlike⟩ := behindHeader_alike outcomes (Nat.zero_le _)
  obtain ⟨sections, behindSections⟩ :=
    collect_alike prequelStep_alike restAlike (Nat.zero_le _)
  obtain ⟨declared, behindRules⟩ := rules_alike behindSections (Nat.zero_le _)
  obtain ⟨modes, _⟩ := modeStep_alike.repeated behindRules (Nat.zero_le _)
  have strays := rel_flatMap modes fun _ _ holds => holds.strays
  have modeFaults := rel_flatMap modes fun _ _ holds => holds.faults
  have modeTrees := rel_filterMap (fun _ _ holds => ModeSection.Alike.mode holds) modes
  have names : Forall₂ (Tree.Alike pairing) (header tokens).1.name.toList
      (header others).1.name.toList := by
    have named := headerAlike.name
    generalize (header tokens).1.name = name at named ⊢
    generalize (header others).1.name = other at named ⊢
    cases named with
    | none => exact .nil
    | some nameAlike => exact .cons nameAlike .nil
  refine ⟨headerAlike.flavour, .node ⟨rfl, ?_, headerAlike.keyword, .none⟩ ?_, ?_⟩
  · exact congrArg GrammarFlavour.rootText headerAlike.flavour
  · refine rel_append (rel_append (rel_append names sections.trees) ?_) modeTrees
    exact .cons (.group (rel_append declared.trees strays)) .nil
  · have faults := rel_append
      (rel_append (rel_append headerFaults sections.faults) declared.faults) modeFaults
    exact faults.imp fun _ _ same =>
      ⟨same.extraneous, same.expected, rel_of_meets same.found⟩

end GrammarInspector.Reading
