import GrammarInspector.Proofs.Grammar.Alike.Reading
import GrammarInspector.Proofs.Grammar.Attempts

/-! # Every fault costs a token

Each section in front of the rules, each rule and each `mode` line takes at least one
token, also where it fails and nothing is skipped. At most one fault is noted on the way,
so there are no more faults than tokens, apart from one that a header can have without
taking a token.
-/

namespace GrammarInspector

open List

namespace Parse

variable {tokens rest : List Token}

theorem length_faults_handlers (tokens : List Token) :
    (handlers tokens).faults.length ≤ 1 := by
  fun_induction handlers tokens with
  | case2 _ _ _ _ _ _ _ induction => exact induction
  | _ => simp

theorem length_faults_rule {tree : Tree} {faults : List SyntaxFault}
    (outcome : rule tokens = .done (tree, faults) rest) : faults.length ≤ 1 := by
  cases RuleDone.of_rule outcome with
  | lexer => exact Nat.zero_le _
  | parser => exact length_faults_handlers _

end Parse

namespace Reading

/-- Whether a step takes a token and notes at most one fault. -/
structure Advances (tokens : List Token) (faults : List SyntaxFault)
    (rest : List Token) : Prop where
  shorter : rest.length < tokens.length
  single : faults.length ≤ 1

variable {tokens rest : List Token}

/-! ## Steps -/

/-- A section takes the token that it begins with, even if it fails later. -/
theorem IsSection.exists_behind {kind : TokenKind} {construct : Parse Tree}
    {recover : List Token → List Token} (isSection : IsSection kind construct recover)
    (begins : headKind? tokens = some kind) :
    ∃ (token : Token) (others : List Token) (behind : Parse Tree),
      tokens = token :: others ∧ construct tokens = behind others ∧
      behind.Ensures fun _ _ => True := by
  obtain ⟨next, rfl, ensures⟩ : ∃ next : Token → Parse Tree,
      construct = Parse.expect kind >>= next ∧
      ∀ token, (next token).Ensures fun _ _ => True := by
    have closed {α β : Type} {parse : Parse α} {post : List Token → α → Prop}
        {mark : Mark} {make : α → β} (ensures : parse.Ensures post) :
        Parse.Ensures (do let value ← parse; let _ ← Parse.mark mark; return make value)
          fun _ _ => True :=
      ensures.bind fun _ _ _ => (Parse.Ensures.mark _).bind fun _ _ _ => .pure trivial
    have acted {make : Token → Tree} :
        Parse.Ensures (do let body ← Parse.expect .action; return make body)
          fun _ _ => True :=
      (Parse.Ensures.expect _).bind fun _ _ _ => .pure trivial
    cases isSection with
    | options =>
      exact ⟨_, rfl, fun _ => closed (Parse.ensures_manyTrees Parse.ensures_option)⟩
    | tokenNames => exact ⟨_, rfl, fun _ => closed Parse.ensures_names⟩
    | channelNames => exact ⟨_, rfl, fun _ => closed Parse.ensures_names⟩
    | imports =>
      exact ⟨_, rfl, fun _ => closed (Parse.ensures_separated Parse.ensures_delegate)⟩
    | action =>
      refine ⟨_, rfl, fun _ => (Parse.Ensures.take _ _).bind fun _ _ _ =>
        (Parse.Ensures.eat _).bind fun found _ _ => ?_⟩
      cases found with
      | none => exact acted
      | some colon => exact Parse.Ensures.identifier.bind fun _ _ _ => acted
  cases tokens with
  | nil => cases begins
  | cons token others =>
    refine ⟨token, others, next token, rfl, ?_, ensures token⟩
    rw [Parse.bind_apply, Parse.expect_cons (Option.some.inj begins)]

theorem advances_prequelStep {harvest : Harvest}
    (applies : prequelStep tokens = some (harvest, rest)) :
    Advances tokens harvest.faults rest := by
  cases PrequelStep.of_applies applies with
  | found isSection begins outcome =>
    obtain ⟨token, others, behind, rfl, same, ensures⟩ := isSection.exists_behind begins
    rw [same] at outcome
    obtain ⟨taken, rfl, _⟩ := ensures.done outcome
    refine ⟨?_, Nat.zero_le _⟩
    rw [length_cons, length_append]
    omega
  | failed isSection begins outcome =>
    obtain ⟨token, others, behind, rfl, same, ensures⟩ := isSection.exists_behind begins
    rw [same] at outcome
    -- Nothing is skipped behind a faulty action, but its first token was taken.
    have left := ((isSection.recovers _).trans (ensures.failed outcome)).length_le
    exact ⟨Nat.lt_succ_of_le left, Nat.le_refl _⟩

theorem advances_ruleStep {harvest : Harvest}
    (applies : ruleStep tokens = some (harvest, rest)) :
    Advances tokens harvest.faults rest := by
  refine ⟨length_lt_of_ruleStep applies, ?_⟩
  obtain ⟨token, behind, rfl, _, ends⟩ := exists_ruleStep applies
  cases ends with
  | found _ outcome => exact Parse.length_faults_rule outcome
  | failed => exact Nat.le_refl _
  | unstarted => exact Nat.le_refl _

/-! ## Repetition -/

/-- If the faults of each step cost tokens, those of a repetition do. -/
theorem length_faults_repeated {α : Type} {step : List Token → Option (α × List Token)}
    {faults : α → List SyntaxFault}
    (each : ∀ tokens value rest, step tokens = some (value, rest) →
      (faults value).length + rest.length ≤ tokens.length)
    (tokens : List Token) :
    ((repeated step tokens).1.flatMap faults).length + (repeated step tokens).2.length ≤
      tokens.length := by
  fun_induction repeated step tokens with
  | case1 tokens stops => simp
  | case2 tokens value rest applies shorter values left further induction =>
    have cost := each tokens value rest applies
    rw [further] at induction
    dsimp only at induction ⊢
    rw [flatMap_cons, length_append]
    omega
  | case3 tokens value rest applies longer =>
    have cost := each tokens value rest applies
    simpa using cost

theorem length_faults_collect {step : List Token → Option (Harvest × List Token)}
    (advances : ∀ tokens harvest rest, step tokens = some (harvest, rest) →
      Advances tokens harvest.faults rest)
    (tokens : List Token) :
    (collect step tokens).1.faults.length + (collect step tokens).2.length ≤
      tokens.length := by
  refine length_faults_repeated (fun tokens harvest rest applies => ?_) tokens
  have ⟨shorter, single⟩ := advances tokens harvest rest applies
  omega

theorem length_faults_sections (tokens : List Token) :
    (collect prequelStep tokens).1.faults.length + (collect prequelStep tokens).2.length ≤
      tokens.length :=
  length_faults_collect (fun _ _ _ => advances_prequelStep) tokens

theorem length_faults_rules (tokens : List Token) :
    (rules tokens).1.faults.length + (rules tokens).2.length ≤ tokens.length :=
  length_faults_collect (fun _ _ _ => advances_ruleStep) tokens

/-- The tokens that a section of a mode leaves, and its faults. -/
theorem modeStep_spends {found : ModeSection}
    (applies : modeStep tokens = some (found, rest)) :
    tokens ≠ [] ∧ rest = (rules (behindModeLine tokens)).2 ∧
      found.faults.length ≤ (rules (behindModeLine tokens)).1.faults.length + 1 := by
  obtain ⟨nonempty, ends⟩ := ModeStep.of_applies applies
  refine ⟨nonempty, ?_⟩
  rw [behindModeLine]
  cases ends with
  | mode outcome =>
    rw [outcome]
    exact ⟨rfl, Nat.le_succ _⟩
  | strays outcome =>
    rw [outcome]
    exact ⟨rfl, Nat.le_refl _⟩

theorem length_lt_of_modeStep {found : ModeSection}
    (applies : modeStep tokens = some (found, rest)) : rest.length < tokens.length := by
  obtain ⟨nonempty, rfl, _⟩ := modeStep_spends applies
  exact Nat.lt_of_le_of_lt (length_rules_le _) (length_behindModeLine_lt nonempty)

theorem length_faults_modes (tokens : List Token) :
    ((repeated modeStep tokens).1.flatMap (·.faults)).length ≤ tokens.length := by
  refine Nat.le_of_add_right_le
    (length_faults_repeated (fun tokens found rest applies => ?_) tokens)
  obtain ⟨nonempty, rfl, bounded⟩ := modeStep_spends applies
  have shorter := length_behindModeLine_lt nonempty
  have cost := length_faults_rules (behindModeLine tokens)
  omega

/-- There are no more faults than tokens, the end mark included. -/
theorem length_faults_ofTokens (tokens : List Token) :
    (ofTokens tokens).faults.length ≤ tokens.length + 1 := by
  have line : (behindHeader (header tokens).2).1.length ≤ 1 := by
    cases (header tokens).2 <;> simp [behindHeader]
  have behindLine : (behindHeader (header tokens).2).2.length ≤ tokens.length := by
    obtain ⟨taken, equal, _⟩ := header_spec tokens
    have lengths := congrArg List.length equal
    rw [length_append] at lengths
    omega
  have sections := length_faults_sections (behindHeader (header tokens).2).2
  have declared := length_faults_rules (behindSections tokens)
  have modes := length_faults_modes (rules (behindSections tokens)).2
  rw [behindSections] at declared modes
  simp only [ofTokens, length_append]
  omega

end Reading

end GrammarInspector
