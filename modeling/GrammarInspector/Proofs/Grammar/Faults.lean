import GrammarInspector.Proofs.Grammar.Shape.Reading

/-! # Faults are met at tokens

A fault says which token was met in place of what was expected. It is one of the tokens
that were to be read.
-/

namespace GrammarInspector

open List

/-- Whether a fault was met at one of some tokens, or at the end. -/
def SyntaxFault.MetIn (tokens : List Token) (fault : SyntaxFault) : Prop :=
  ∀ token ∈ fault.found, token ∈ tokens

theorem SyntaxFault.metIn_mismatched {expected : Expected} {rest tokens : List Token}
    (behind : rest <:+ tokens) : (mismatched expected rest).MetIn tokens :=
  fun _ isFirst => behind.subset (mem_of_mem_head? isFirst)

theorem SyntaxFault.MetIn.mono {tokens more : List Token} {fault : SyntaxFault}
    (met : fault.MetIn tokens) (part : tokens <:+ more) : fault.MetIn more :=
  fun token isFound => part.subset (met token isFound)

open SyntaxFault (metIn_mismatched)

namespace Parse

theorem metIn_handlers (tokens : List Token) :
    ∀ fault ∈ (handlers tokens).faults, fault.MetIn tokens := by
  fun_induction handlers tokens with
  | case1 tokens isCatch expected rest outcome =>
    exact forall_mem_singleton.mpr (metIn_mismatched (ensures_handler.failed outcome))
  | case2 tokens isCatch tree rest outcome shorter following induction =>
    obtain ⟨taken, equal, _⟩ := ensures_handler.done outcome
    intro fault isFault
    exact (induction fault isFault).mono ⟨taken, equal.symm⟩
  | case3 => simp
  | case4 tokens isFinally expected rest outcome =>
    exact forall_mem_singleton.mpr (metIn_mismatched (ensures_cleanup.failed outcome))
  | case5 => simp
  | case6 => simp

theorem metIn_rule {tokens rest : List Token} {tree : Tree} {faults : List SyntaxFault}
    (outcome : rule tokens = .done (tree, faults) rest) :
    ∀ fault ∈ faults, fault.MetIn tokens := by
  cases RuleDone.of_rule outcome with
  | lexer => exact forall_mem_nil _
  | @parser _ left declared =>
    obtain ⟨taken, equal, _⟩ := ensures_ruleDeclaration.done declared
    intro fault isFault
    exact (metIn_handlers left fault isFault).mono ⟨taken, equal.symm⟩

end Parse

namespace Reading

variable {tokens rest : List Token}

theorem metIn_prequelStep {harvest : Harvest}
    (applies : prequelStep tokens = some (harvest, rest)) :
    ∀ fault ∈ harvest.faults, fault.MetIn tokens := by
  cases PrequelStep.of_applies applies with
  | found => exact forall_mem_nil _
  | failed isSection _ outcome =>
    exact forall_mem_singleton.mpr (metIn_mismatched (isSection.reads.failed outcome))

theorem metIn_ruleStep {harvest : Harvest}
    (applies : ruleStep tokens = some (harvest, rest)) :
    ∀ fault ∈ harvest.faults, fault.MetIn tokens := by
  obtain ⟨token, behind, rfl, _, ends⟩ := exists_ruleStep applies
  cases ends with
  | found _ outcome => exact Parse.metIn_rule outcome
  | failed _ outcome =>
    exact forall_mem_singleton.mpr (metIn_mismatched (Parse.ensures_rule.failed outcome))
  | unstarted =>
    refine forall_mem_singleton.mpr ?_
    rintro _ ⟨⟩
    exact mem_cons_self ..

/-- The faults of a repetition are met in its tokens if those of each step are. -/
theorem metIn_repeated {α : Type} {step : List Token → Option (α × List Token)}
    {faults : α → List SyntaxFault}
    (each : ∀ {tokens value rest}, step tokens = some (value, rest) →
      (∀ fault ∈ faults value, fault.MetIn tokens) ∧ rest <:+ tokens)
    (tokens : List Token) :
    ∀ fault ∈ (repeated step tokens).1.flatMap faults, fault.MetIn tokens := by
  have keeps (left : List Token) (value : α) (rest : List Token)
      (behind : left <:+ tokens) (applies : step left = some (value, rest)) :
      (∀ fault ∈ faults value, fault.MetIn tokens) ∧ rest <:+ tokens := by
    obtain ⟨met, further⟩ := each applies
    exact ⟨fun fault isFault => (met fault isFault).mono behind, further.trans behind⟩
  have kept := (repeated_keeps keeps suffix_rfl).1
  intro fault isFault
  obtain ⟨value, given, inside⟩ := mem_flatMap.mp isFault
  exact kept value given fault inside

theorem metIn_prequels (tokens : List Token) :
    ∀ fault ∈ (collect prequelStep tokens).1.faults, fault.MetIn tokens := by
  refine metIn_repeated (fun applies => ⟨metIn_prequelStep applies, ?_⟩) tokens
  obtain ⟨taken, equal, _⟩ := prequelStep_spec applies
  exact ⟨taken, equal.symm⟩

theorem metIn_rules (tokens : List Token) :
    ∀ fault ∈ (rules tokens).1.faults, fault.MetIn tokens := by
  refine metIn_repeated (fun applies => ⟨metIn_ruleStep applies, ?_⟩) tokens
  obtain ⟨taken, equal, _⟩ := ruleStep_spec applies
  exact ⟨taken, equal.symm⟩

theorem suffix_rules (tokens : List Token) : (rules tokens).2 <:+ tokens := by
  obtain ⟨taken, equal, _⟩ := rules_spec tokens
  exact ⟨taken, equal.symm⟩

theorem metIn_modeStep {found : ModeSection}
    (applies : modeStep tokens = some (found, rest)) :
    (∀ fault ∈ found.faults, fault.MetIn tokens) ∧ rest <:+ tokens := by
  obtain ⟨_, ends⟩ := ModeStep.of_applies applies
  cases ends with
  | @mode _ left outcome =>
    obtain ⟨taken, equal, _⟩ := ensures_modeLine.done outcome
    have behind : left <:+ tokens := ⟨taken, equal.symm⟩
    exact ⟨fun fault isFault => (metIn_rules left fault isFault).mono behind,
      (suffix_rules left).trans behind⟩
  | @strays _ left outcome =>
    have failed := ensures_modeLine.failed outcome
    have behind := (skipPast_suffix (.punctuation .semicolon) left).trans failed
    refine ⟨forall_mem_cons.mpr ⟨metIn_mismatched failed, ?_⟩,
      (suffix_rules _).trans behind⟩
    exact fun fault isFault => (metIn_rules _ fault isFault).mono behind

theorem metIn_header (tokens : List Token) :
    ∀ fault ∈ (behindHeader (header tokens).2).1, fault.MetIn tokens := by
  obtain ⟨front, equal, _⟩ := flavourOf_spec tokens
  have behindFlavour : (flavourOf tokens).2 <:+ tokens := ⟨front, equal.symm⟩
  unfold header
  dsimp only
  split
  · next outcome =>
    have failed := ((Parse.Ensures.expect _).failed outcome).trans behindFlavour
    exact forall_mem_singleton.mpr (metIn_mismatched failed)
  · next outcome =>
    obtain ⟨word, wordEqual, _⟩ := (Parse.Ensures.expect _).done outcome
    have behindWord := (show _ <:+ _ from ⟨word, wordEqual.symm⟩).trans behindFlavour
    split
    · next outcome =>
      have failed := (Parse.Ensures.identifier.failed outcome).trans behindWord
      exact forall_mem_singleton.mpr (metIn_mismatched failed)
    · next rest outcome =>
      obtain ⟨name, nameEqual, _⟩ := Parse.Ensures.identifier.done outcome
      have behindName := (show _ <:+ _ from ⟨name, nameEqual.symm⟩).trans behindWord
      cases ends : Parse.mark .semicolon rest with
      | done => simp [behindHeader]
      | failed expected left =>
        have failed := ((Parse.Ensures.mark _).failed ends).trans behindName
        exact forall_mem_singleton.mpr (metIn_mismatched failed)

theorem metIn_ofTokens (tokens : List Token) :
    ∀ fault ∈ (ofTokens tokens).faults, fault.MetIn tokens := by
  obtain ⟨line, lineEqual, _⟩ := header_spec tokens
  obtain ⟨sections, sectionsEqual, _⟩ := prequels_spec (behindHeader (header tokens).2).2
  have behindLine : (behindHeader (header tokens).2).2 <:+ tokens :=
    ⟨line, lineEqual.symm⟩
  have behindSections :=
    (show (collect prequelStep _).2 <:+ _ from ⟨sections, sectionsEqual.symm⟩).trans
    behindLine
  have behindRules := (suffix_rules _).trans behindSections
  have faults : (ofTokens tokens).faults = _ ++ _ ++ _ ++ _ := rfl
  rw [faults]
  simp only [forall_mem_append]
  refine ⟨⟨⟨metIn_header tokens, ?_⟩, ?_⟩, ?_⟩
  · exact fun fault isFault => (metIn_prequels _ fault isFault).mono behindLine
  · exact fun fault isFault => (metIn_rules _ fault isFault).mono behindSections
  · exact fun fault isFault =>
      (metIn_repeated metIn_modeStep _ fault isFault).mono behindRules

end Reading

end GrammarInspector
