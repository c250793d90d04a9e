import GrammarInspector.Proofs.Grammar.Layout
import GrammarInspector.Proofs.Grammar.Local

/-! # Malformed rules

Some tokens and a semicolon are put between a rule and what follows it. If they make up a
rule, that rule is added to the grammar. If they do not, one of them is at fault, and the
rest of the grammar is read as if they were not there.
-/

namespace GrammarInspector

open List

open Reading (ofTokens ruleStep throughRule)

/-! ## Additions -/

/-- A tree gets more children at one place. -/
inductive Tree.Gains (added : List Tree) : Tree → Tree → Prop
  | here {data : NodeData} {front behind : List Tree} :
      Gains added (.node data (front ++ behind)) (.node data (front ++ (added ++ behind)))
  | inside {data : NodeData} {front behind : List Tree} {child larger : Tree}
      (inner : Gains added child larger) :
      Gains added (.node data (front ++ child :: behind))
        (.node data (front ++ larger :: behind))

theorem Tree.Gains.eq_of_nil {tree larger : Tree} (gains : tree.Gains [] larger) :
    larger = tree := by
  induction gains with
  | here => rfl
  | inside _ induction => rw [induction]

namespace Reading

/-- Trees and faults, and more of them behind. -/
def Harvest.append (harvest more : Harvest) : Harvest :=
  ⟨harvest.trees ++ more.trees, harvest.faults ++ more.faults⟩

/-- A reading with more trees at one place and more faults. -/
structure Gains (added : Harvest) (reading other : Reading) : Prop where
  tree : reading.tree.Gains added.trees other.tree
  faults : other.faults = added.faults ++ reading.faults

/-- What is read behind the end of a rule is added there. -/
theorem Front.gains (front : Front) (added harvest : Harvest)
    (further : List ModeSection) :
    (front.complete harvest further).Gains added
      (front.complete (added.append harvest) further) := by
  cases front with
  | declaring header sections trees =>
    have shape (harvest : Harvest) :
        ((declaring header sections trees).complete harvest further).tree =
          .node ⟨.grammar, header.flavour.rootText, header.keyword, none⟩
            ((header.name.toList ++ sections) ++
              .group .rules (trees ++ (harvest.trees ++ further.flatMap (·.strays))) ::
                further.filterMap (·.mode)) := by
      simp [complete, compose, Harvest.behind]
    constructor
    · rw [shape, shape, Harvest.append, append_assoc added.trees]
      exact .inside .here
    · exact append_assoc ..
  | inMode header sections trees modes mode clean =>
    have shape (harvest : Harvest) :
        ((inMode header sections trees modes mode clean).complete harvest further).tree =
          .node ⟨.grammar, header.flavour.rootText, header.keyword, none⟩
            ((header.name.toList ++ sections ++
                  [.group .rules (trees ++ (modes ++ further).flatMap (·.strays))] ++
                  modes.filterMap (·.mode)) ++
              mode.append harvest.trees :: further.filterMap (·.mode)) := by
      simp [complete, compose, ModeSection.ofMode]
    constructor
    · rw [shape, shape]
      exact .inside .here
    · simp only [complete, compose, ModeSection.ofMode, Harvest.append, flatMap_append,
        flatMap_cons, flatMap_eq_nil_iff.mpr clean, nil_append, append_assoc]

end Reading

/-! ## Tokens in front of a semicolon -/

namespace Parse

/-- Whether some tokens are read as a rule and nothing more, without a fault. -/
def readsRule (tokens : List Token) : Bool :=
  match rule tokens with
  | .done (_, []) [] => true
  | _ => false

theorem derives_rule_iff {tokens : List Token} :
    (Ebnf.construct .rule).Derives (tokens.map Token.kind) ↔ readsRule tokens = true := by
  constructor
  · intro derives
    have atEnd : noHandler (headKind? []) = true := rfl
    obtain ⟨tree, outcome⟩ := rule_append derives atEnd
    rw [append_nil] at outcome
    rw [readsRule, outcome]
  · intro reads
    unfold readsRule at reads
    split at reads
    · next tree outcome =>
        obtain ⟨taken, equal, _, _, sound⟩ := ensures_rule.done outcome
        rw [append_nil] at equal
        rw [equal]
        exact (sound rfl).derives
    · cases reads

instance (tokens : List Token) :
    Decidable ((Ebnf.construct .rule).Derives (tokens.map Token.kind)) :=
  decidable_of_iff _ derives_rule_iff.symm

end Parse

/-- Semicolons are taken only behind the opening of options. -/
def Allowance.guarded : Allowance where
  may taken := ∀ front semicolon behind, taken = front ++ semicolon :: behind →
    semicolon.kind = .punctuation .semicolon → ∃ opening ∈ front,
      opening.kind = .opener .options
  nothing front semicolon behind equal _ := by simp at equal
  append := by
    intro taken more mayTake mayGoOn front semicolon behind equal isSemicolon
    rcases append_eq_append_iff.mp equal with
      ⟨between, rfl, moreEqual⟩ | ⟨between, rfl, rest⟩
    · obtain ⟨opening, member, isOptions⟩ :=
        mayGoOn between semicolon behind moreEqual isSemicolon
      exact ⟨opening, mem_append_right _ member, isOptions⟩
    · cases between with
      | nil =>
        obtain ⟨opening, member, _⟩ := mayGoOn [] semicolon behind rest.symm isSemicolon
        cases member
      | cons first between =>
        cases rest
        exact mayTake front semicolon between rfl isSemicolon
  single := by
    intro token other front semicolon behind equal isSemicolon
    cases front with
    | nil =>
      cases equal
      exact absurd isSemicolon other
    | cons first front => simp at equal
  options := by
    intro opening more isOptions front semicolon behind equal isSemicolon
    cases front with
    | nil =>
      cases equal
      rw [isOptions] at isSemicolon
      cases isSemicolon
    | cons first front =>
      cases equal
      exact ⟨opening, .head _, isOptions⟩

/-- Tokens with a semicolon behind them that is the only one, and with no options that
could hold others. -/
structure Stretch (junk : List Token) (semicolon : Token) : Prop where
  ends : semicolon.kind = .punctuation .semicolon
  noSemicolon : ∀ token ∈ junk, token.kind ≠ .punctuation .semicolon
  noOptions : ∀ token ∈ junk, token.kind ≠ .opener .options

namespace Stretch

variable {junk behind : List Token} {semicolon : Token}

/-- A declaration ends with the semicolon, or fails in front of it. -/
theorem ruleDeclaration (stretch : Stretch junk semicolon) (behind : List Token) :
    (∃ found, Parse.ruleDeclaration (junk ++ semicolon :: behind) = .done found behind) ∨
      ∃ expected left, left <:+ junk ∧
        Parse.ruleDeclaration (junk ++ semicolon :: behind) =
        .failed expected (left ++ semicolon :: behind) := by
  have parallel : Parse.Parallel (Reading.throughout .same) .guarded True
    (Parse.DeclaredAlike .same) Parse.openRule Parse.openRule := Parse.parallel_openRule
  obtain ⟨taken, equal, guarded⟩ := parallel.takes (junk ++ semicolon :: behind)
  rw [Parse.ruleDeclaration_eq, Parse.bind_apply]
  generalize Parse.openRule (junk ++ semicolon :: behind) = outcome at equal ⊢
  obtain ⟨left, rfl, rest⟩ : ∃ left, junk = taken ++ left ∧
      outcome.rest = left ++ semicolon :: behind := by
    rcases append_eq_append_iff.mp equal with ⟨beyond, rfl, further⟩ | ⟨left, rfl, rest⟩
    · cases beyond with
      | nil => exact ⟨[], by simp, further.symm⟩
      | cons first beyond =>
        obtain ⟨rfl, _⟩ := List.cons.inj further
        obtain ⟨opening, member, isOptions⟩ :=
          guarded junk semicolon beyond rfl stretch.ends
        exact absurd isOptions (stretch.noOptions opening member)
    · exact ⟨left, rfl, rest⟩
  cases outcome with
  | failed expected last =>
    right
    exact ⟨expected, left, suffix_append .., congrArg (Outcome.failed expected) rest⟩
  | done front last =>
    change last = left ++ semicolon :: behind at rest
    subst rest
    dsimp only
    rw [Parse.bind_apply]
    cases left with
    | nil =>
      left
      rw [Parse.mark, nil_append, Parse.expect_cons stretch.ends]
      exact ⟨front, rfl⟩
    | cons first left =>
      right
      have other := stretch.noSemicolon first (by simp)
      rw [Parse.mark, Parse.expect, cons_append, Parse.take,
        if_neg (by simpa using other)]
      exact ⟨_, first :: left, suffix_append .., rfl⟩

theorem skipPast (stretch : Stretch junk semicolon) {left : List Token}
    (part : left ⊆ junk) :
    Reading.skipPast (.punctuation .semicolon)
      (left ++ semicolon :: behind) = behind := by
  have others : ∀ token ∈ left, (token.kind != .punctuation .semicolon) = true :=
    fun token member => bne_iff_ne.mpr (stretch.noSemicolon token (part member))
  rw [Reading.skipPast, dropWhile_append_of_pos others, dropWhile_cons_of_neg, drop_one,
    tail_cons]
  simp [stretch.ends]

/-- Whether the tokens and the semicolon make up a rule. -/
def IsRule (junk : List Token) (semicolon : Token) : Prop :=
  (Ebnf.construct .rule).Derives ((junk ++ [semicolon]).map Token.kind)

instance : Decidable (IsRule junk semicolon) :=
  inferInstanceAs
    (Decidable ((Ebnf.construct .rule).Derives ((junk ++ [semicolon]).map Token.kind)))

theorem ruleStep_of_isRule (isRule : IsRule junk semicolon) :
    ∃ tree, Parse.rule (junk ++ [semicolon]) = .done (tree, []) [] ∧
      ∀ behind, Parse.noHandler (headKind? behind) = true →
        ruleStep (junk ++ semicolon :: behind) = some (⟨[tree], []⟩, behind) := by
  obtain ⟨tree, settled⟩ := Parse.rule_settles isRule
  refine ⟨tree, ?_, fun behind noHandler => ?_⟩
  · have alone := settled [] rfl
    rwa [append_nil] at alone
  · have step := Reading.ruleStep_of_done isRule (settled behind noHandler)
    rwa [append_assoc] at step

/-- A declaration that is read to its end is a rule. -/
theorem isRule_of_done {found : Tree × RuleFlavour}
    (noHandler : Parse.noHandler (headKind? behind) = true)
    (declared : Parse.ruleDeclaration (junk ++ semicolon :: behind) =
      .done found behind) :
    IsRule junk semicolon := by
  obtain ⟨tree, outcome⟩ : ∃ tree, Parse.rule (junk ++ semicolon :: behind) =
      .done (tree, []) behind := by
    obtain ⟨tree, flavour⟩ := found
    rw [Parse.rule, declared]
    cases flavour with
    | lexer => exact ⟨tree, rfl⟩
    | parser =>
      simp only [Parse.handlers_of_neither noHandler]
      exact ⟨_, rfl⟩
  obtain ⟨taken, equal, _, _, reads⟩ := Parse.ensures_rule.done outcome
  have same : junk ++ [semicolon] = taken := by
    rw [← singleton_append, ← append_assoc] at equal
    exact append_cancel_right equal
  rw [IsRule, same]
  exact (reads rfl).derives

/-- What is no rule gives one fault, and reading goes on behind the semicolon. -/
theorem ruleStep_of_not_isRule (stretch : Stretch junk semicolon)
    (noRule : ¬IsRule junk semicolon)
    (noMode : headKind? (junk ++ [semicolon]) ≠ some (.keyword .mode))
    (noHandler : Parse.noHandler (headKind? behind) = true) :
    ∃ fault : SyntaxFault, ∃ token ∈ junk ++ [semicolon], fault.found = some token ∧
      ruleStep (junk ++ semicolon :: behind) = some (⟨[], [fault]⟩, behind) := by
  obtain ⟨first, others, whole⟩ : ∃ first others, junk ++ [semicolon] = first :: others :=
    exists_cons_of_ne_nil (by simp)
  have split : junk ++ semicolon :: behind = first :: (others ++ behind) := by
    rw [← cons_append, ← whole, append_assoc]
    rfl
  have notMode : first.kind ≠ .keyword .mode := by
    intro isMode
    rw [whole, headKind?_cons, isMode] at noMode
    exact noMode rfl
  by_cases starts : Parse.startsRule first.kind = true
  · rcases stretch.ruleDeclaration behind with
      ⟨found, declared⟩ | ⟨expected, left, part, declared⟩
    · exact absurd (isRule_of_done noHandler declared) noRule
    · obtain ⟨token, found, member⟩ :
          ∃ token, (left ++ semicolon :: behind).head? = some token ∧
          token ∈ junk ++ [semicolon] := by
        cases left with
        | nil => exact ⟨semicolon, rfl, by simp⟩
        | cons token left =>
          have isPart : token ∈ junk := part.subset (.head _)
          exact ⟨token, rfl, mem_append_left _ isPart⟩
      refine ⟨.mismatched expected (left ++ semicolon :: behind), token,
        member, found, ?_⟩
      have failed : Parse.rule (junk ++ semicolon :: behind) =
          .failed expected (left ++ semicolon :: behind) := by
        rw [Parse.rule, declared]
      have step := Reading.RuleStep.applies (.failed starts (split ▸ failed)) notMode
      rwa [stretch.skipPast part.subset, ← split] at step
  · have skipped : Reading.skipPast (.punctuation .semicolon)
        (junk ++ semicolon :: behind) = behind :=
      stretch.skipPast (List.Subset.refl junk)
    refine ⟨⟨true, .ruleDeclaration, some first⟩, first, by simp [whole], rfl, ?_⟩
    have step : ruleStep (first :: (others ++ behind)) = _ :=
      Reading.RuleStep.applies (.unstarted starts) notMode
    rwa [← split, skipped] at step

end Stretch

/-! ## Whole grammars -/

namespace Reading

theorem rules_of_ruleStep {tokens rest : List Token} {harvest : Harvest}
    (shorter : rest.length < tokens.length)
    (step : ruleStep tokens = some (harvest, rest)) :
    rules tokens = (harvest.append (rules rest).1, (rules rest).2) := by
  rw [rules, rules, collect, collect, repeated, step]
  simp only [if_pos shorter]
  rfl

/-- What one step takes between a rule and what follows it is added there, and nothing
else changes. -/
theorem gains_of_ruleStep {front junk behind : List Token} {semicolon : Token}
    {harvest : Harvest} (derives : throughRule.Derives (front.map Token.kind))
    (behindFront : Parse.noHandler (headKind? (junk ++ [semicolon])) = true)
    (behindStretch : Parse.noHandler (headKind? behind) = true)
    (step : ruleStep (junk ++ semicolon :: behind) = some (harvest, behind)) :
    (ofTokens (front ++ behind)).Gains harvest
      (ofTokens (front ++ (junk ++ semicolon :: behind))) := by
  obtain ⟨known, settled⟩ := exists_front derives
  have shorter : behind.length < (junk ++ semicolon :: behind).length := by
    rw [length_append, length_cons]
    omega
  have sameHead : headKind? (junk ++ semicolon :: behind) =
      headKind? (junk ++ [semicolon]) := by
    cases junk <;> rfl
  rw [← sameHead] at behindFront
  rw [settled behind behindStretch, settled _ behindFront, rules_of_ruleStep shorter step]
  exact known.gains ..

end Reading

namespace Grammar

theorem parserErrors_eq_nil {source : String} :
    (ofSource source).parserErrors = [] ↔
    (ofTokens (significantTokens source)).faults = [] := by
  rw [← length_eq_zero_iff, (parserErrors_perm source).length_eq, length_map,
    length_eq_zero_iff]

theorem exists_parserError {source : String} {fault : SyntaxFault} {token : Token}
    (faults : (ofTokens (significantTokens source)).faults = [fault])
    (found : fault.found = some token) :
    ∃ error, (ofSource source).parserErrors = [error] ∧ error.span = token.span := by
  have single := parserErrors_perm source
  rw [faults, map_singleton, perm_singleton] at single
  refine ⟨_, single, ?_⟩
  rw [SyntaxError.ofFault, found]

/-- Tokens and a semicolon that are put between a rule and what follows it either are a
rule, which is then the only addition to the grammar, or give one error, at one of them,
and leave the grammar as it is. -/
theorem malformed_rule_isolated {source changed : String}
    {front back before behind junk : List Token} {semicolon : Token}
    (tokens : significantTokens source = front ++ back)
    (changedTokens : significantTokens changed = before ++ (junk ++ semicolon :: behind))
    (sameFront : front.map Token.lexeme = before.map Token.lexeme)
    (sameBack : back.map Token.lexeme = behind.map Token.lexeme)
    (noErrors : (ofSource source).parserErrors = [])
    (ruleEnds : throughRule.Derives (front.map Token.kind))
    (allHandlers : Parse.noHandler (headKind? back) = true)
    (stretch : Stretch junk semicolon)
    (begins : Parse.excluding [.keyword .mode, .keyword .catchWord, .keyword .finallyWord]
      (headKind? (junk ++ [semicolon])) = true) :
    ((ofSource changed).parserErrors = [] ↔ Stretch.IsRule junk semicolon) ∧
      (Stretch.IsRule junk semicolon → ∃ added smaller,
        Parse.rule (junk ++ [semicolon]) = .done (added, []) [] ∧
        (ofSource source).tree.Alike .anywhere smaller ∧
        smaller.Gains [added] (ofSource changed).tree) ∧
      (¬Stretch.IsRule junk semicolon →
        (∃ error, (ofSource changed).parserErrors = [error] ∧
          ∃ token ∈ junk ++ [semicolon], error.span = token.span) ∧
        (ofSource source).tree.Alike .anywhere (ofSource changed).tree ∧
        Forall₂ (Labelled.Alike .anywhere) (ofSource source).labels
          (ofSource changed).labels) := by
  have backAlike := Token.alike_of_lexemes sameBack
  have together : Forall₂ (Token.Alike .anywhere) (significantTokens source)
      (before ++ behind) := by
    rw [tokens]
    exact rel_append (Token.alike_of_lexemes sameFront) backAlike
  have reading := Reading.ofTokens_alike together
  have noFaults : (ofTokens (before ++ behind)).faults = [] := by
    have faults := reading.faults
    rw [parserErrors_eq_nil.mp noErrors] at faults
    exact forall₂_nil_left_iff.mp faults
  have noHandler : Parse.noHandler (headKind? behind) = true := by
    rwa [← (Reading.alike_throughout backAlike).headKind?_eq]
  have gains {harvest : Reading.Harvest}
      (step : ruleStep (junk ++ semicolon :: behind) = some (harvest, behind)) :
      (ofTokens (before ++ behind)).Gains harvest
        (ofTokens (significantTokens changed)) := by
    rw [changedTokens]
    refine Reading.gains_of_ruleStep (Token.kinds_of_lexemes sameFront ▸ ruleEnds) ?_
      noHandler step
    exact Parse.excluding_of_forall_ne fun kind member =>
      Parse.ne_of_excluding begins (.tail _ member)
  by_cases isRule : Stretch.IsRule junk semicolon
  · obtain ⟨added, alone, step⟩ := Stretch.ruleStep_of_isRule isRule
    have larger := gains (step behind noHandler)
    have clean : (ofSource changed).parserErrors = [] :=
      parserErrors_eq_nil.mpr (larger.faults.trans noFaults)
    refine ⟨iff_of_true clean isRule, fun _ => ?_, fun noRule => absurd isRule noRule⟩
    exact ⟨added, _, alone, reading.tree, larger.tree⟩
  · obtain ⟨fault, token, member, found, step⟩ :=
      stretch.ruleStep_of_not_isRule isRule
        (Parse.ne_of_excluding begins (.head _)) noHandler
    have same := gains step
    have faults : (ofTokens (significantTokens changed)).faults = [fault] := by
      rw [same.faults, noFaults]
      rfl
    obtain ⟨error, only, place⟩ := exists_parserError faults found
    have sameTree : (ofSource changed).tree = (ofTokens (before ++ behind)).tree :=
      same.tree.eq_of_nil
    refine ⟨iff_of_false (by simp [only]) isRule, fun rule =>
      absurd rule isRule, fun _ => ?_⟩
    refine ⟨⟨error, only, token, member, place⟩, ?_, ?_⟩
    · rw [sameTree]
      exact reading.tree
    · refine labels_alike_of_sublist together ?_ sameTree
      rw [changedTokens]
      exact (List.Sublist.refl before).append
        ((sublist_cons_self semicolon behind).trans (sublist_append_right junk _))

/-- Two rules with labels, the first of them with a handler. -/
def labelledRules : String := "grammar G; s : B # X ; catch [e] {f} t : C # Y ;"

/-- The same with a rule between them that has no closing parenthesis. -/
def unclosedBetween : String :=
  "grammar G; s : B # X ; catch [e] {f}\n// open\nu : ( D ; t : C # Y ;"

/-- The tokens of the rule between them, up to its semicolon. -/
def unclosedRule : List Token := ((significantTokens unclosedBetween).drop 12).take 4

theorem derives_labelledRules :
    throughRule.Derives (((significantTokens labelledRules).take 12).map Token.kind) := by
  have kinds : ((significantTokens labelledRules).take 12).map Token.kind =
      [.keyword .grammar, .tokenRef, .punctuation .semicolon] ++
        (((significantTokens labelledRules).take 12).drop 3).map
          Token.kind := by decide +kernel
  have line : (Ebnf.sequence Reading.headerParts).Derives
      ([] ++ ([.keyword .grammar] ++
        ([.tokenRef] ++ ([.punctuation .semicolon] ++ [])))) :=
    .cons (.oneOf (.tail _ (.head _)) .nil)
      (.cons (.terminal _)
        (.cons (.oneOf (.head _) (.terminal _)) (.cons (.terminal _) .nil)))
  have rule : (Ebnf.construct .rule).Derives
      ((((significantTokens labelledRules).take 12).drop 3).map
        Token.kind) := by decide +kernel
  have behindLine : (Ebnf.sequence [.many (.construct .prequel), .many (.construct .rule),
      .many Reading.modeProduction, .construct .rule]).Derives
      ([] ++ ([] ++ ([] ++
        ((((significantTokens labelledRules).take 12).drop 3).map Token.kind ++ [])))) :=
    .cons .none (.cons .none (.cons .none (.cons rule .nil)))
  rw [append_nil] at behindLine
  rw [kinds]
  exact line.append behindLine

theorem malformed_rule_isolated_unclosed :
    (ofSource labelledRules).labels.length = 2 ∧
      (ofSource labelledRules).parserErrors = [] ∧
      (∃ error, (ofSource unclosedBetween).parserErrors = [error] ∧
        ∃ token ∈ unclosedRule ++ [⟨.punctuation .semicolon, ⟨53, 54⟩, ";"⟩],
          error.span = token.span) ∧
      (ofSource labelledRules).tree.Alike .anywhere (ofSource unclosedBetween).tree ∧
      Forall₂ (Labelled.Alike .anywhere) (ofSource labelledRules).labels
        (ofSource unclosedBetween).labels := by
  have noErrors : (ofSource labelledRules).parserErrors = [] := by decide +kernel
  have both : (ofSource labelledRules).labels.length = 2 := by
    rw [labels, length_mergeSort]
    decide +kernel
  have stretch : Stretch unclosedRule ⟨.punctuation .semicolon, ⟨53, 54⟩, ";"⟩ :=
    ⟨rfl, by decide +kernel, by decide +kernel⟩
  have noRule : ¬Stretch.IsRule unclosedRule ⟨.punctuation .semicolon, ⟨53, 54⟩,
      ";"⟩ := by decide +kernel
  have tokens : significantTokens labelledRules =
      (significantTokens labelledRules).take 12 ++
        (significantTokens labelledRules).drop 12 :=
    (take_append_drop ..).symm
  have changedTokens : significantTokens unclosedBetween =
      (significantTokens unclosedBetween).take 12 ++ (unclosedRule ++
        ⟨.punctuation .semicolon, ⟨53, 54⟩, ";"⟩ ::
          (significantTokens unclosedBetween).drop 17) := by
    decide +kernel
  have isolated :=
    malformed_rule_isolated tokens changedTokens (by decide +kernel) (by decide +kernel)
    noErrors derives_labelledRules (by decide +kernel) stretch (by decide +kernel)
  exact ⟨both, noErrors, isolated.2.2 noRule⟩

end Grammar

end GrammarInspector
