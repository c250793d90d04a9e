import GrammarInspector.Proofs.Grammar.Complete.Rule
import GrammarInspector.Proofs.Grammar.Sound.Reading

/-! # Every phrase of the grammar language is read without a fault

Each step takes a phrase of its construct and notes no fault, and stops right behind the
phrase. So does a repetition of steps, and the whole reader.
-/

namespace GrammarInspector.Reading

open List

open Parse

variable {expression : Ebnf} {allowed follow : Option TokenKind → Bool}
  {taken rest tokens : List Token} {next : Option TokenKind}

/-! ## Steps -/

/-- A step takes every phrase of an expression, exactly, in front of the right tokens, and
what it gives is clean. -/
def Takes {α : Type} (step : List Token → Option (α × List Token)) (clean : α → Prop)
    (expression : Ebnf) (follow : Option TokenKind → Bool) : Prop :=
  ∀ taken rest, expression.Derives (taken.map Token.kind) →
    follow (headKind? rest) = true →
    ∃ value, step (taken ++ rest) = some (value, rest) ∧ clean value

/-- A step that takes the phrases of a repetition and applies nowhere else. -/
structure TakesAll {α : Type} (step : List Token → Option (α × List Token))
    (clean : α → Prop)
    (expression : Ebnf) (allowed follow : Option TokenKind → Bool) : Prop where
  takes : Takes step clean expression allowed
  solid : expression.nullable = false
  begins : ∀ kind ∈ expression.starts, allowed (some kind) = true
  ends : ∀ next, follow next = true → allowed next = true
  stops : ∀ tokens, follow (headKind? tokens) = true → step tokens = none

/-- A repetition takes all phrases and stops where no step applies. -/
theorem TakesAll.repeated {α : Type} {step : List Token → Option (α × List Token)}
    {clean : α → Prop} (all : TakesAll step clean expression allowed follow)
    (derives : (Ebnf.many expression).Derives (taken.map Token.kind))
    (behind : follow (headKind? rest) = true) :
    ∃ values, Reading.repeated step (taken ++ rest) = (values, rest) ∧
      ∀ value ∈ values, clean value := by
  induction derives using Ebnf.many_induction with
  | nothing =>
    refine ⟨[], ?_, fun value member => by cases member⟩
    rw [nil_append, Reading.repeated, all.stops rest behind]
  | phrase front back head tail induction =>
    have middle : allowed (headKind? (back ++ rest)) = true :=
      Ebnf.next_of_derives allowed tail behind all.begins fun _ => all.ends
    obtain ⟨value, applies, isClean⟩ := all.takes front (back ++ rest) head middle
    obtain ⟨token, others, rfl, _⟩ := Ebnf.exists_cons_of_derives head all.solid
    have shorter : (back ++ rest).length <
        (token :: others ++ (back ++ rest)).length := by
      simp only [length_append, length_cons]
      omega
    obtain ⟨values, further, areClean⟩ := induction
    refine ⟨value :: values, ?_, forall_mem_cons.mpr ⟨isClean, areClean⟩⟩
    rw [append_assoc, Reading.repeated, applies]
    simp only [if_pos shorter, further]

theorem TakesAll.collect {step : List Token → Option (Harvest × List Token)}
    (all : TakesAll step (fun harvest => harvest.faults = []) expression allowed follow)
    (derives : (Ebnf.many expression).Derives (taken.map Token.kind))
    (behind : follow (headKind? rest) = true) :
    ∃ trees, Reading.collect step (taken ++ rest) = (⟨trees, []⟩, rest) := by
  obtain ⟨harvests, equal, areClean⟩ := all.repeated derives behind
  refine ⟨harvests.flatMap (·.trees), ?_⟩
  rw [Reading.collect, equal]
  simp only [flatMap_eq_nil_iff.mpr areClean]

/-! ## Sections -/

theorem takes_prequel :
    Takes prequelStep (fun harvest => harvest.faults = []) (.construct .prequel)
      anything := by
  intro taken rest derives _
  -- The first token of each section tells which one it is.
  have chosen {expression : Ebnf} {kind : TokenKind} {construct : Parse Tree}
      {recover : List Token → List Token} (isSection : IsSection kind construct recover)
      (derives : expression.Derives (taken.map Token.kind))
      (solid : expression.nullable = false) (starts : expression.starts = [kind])
      (accepts : ∀ bound, Accepts bound construct expression anything) :
      ∃ harvest, prequelStep (taken ++ rest) = some (harvest, rest) ∧
      harvest.faults = [] := by
    obtain ⟨token, others, equal, isStart⟩ := Ebnf.exists_cons_of_derives derives solid
    rw [starts, mem_singleton] at isStart
    have head : headKind? (taken ++ rest) = some kind := by
      rw [equal, ← isStart]
      rfl
    obtain ⟨tree, outcome⟩ := accepts _ taken rest (Nat.lt_succ_self _) derives rfl
    exact ⟨_, PrequelStep.applies (.found isSection head outcome), rfl⟩
  have names {opener : Opener} {kind : NodeKind} {behind : List TokenKind}
      {recover : List Token → List Token}
      (isSection : IsSection (.opener opener) (nameSection opener kind) recover)
      (equal : taken.map Token.kind = .opener opener :: behind)
      (list : Ebnf.nameList.Derives behind) :
      ∃ harvest, prequelStep (taken ++ rest) = some (harvest, rest) ∧
      harvest.faults = [] := by
    have sectionDerives : (Ebnf.sequence [.opener opener, .nameList]).Derives
        (taken.map Token.kind) := by
      rw [equal, ← append_nil behind]
      exact .cons (.terminal _) (.cons list .nil)
    exact chosen isSection sectionDerives rfl rfl fun _ => accepts_nameSection
  obtain ⟨alternative, member, body⟩ :=
    Ebnf.derives_oneOf.mp (Ebnf.derives_construct.mp derives)
  simp only [mem_cons, not_mem_nil, or_false] at member
  rcases member with rfl | rfl | rfl | rfl
  · exact chosen .options body rfl rfl fun _ => accepts_options
  · obtain ⟨first, behind, equal, opening, list⟩ := Ebnf.derives_cons.mp body
    obtain ⟨opener, openerMember, openerBody⟩ := Ebnf.derives_oneOf.mp opening
    have listDerives := Ebnf.derives_single.mp list
    simp only [mem_cons, not_mem_nil, or_false] at openerMember
    rcases openerMember with rfl | rfl
    · rw [Ebnf.derives_terminal.mp openerBody] at equal
      exact names .tokenNames equal listDerives
    · rw [Ebnf.derives_terminal.mp openerBody] at equal
      exact names .channelNames equal listDerives
  · exact chosen .imports body rfl rfl fun _ => accepts_imports
  · exact chosen .action body rfl rfl fun _ => accepts_namedAction

theorem prequelStep_eq_none
    (other : excluding Construct.prequel.starts (headKind? tokens) = true) :
    prequelStep tokens = none := by
  refine prequelStep_eq_none_iff.mpr fun isSection => ne_of_excluding other ?_
  cases isSection <;> simp [Construct.starts]

theorem prequels_append
    (derives : (Ebnf.many (.construct .prequel)).Derives (taken.map Token.kind))
    (behind : excluding Construct.prequel.starts (headKind? rest) = true) :
    ∃ trees, collect prequelStep (taken ++ rest) = (⟨trees, []⟩, rest) :=
  TakesAll.collect ⟨takes_prequel, rfl, fun _ _ => rfl, fun _ _ => rfl,
    fun _ => prequelStep_eq_none⟩ derives behind

/-! ## Rules and modes -/

/-- What can follow the rules of a grammar or mode: the end or another mode. -/
def endsRules (next : Option TokenKind) : Bool :=
  next = none || next = some (.keyword .mode)

theorem endsRules_of_isNone (isNone : next.isNone = true) : endsRules next = true := by
  rw [Option.isNone_iff_eq_none.mp isNone]
  rfl

theorem excluding_of_endsRules {unwanted : List TokenKind} (ends : endsRules next = true)
    (apart : .keyword .mode ∉ unwanted) : excluding unwanted next = true := by
  rw [endsRules, Bool.or_eq_true, decide_eq_true_iff, decide_eq_true_iff] at ends
  rcases ends with rfl | rfl
  · rfl
  · exact decide_eq_true apart

theorem ruleStep_of_done {tree : Tree}
    (derives : (Ebnf.construct .rule).Derives (taken.map Token.kind))
    (outcome : Parse.rule (taken ++ rest) = .done (tree, []) rest) :
    ruleStep (taken ++ rest) = some (⟨[tree], []⟩, rest) := by
  obtain ⟨token, others, rfl, isStart⟩ := Ebnf.exists_cons_of_derives derives rfl
  have starts : ∀ kind ∈ (Ebnf.construct .rule).starts,
      kind ≠ .keyword .mode ∧ startsRule kind = true := by decide
  obtain ⟨noMode, isRule⟩ := starts _ isStart
  exact RuleStep.applies (.found isRule outcome) noMode

theorem takes_rule :
    Takes ruleStep (fun harvest => harvest.faults = []) (.construct .rule)
      (excluding [.keyword .catchWord, .keyword .finallyWord]) := by
  intro taken rest derives behind
  obtain ⟨tree, done⟩ := rule_append derives behind
  exact ⟨⟨[tree], []⟩, ruleStep_of_done derives done, rfl⟩

theorem ruleStep_eq_none (ends : endsRules (headKind? tokens) = true) :
    ruleStep tokens = none := by
  cases tokens with
  | nil => rfl
  | cons token rest =>
    have isMode : token.kind = .keyword .mode := by
      simpa [endsRules, headKind?_cons] using ends
    rw [ruleStep, if_pos isMode]

theorem rules_append
    (derives : (Ebnf.many (.construct .rule)).Derives (taken.map Token.kind))
    (behind : endsRules (headKind? rest) = true) :
    ∃ trees, rules (taken ++ rest) = (⟨trees, []⟩, rest) :=
  TakesAll.collect ⟨takes_rule, rfl, by decide,
    fun _ ends => excluding_of_endsRules ends (by decide), fun _ =>
      ruleStep_eq_none⟩ derives behind

theorem accepts_modeLine {bound : Nat} :
    Accepts bound modeLine (.sequence [.keyword .mode, .identifier, .mark .semicolon])
      anything :=
  Accepts.expect.andThen fun _ => Accepts.identifier.andThen fun _ =>
    Accepts.mark.andThen fun _ =>
    .pure

theorem tokens_of_mode (derives : modeProduction.Derives (taken.map Token.kind)) :
    ∃ line declared, taken = line ++ declared ∧
      (Ebnf.sequence [.keyword .mode, .identifier, .mark .semicolon]).Derives
        (line.map Token.kind) ∧
      (Ebnf.many (.construct .rule)).Derives (declared.map Token.kind) := by
  have parts : (Ebnf.sequence ([.keyword .mode, .identifier, .mark .semicolon] ++
      [.many (.construct .rule)])).Derives (taken.map Token.kind) := derives
  obtain ⟨line, declared, rfl, lineDerives, ruleDerives⟩ := Ebnf.tokens_of_append parts
  exact ⟨line, declared, rfl, lineDerives, Ebnf.derives_single.mp ruleDerives⟩

theorem takes_mode :
    Takes modeStep (fun found => found.faults = []) modeProduction endsRules := by
  intro taken rest derives behind
  obtain ⟨token, others, nonempty, _⟩ := Ebnf.exists_cons_of_derives derives rfl
  obtain ⟨line, behindLine, rfl, lineDerives, manyDerives⟩ := tokens_of_mode derives
  obtain ⟨tree, done⟩ :=
    accepts_modeLine line (behindLine ++ rest) (Nat.lt_succ_self _) lineDerives rfl
  obtain ⟨trees, further⟩ := rules_append manyDerives behind
  have someLeft : (line ++ (behindLine ++ rest)).isEmpty = false := by
    rw [← append_assoc, nonempty]
    rfl
  refine ⟨⟨some (tree.append trees), [], []⟩, ?_, rfl⟩
  rw [append_assoc, modeStep, someLeft, done]
  simp only [further]
  rfl

theorem modes_append
    (derives : (Ebnf.many modeProduction).Derives (taken.map Token.kind)) :
    ∃ found, repeated modeStep taken = (found, []) ∧ ∀ mode ∈ found,
      mode.faults = [] := by
  have stops (tokens : List Token) (ends : (headKind? tokens).isNone = true) :
      modeStep tokens = none := by
    cases tokens with
    | nil => rfl
    | cons token rest => cases ends
  have all : ∃ found, repeated modeStep (taken ++ []) = (found, []) ∧ ∀ mode ∈ found,
      mode.faults = [] :=
    TakesAll.repeated ⟨takes_mode, rfl, by decide, fun _ => endsRules_of_isNone, stops⟩
      derives rfl
  rwa [append_nil] at all

/-! ## Whole grammars -/

theorem flavourOf_append
    (derives : (Ebnf.optional (.oneOf [.keyword .lexer, .keyword .parser])).Derives
      (taken.map Token.kind))
    (behind : headKind? rest = some (.keyword .grammar)) :
    (flavourOf (taken ++ rest)).2 = rest := by
  rcases Ebnf.derives_optional.mp derives with isEmpty | body
  · rw [map_eq_nil_iff.mp isEmpty, nil_append]
    cases rest with
    | nil => rfl
    | cons keyword left =>
      have isGrammar : keyword.kind = .keyword .grammar := Option.some.inj behind
      simp [flavourOf, isGrammar]
  · obtain ⟨word, member, wordBody⟩ := Ebnf.derives_oneOf.mp body
    simp only [mem_cons, not_mem_nil, or_false] at member
    rcases member with rfl | rfl
    · obtain ⟨token, rfl, isLexer⟩ :=
        exists_of_map_kind (Ebnf.derives_terminal.mp wordBody)
      simp [flavourOf, isLexer]
    · obtain ⟨token, rfl, isParser⟩ :=
        exists_of_map_kind (Ebnf.derives_terminal.mp wordBody)
      simp [flavourOf, isParser]

theorem header_append
    (derives : (Ebnf.sequence headerParts).Derives (taken.map Token.kind)) :
    behindHeader (header (taken ++ rest)).2 = ([], rest) := by
  obtain ⟨front, line, rfl, flavourDerives, lineDerives⟩ := Ebnf.tokens_of_cons derives
  obtain ⟨keyword, behind, rfl, isGrammar, nameDerives⟩ :=
    Ebnf.tokens_of_terminal lineDerives
  obtain ⟨names, ending, rfl, named, endDerives⟩ := Ebnf.tokens_of_cons nameDerives
  obtain ⟨kind, equal, isName⟩ := Accepts.single_of_identifier _ named
  obtain ⟨name, rfl, rfl⟩ := exists_of_map_kind equal
  obtain ⟨semicolon, nothing, rfl, isSemicolon, isEmpty⟩ :=
    Ebnf.tokens_of_terminal endDerives
  obtain rfl := map_eq_nil_iff.mp (Ebnf.derives_nil.mp isEmpty)
  have flavoured : (flavourOf (front ++ keyword :: name :: semicolon :: rest)).2 =
      keyword :: name :: semicolon :: rest :=
          flavourOf_append flavourDerives (congrArg some isGrammar)
  rw [append_assoc]
  simp only [cons_append, nil_append, header]
  generalize flavourOf (front ++ keyword :: name :: semicolon :: rest) =
    result at flavoured
  obtain ⟨flavour, behind⟩ := result
  subst flavoured
  simp only [expect_cons isGrammar, identifier, take_cons isName, mark,
    expect_cons isSemicolon]
  rfl

/-- Every phrase of the grammar language is read without a fault. -/
theorem faults_nil_of_derives
    (derives : (Ebnf.construct .grammarSpec).Derives (tokens.map Token.kind ++ [.eof])) :
    (ofTokens tokens).faults = [] := by
  have parts : (Ebnf.sequence (headerParts ++ ([.many (.construct .prequel),
      .many (.construct .rule), .many modeProduction] ++ [.terminal .eof]))).Derives
      (tokens.map Token.kind ++ [.eof]) := Ebnf.derives_construct.mp derives
  rw [← append_assoc] at parts
  obtain ⟨kinds, final, whole, wholeDerives, finalDerives⟩ := Ebnf.derives_append.mp parts
  rw [Ebnf.derives_terminal.mp (Ebnf.derives_single.mp finalDerives)] at whole
  obtain rfl := append_cancel_right whole
  obtain ⟨line, behindLine, rfl, lineDerives, behindDerives⟩ :=
    Ebnf.tokens_of_append wholeDerives
  obtain ⟨prequels, behind, rfl, prequelsDerive, restDerives⟩ :=
    Ebnf.tokens_of_cons behindDerives
  obtain ⟨declared, modes, rfl, rulesDerive, lastDerives⟩ :=
    Ebnf.tokens_of_cons restDerives
  have modesDerive := Ebnf.derives_single.mp lastDerives
  have atEnd : (headKind? []).isNone = true := rfl
  have behindRules := Ebnf.next_of_derives endsRules modesDerive atEnd (by decide)
    fun _ _ => endsRules_of_isNone
  rw [append_nil] at behindRules
  have behindSections :
      excluding Construct.prequel.starts (headKind? (declared ++ modes)) = true :=
    Ebnf.next_of_derives _ rulesDerive behindRules (by decide) fun _ next ends =>
      excluding_of_endsRules ends (by decide)
  obtain ⟨sectionTrees, sectionsDone⟩ := prequels_append prequelsDerive behindSections
  obtain ⟨ruleTrees, rulesDone⟩ := rules_append rulesDerive behindRules
  obtain ⟨found, modesDone, areClean⟩ := modes_append modesDerive
  simp only [ofTokens, header_append lineDerives, sectionsDone, rulesDone, modesDone,
    flatMap_eq_nil_iff.mpr areClean, append_nil]

end GrammarInspector.Reading
