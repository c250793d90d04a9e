import GrammarInspector.Proofs.Grammar.Alike.Reading

/-! # Reading that depends on nothing behind

A construct that ends with a token of its own is read the same whatever stands behind that
token. Of what stands behind a rule it only matters that no handler does. So the part of a
grammar up to the end of a rule is read once and for all.
-/

namespace GrammarInspector

open List

/-! ## The same tokens with other tokens behind them -/

/-- Spans that are the same. -/
def Span.Pairing.same : Span.Pairing where
  pairs := Eq
  merge leftEqual rightEqual := by rw [leftEqual, rightEqual]

theorem eq_of_rel {α : Type} {related : α → α → Prop}
    (same : ∀ left right, related left right → left = right) {left right : Option α}
    (both : Option.Rel related left right) : left = right := by
  cases both with
  | none => rfl
  | some holds => exact congrArg some (same _ _ holds)

theorem Token.alike_same (token : Token) : token.Alike .same token := ⟨rfl, rfl, rfl⟩

theorem AltLabel.Alike.eq_of_same {label other : AltLabel}
    (alike : label.Alike .same other) : label = other := by
  obtain ⟨name, span⟩ := label
  obtain ⟨rfl, rfl⟩ := alike
  rfl

theorem NodeData.Alike.eq_of_same {data other : NodeData}
    (alike : data.Alike .same other) : data = other := by
  have spans := eq_of_rel (fun _ _ => id) alike.span
  have labels := eq_of_rel (fun _ _ => AltLabel.Alike.eq_of_same) alike.label
  cases data
  cases other
  rw [NodeData.mk.injEq]
  exact ⟨alike.kind, alike.text, spans, labels⟩

namespace Tree.Alike

mutual

theorem eq_of_same : {tree other : Tree} → tree.Alike .same other → tree = other
  | _, _, .node own below => by rw [own.eq_of_same, eq_of_forall₂_same below]

theorem eq_of_forall₂_same : {trees others : List Tree} → Forall₂
    (Alike .same) trees others → trees = others
  | _, _, .nil => rfl
  | _, _, .cons first rest => by rw [eq_of_same first, eq_of_forall₂_same rest]

end

end Tree.Alike

theorem Reading.Header.Alike.eq_of_same {header other : Header}
    (alike : header.Alike .same other) : header = other := by
  have keywords := eq_of_rel (fun _ _ => id) alike.keyword
  have names := eq_of_rel (fun _ _ => Tree.Alike.eq_of_same) alike.name
  cases header
  cases other
  rw [Header.mk.injEq]
  exact ⟨alike.flavour, keywords, names⟩

namespace Lockstep

variable {pace : Lockstep} {tokens others : List Token}

theorem Alike.tail_length_le (alike : pace.Alike tokens others) :
    pace.tail.length ≤ tokens.length := by
  induction alike with
  | ends => exact Nat.le_refl _
  | cons _ _ induction => exact Nat.le_succ_of_le induction

/-- Behind the shared part of one list is what is behind the shared part of the other. -/
theorem Alike.eq_other (alike : pace.Alike pace.tail others) : others = pace.other := by
  generalize whole : pace.tail = tokens at alike
  cases alike with
  | ends => rfl
  | cons _ further =>
    have enough := further.tail_length_le
    rw [whole, length_cons] at enough
    exact absurd enough (Nat.not_succ_le_self _)

/-- The same tokens in front of one list and another. -/
def exchange (tail other : List Token) (heads : headKind? tail = headKind? other)
    (seconds : headKind? tail = some (.punctuation .semicolon) ∨
      headKind? tail.tail = headKind? other.tail) :
    Lockstep where
  pairing := .same
  tail
  other
  heads
  seconds

theorem alike_exchange {tail other : List Token}
    {heads : headKind? tail = headKind? other}
    {seconds : headKind? tail = some (.punctuation .semicolon) ∨
      headKind? tail.tail = headKind? other.tail}
    (front : List Token) :
    (exchange tail other heads seconds).Alike (front ++ tail) (front ++ other) := by
  induction front with
  | nil => exact .ends
  | cons token _ induction => exact .cons token.alike_same induction

end Lockstep

/-! ## Phrases of repetitions -/

namespace Ebnf

variable {body : Ebnf} {kinds last : List TokenKind}

theorem Derives.concat (many : (Ebnf.many body).Derives kinds)
    (item : body.Derives last) : (Ebnf.many body).Derives (kinds ++ last) := by
  generalize whole : Ebnf.many body = expression at many
  induction many with
  | none =>
    cases whole
    rw [nil_append, ← append_nil last]
    exact .more item .none
  | more head _ _ induction =>
    cases whole
    rw [append_assoc]
    exact .more head (induction rfl)
  | _ => cases whole

theorem exists_concat_of_derives (many : (Ebnf.many body).Derives kinds) :
    kinds = [] ∨ ∃ front last, kinds = front ++ last ∧ (Ebnf.many body).Derives front ∧
    body.Derives last := by
  generalize whole : Ebnf.many body = expression at many
  induction many with
  | none => exact Or.inl rfl
  | @more _ first rest head tail _ induction =>
    cases whole
    right
    rcases induction rfl with rfl | ⟨front, last, rfl, frontDerives, lastDerives⟩
    · exact ⟨[], first, append_nil _, .none, head⟩
    · exact ⟨first ++ front, last, (append_assoc ..).symm,
        .more head frontDerives, lastDerives⟩
  | _ => cases whole

end Ebnf

/-! ## Constructs -/

namespace Parse

variable {α β : Type} {parse : Parse α} {next : α → Parse β} {tokens rest : List Token}

/-- A construct that does not look beyond the tokens it takes. -/
def Local (parse : Parse α) : Prop :=
  ∀ tokens value rest, parse tokens = .done value rest →
    ∃ taken, tokens = taken ++ rest ∧ ∀ other, parse (taken ++ other) = .done value other

namespace Local

theorem pure {value : α} : Local (pure value) := by
  intro tokens result rest outcome
  cases outcome
  exact ⟨[], rfl, fun _ => rfl⟩

theorem bind (first : Local parse) (second : ∀ value, Local (next value)) :
    Local (parse >>= next) := by
  intro tokens result rest outcome
  obtain ⟨value, left, before, behind⟩ := exists_of_bind_done outcome
  obtain ⟨taken, rfl, front⟩ := first _ _ _ before
  obtain ⟨more, rfl, back⟩ := second value _ _ _ behind
  refine ⟨taken ++ more, (append_assoc ..).symm, fun other => ?_⟩
  rw [append_assoc, bind_apply, front (more ++ other)]
  exact back other

theorem take {accepts : TokenKind → Bool} {expected : Expected} :
    Local (take accepts expected) := by
  intro tokens value rest outcome
  cases tokens with
  | nil => cases outcome
  | cons token behind =>
    rw [Parse.take] at outcome
    by_cases accepted : accepts token.kind = true
    · rw [if_pos accepted] at outcome
      cases outcome
      refine ⟨[value], rfl, fun other => ?_⟩
      rw [singleton_append, Parse.take, if_pos accepted]
    · rw [if_neg accepted] at outcome
      cases outcome

theorem mark {mark : Mark} : Local (Parse.mark mark) := by
  unfold Parse.mark expect
  exact take

end Local

theorem local_handler : Local handler :=
  Local.take.bind fun _ => Local.take.bind fun _ => Local.take.bind fun _ => .pure

theorem local_cleanup : Local cleanup :=
  Local.take.bind fun _ => Local.take.bind fun _ => .pure

theorem expect_eq_done {kind : TokenKind} {token : Token}
    (outcome : expect kind tokens = .done token rest) :
    tokens = token :: rest ∧ token.kind = kind := by
  cases tokens with
  | nil => cases outcome
  | cons first behind =>
    rw [expect, take] at outcome
    by_cases isKind : first.kind = kind
    · rw [if_pos (decide_eq_true isKind)] at outcome
      cases outcome
      exact ⟨rfl, isKind⟩
    · rw [if_neg (by simpa using isKind)] at outcome
      cases outcome

/-- Reading goes on to the semicolon that ends the declaration, so what is behind it
does not matter. -/
theorem local_ruleDeclaration : Local ruleDeclaration := by
  intro tokens found rest outcome
  rw [ruleDeclaration_eq] at outcome
  obtain ⟨front, left, opened, behind⟩ := exists_of_bind_done outcome
  obtain ⟨semicolon, last, ended, returned⟩ := exists_of_bind_done behind
  cases returned
  obtain ⟨rfl, isSemicolon⟩ := expect_eq_done ended
  have isHead : headKind? (semicolon :: rest) = some (.punctuation .semicolon) :=
    congrArg some isSemicolon
  have parallel (pace : Lockstep) :
      Parallel pace .all True (DeclaredAlike pace.pairing) openRule openRule :=
        parallel_openRule
  obtain ⟨taken, equal, _⟩ := (parallel (Reading.throughout .same)).takes tokens
  rw [opened] at equal
  change tokens = taken ++ semicolon :: rest at equal
  refine ⟨taken ++ [semicolon], by rw [equal, append_assoc]; rfl, fun other => ?_⟩
  have alike : (Lockstep.exchange (semicolon :: rest) (semicolon :: other) rfl
      (Or.inl isHead)).Alike (taken ++ semicolon :: rest) (taken ++ semicolon :: other) :=
    Lockstep.alike_exchange taken
  rw [← equal] at alike
  obtain ⟨result, last, openedToo, ⟨treeAlike, flavours⟩, lastAlike⟩ :=
    (parallel _).exists_done trivial alike opened (Nat.le_refl _)
  have same : found = result := Prod.ext treeAlike.eq_of_same flavours
  obtain rfl := lastAlike.eq_other
  rw [append_assoc, ruleDeclaration_eq, bind_apply, singleton_append, openedToo, ← same]
  change (mark .semicolon >>= fun _ => pure found) (semicolon :: other) = _
  rw [bind_apply, mark, expect_cons isSemicolon]
  rfl

/-- Behind a rule there is no other handler of it. -/
def noHandler (next : Option TokenKind) : Bool :=
  excluding [.keyword .catchWord, .keyword .finallyWord] next

theorem handlers_local {trees : List Tree}
    (outcome : handlers tokens = ⟨trees, [], rest⟩) :
    ∃ taken, tokens = taken ++ rest ∧ ∀ other, noHandler (headKind? other) = true →
      handlers (taken ++ other) = ⟨trees, [], other⟩ := by
  induction count : tokens.length using Nat.strongRecOn generalizing tokens trees with
  | ind count induction =>
    by_cases isCatch : headKind? tokens = some (.keyword .catchWord)
    · cases caught : handler tokens with
      | failed expected left =>
        rw [handlers_of_failed_handler isCatch caught] at outcome
        cases outcome
      | done tree left =>
        have shorter := length_lt_of_handler caught
        rw [handlers_of_handler isCatch caught shorter] at outcome
        generalize following : handlers left = found at outcome
        obtain ⟨others, faults, last⟩ := found
        cases outcome
        obtain ⟨more, rfl, further⟩ := induction _ (count ▸ shorter) following rfl
        obtain ⟨taken, rfl, here⟩ := local_handler _ _ _ caught
        cases taken with
        | nil => cases here []
        | cons token taken =>
          refine ⟨token :: taken ++ more, (append_assoc ..).symm, fun other behind => ?_⟩
          have isCatchToo : headKind? (token :: taken ++ (more ++ other)) =
              some (.keyword .catchWord) := isCatch
          have again := here (more ++ other)
          rw [append_assoc, handlers_of_handler isCatchToo again
            (length_lt_of_handler again), further other behind]
    · by_cases isFinally : headKind? tokens = some (.keyword .finallyWord)
      · cases final : cleanup tokens with
        | failed expected left =>
          rw [handlers_of_failed_cleanup isFinally final] at outcome
          cases outcome
        | done tree left =>
          rw [handlers_of_cleanup isFinally final] at outcome
          cases outcome
          obtain ⟨taken, rfl, here⟩ := local_cleanup _ _ _ final
          cases taken with
          | nil => cases here []
          | cons token taken =>
            exact ⟨token :: taken, rfl, fun other _ =>
              handlers_of_cleanup isFinally (here other)⟩
      · rw [handlers_of_neither (neither_of_ne isCatch isFinally)] at outcome
        cases outcome
        exact ⟨[], rfl, fun other behind => handlers_of_neither behind⟩

theorem rule_local {tree : Tree} (outcome : rule tokens = .done (tree, []) rest) :
    ∃ taken, tokens = taken ++ rest ∧ ∀ other, noHandler (headKind? other) = true →
      rule (taken ++ other) = .done (tree, []) other := by
  rw [rule] at outcome
  cases declared : ruleDeclaration tokens with
  | failed expected left =>
    rw [declared] at outcome
    cases outcome
  | done found left =>
    obtain ⟨declaration, flavour⟩ := found
    rw [declared] at outcome
    obtain ⟨taken, rfl, here⟩ := local_ruleDeclaration _ _ _ declared
    cases flavour with
    | lexer =>
      cases outcome
      refine ⟨taken, rfl, fun other _ => ?_⟩
      rw [rule, here other]
    | parser =>
      change Outcome.done (declaration.append (handlers left).trees,
        (handlers left).faults) (handlers left).rest = _ at outcome
      generalize following : handlers left = found at outcome
      obtain ⟨trees, faults, last⟩ := found
      cases outcome
      obtain ⟨more, rfl, further⟩ := handlers_local following
      refine ⟨taken ++ more, (append_assoc ..).symm, fun other behind => ?_⟩
      rw [append_assoc, rule, here (more ++ other)]
      simp only [further other behind]

/-- A rule that has all its handlers gives the same tree whatever is behind it. -/
theorem rule_settles {taken : List Token}
    (derives : (Ebnf.construct .rule).Derives (taken.map Token.kind)) :
    ∃ tree, ∀ other, noHandler (headKind? other) = true →
    rule (taken ++ other) = .done (tree, []) other := by
  have atEnd : noHandler (headKind? []) = true := rfl
  obtain ⟨tree, outcome⟩ := rule_append derives atEnd
  obtain ⟨same, equal, settled⟩ := rule_local outcome
  rw [append_cancel_right equal]
  exact ⟨tree, settled⟩

end Parse

namespace Reading

open Parse (excluding noHandler)

variable {α : Type} {step : List Token → Option (α × List Token)} {clean : α → Prop}
  {expression : Ebnf} {follow : Option TokenKind → Bool} {taken : List Token}

/-! ## Repetitions -/

/-- A step takes every phrase of an expression and gives the same value whatever is behind
it, as long as the right tokens are. -/
def Settles (step : List Token → Option (α × List Token)) (clean : α → Prop)
    (expression : Ebnf) (follow : Option TokenKind → Bool) : Prop :=
  ∀ taken, expression.Derives (taken.map Token.kind) → ∃ value, clean value ∧
    ∀ rest, follow (headKind? rest) = true → step (taken ++ rest) = some (value, rest)

/-- A repetition takes all phrases and then goes on with what is behind them. -/
theorem Settles.repeated (item : Settles step clean expression follow)
    (solid : expression.nullable = false)
    (begins : ∀ kind ∈ expression.starts, follow (some kind) = true)
    (derives : (Ebnf.many expression).Derives (taken.map Token.kind)) :
    ∃ values, (∀ value ∈ values, clean value) ∧ ∀ rest, follow (headKind? rest) = true →
      Reading.repeated step (taken ++ rest) =
        (values ++ (Reading.repeated step rest).1, (Reading.repeated step rest).2) := by
  induction derives using Ebnf.many_induction with
  | nothing => exact ⟨[], by simp, fun rest _ => rfl⟩
  | phrase front back head tail induction =>
    obtain ⟨value, isClean, applies⟩ := item front head
    obtain ⟨token, others, rfl, _⟩ := Ebnf.exists_cons_of_derives head solid
    obtain ⟨values, areClean, further⟩ := induction
    refine ⟨value :: values, forall_mem_cons.mpr ⟨isClean, areClean⟩,
      fun rest behind => ?_⟩
    have middle : follow (headKind? (back ++ rest)) = true :=
      Ebnf.next_of_derives follow tail behind begins fun _ _ => id
    have shorter : (back ++ rest).length <
        (token :: others ++ (back ++ rest)).length := by
      simp only [length_append, length_cons]
      omega
    rw [append_assoc, Reading.repeated, applies _ middle]
    simp only [if_pos shorter, further rest behind]
    rfl

/-! ## Rules and modes -/

theorem settles_rule :
    Settles ruleStep (fun harvest => harvest.faults = []) (.construct .rule)
      noHandler := by
  intro taken derives
  obtain ⟨tree, settled⟩ := Parse.rule_settles derives
  exact ⟨⟨[tree], []⟩, rfl, fun rest behind =>
    ruleStep_of_done derives (settled rest behind)⟩

/-- What was read behind some trees, together with them. -/
def Harvest.behind (trees : List Tree) (harvest : Harvest) : Harvest :=
  ⟨trees ++ harvest.trees, harvest.faults⟩

theorem rules_settle
    (derives : (Ebnf.many (.construct .rule)).Derives (taken.map Token.kind)) :
    ∃ trees, ∀ rest, noHandler (headKind? rest) = true →
      rules (taken ++ rest) = ((rules rest).1.behind trees, (rules rest).2) := by
  obtain ⟨harvests, areClean, settled⟩ := settles_rule.repeated rfl (by decide) derives
  refine ⟨harvests.flatMap (·.trees), fun rest behind => ?_⟩
  rw [rules, collect, settled rest behind]
  simp only [flatMap_append, flatMap_eq_nil_iff.mpr areClean, nil_append]
  rfl

theorem rules_of_endsRules {rest : List Token}
    (ends : endsRules (headKind? rest) = true) :
    rules rest = (⟨[], []⟩, rest) := by
  rw [rules, collect, repeated, ruleStep_eq_none ends]
  rfl

theorem local_modeLine : Parse.Local modeLine :=
  Parse.Local.take.bind fun _ => Parse.Local.take.bind fun _ =>
    Parse.Local.mark.bind fun _ => .pure

/-- A mode that goes on with more rules. -/
def ModeSection.ofMode (mode : Tree) (harvest : Harvest) : ModeSection :=
  ⟨some (mode.append harvest.trees), [], harvest.faults⟩

theorem exists_modeStep (derives : modeProduction.Derives (taken.map Token.kind)) :
    ∃ mode : Tree, ∀ rest, noHandler (headKind? rest) = true →
      modeStep (taken ++ rest) = some (.ofMode mode (rules rest).1, (rules rest).2) := by
  obtain ⟨line, declared, rfl, lineDerives, manyDerives⟩ := tokens_of_mode derives
  obtain ⟨mode, outcome⟩ := accepts_modeLine line [] (Nat.lt_succ_self _) lineDerives rfl
  obtain ⟨same, lineEqual, settled⟩ := local_modeLine _ _ _ outcome
  rw [← append_cancel_right lineEqual] at settled
  obtain ⟨trees, further⟩ := rules_settle manyDerives
  obtain ⟨token, others, rfl, _⟩ := Ebnf.exists_cons_of_derives lineDerives rfl
  refine ⟨mode.append trees, fun rest behind => ?_⟩
  rw [append_assoc, ModeStep.applies (.mode (settled _)) (cons_ne_nil _ _),
    further rest behind]
  simp only [ModeSection.ofMode, Harvest.behind, Tree.append, Tree.data_node,
    Tree.children_node, append_assoc]

theorem settles_mode :
    Settles modeStep (fun found => found.faults = []) modeProduction endsRules := by
  intro taken derives
  obtain ⟨mode, applies⟩ := exists_modeStep derives
  refine ⟨.ofMode mode ⟨[], []⟩, rfl, fun rest ends => ?_⟩
  rw [applies rest (excluding_of_endsRules ends (by decide)), rules_of_endsRules ends]

/-! ## Up to the end of a rule -/

/-- The reading of a grammar whose header and sections have no fault. -/
def compose (header : Header) (sections : List Tree) (declared : Harvest)
    (modes : List ModeSection) : Reading where
  flavour := header.flavour
  tree := .node ⟨.grammar, header.flavour.rootText, header.keyword, none⟩
    (header.name.toList ++ sections ++
      [.group .rules (declared.trees ++ modes.flatMap (·.strays))] ++
      modes.filterMap (·.mode))
  faults := declared.faults ++ modes.flatMap (·.faults)

theorem exists_header_done {line : List Token} (rest : List Token)
    (derives : (Ebnf.sequence headerParts).Derives (line.map Token.kind)) :
    ∃ semicolon, (header (line ++ rest)).2 = .done semicolon rest := by
  have reached : behindHeader (header (line ++ rest)).2 = ([], rest) :=
    header_append derives
  generalize (header (line ++ rest)).2 = outcome at reached ⊢
  cases outcome with
  | failed expected left => cases reached
  | done semicolon left =>
    cases reached
    exact ⟨semicolon, rfl⟩

/-- Header and sections are read the same whatever is behind the next two tokens. -/
theorem sections_settle {line sections : List Token} {first second : Token}
    (lineDerives : (Ebnf.sequence headerParts).Derives (line.map Token.kind))
    (sectionsDerive : (Ebnf.many (.construct .prequel)).Derives (sections.map Token.kind))
    (begins : excluding Construct.prequel.starts (some first.kind) = true) :
    ∃ header trees, ∀ rest, ofTokens (line ++ (sections ++ first :: second :: rest)) =
      compose header trees (rules (first :: second :: rest)).1
        (repeated modeStep (rules (first :: second :: rest)).2).1 := by
  have read (rest : List Token) : excluding Construct.prequel.starts
      (headKind? (first :: second :: rest)) = true := begins
  obtain ⟨trees, done⟩ := prequels_append sectionsDerive (read [])
  refine ⟨(header (line ++ (sections ++ [first, second]))).1, trees, fun rest => ?_⟩
  obtain ⟨others, doneToo⟩ := prequels_append sectionsDerive (read rest)
  let pace := Lockstep.exchange [first, second] (first :: second :: rest) rfl (Or.inr rfl)
  have behindLine : pace.Alike (sections ++ [first, second])
      (sections ++ first :: second :: rest) :=
    Lockstep.alike_exchange sections
  have whole : pace.Alike (line ++ (sections ++ [first, second]))
      (line ++ (sections ++ first :: second :: rest)) := by
    rw [← append_assoc, ← append_assoc]
    exact Lockstep.alike_exchange (line ++ sections)
  obtain ⟨semicolon, headerDone⟩ :=
    exists_header_done (sections ++ [first, second]) lineDerives
  have sameHeader :=
    (header_alike whole
      (by rw [headerDone]; exact behindLine.tail_length_le)).1.eq_of_same
  have sameTrees : trees = others := by
    have alike :=
      (collect_alike prequelStep_alike behindLine
        (by rw [done]; exact Nat.le_refl _)).1.trees
    rw [done, doneToo] at alike
    exact Tree.Alike.eq_of_forall₂_same alike
  rw [sameHeader, sameTrees]
  simp only [ofTokens, header_append lineDerives, doneToo]
  rfl

/-- A grammar up to the end of one of its rules. -/
def throughRule : Ebnf :=
  .sequence (headerParts ++ [.many (.construct .prequel), .many (.construct .rule),
    .many modeProduction, .construct .rule])

/-- What has been read where a rule ends. -/
inductive Front where
  /-- The rule is one of the grammar itself. -/
  | declaring (header : Header) (sections trees : List Tree)
  /-- The rule is one of a mode that is not complete yet. -/
  | inMode (header : Header) (sections trees : List Tree) (modes : List ModeSection)
      (mode : Tree) (clean : ∀ found ∈ modes, found.faults = [])

/-- The whole grammar, given what is behind the rule: more rules and then
further modes. -/
def Front.complete (harvest : Harvest) (further : List ModeSection) : Front → Reading
  | .declaring header sections trees =>
      compose header sections (harvest.behind trees) further
  | .inMode header sections trees modes mode _ =>
    compose header sections ⟨trees, []⟩ (modes ++ .ofMode mode harvest :: further)

theorem two_le_length_of_rule {kinds : List TokenKind}
    (derives : (Ebnf.construct .rule).Derives kinds) : 2 ≤ kinds.length := by
  -- Behind the modifiers come the name and then a part that has a colon at least.
  have both {name : TokenKind} {parts : List Ebnf}
      (solid : (Ebnf.sequence parts).nullable = false)
      (derives : (Ebnf.sequence (.many .modifier :: .terminal name :: parts)).Derives
        kinds) :
      2 ≤ kinds.length := by
    obtain ⟨modifiers, behind, rfl, _, tail⟩ := Ebnf.derives_cons.mp derives
    obtain ⟨named, others, rfl, isName, rest⟩ := Ebnf.derives_cons.mp tail
    rcases Ebnf.starts_of_derives rest with ⟨_, isNullable⟩ | ⟨kind, more, rfl, _⟩
    · rw [solid] at isNullable
      cases isNullable
    · rw [Ebnf.derives_terminal.mp isName]
      simp only [length_append, length_cons, length_nil]
      omega
  obtain ⟨chosen, member, body⟩ :=
    Ebnf.derives_oneOf.mp (Ebnf.derives_construct.mp derives)
  simp only [mem_cons, not_mem_nil, or_false] at member
  rcases member with rfl | rfl
  · exact both rfl (Ebnf.derives_construct.mp body)
  · exact both rfl (Ebnf.derives_construct.mp body)

/-- A mode goes on with another rule. -/
theorem derives_mode_append {kinds last : List TokenKind}
    (derives : modeProduction.Derives kinds)
      (rule : (Ebnf.construct .rule).Derives last) :
    modeProduction.Derives (kinds ++ last) := by
  have parts : (Ebnf.sequence ([.keyword .mode, .identifier, .mark .semicolon] ++
      [.many (.construct .rule)])).Derives kinds := derives
  obtain ⟨line, others, rfl, lineDerives, othersDerive⟩ := Ebnf.derives_append.mp parts
  have more := (Ebnf.derives_single.mp othersDerive).concat rule
  rw [append_assoc]
  exact lineDerives.append (Ebnf.derives_single.mpr more)

/-- A mode that is read goes on with what is behind its last rule. -/
theorem repeated_modeStep {mode : Tree} {rest : List Token} (nonempty : taken ≠ [])
    (applies : modeStep (taken ++ rest) = some (.ofMode mode (rules rest).1,
      (rules rest).2)) :
    (repeated modeStep (taken ++ rest)).1 = .ofMode mode (rules rest).1 ::
      (repeated modeStep (rules rest).2).1 := by
  have shorter : (rules rest).2.length < (taken ++ rest).length := by
    have positive := length_pos_iff.mpr nonempty
    have fewer := length_rules_le rest
    rw [length_append]
    omega
  rw [repeated, applies]
  simp only [if_pos shorter]

/-- Behind rules, modes and one more rule, reading goes on in the rules of the grammar if
there are no modes, and in the last mode otherwise. -/
theorem body_settles {declared modes last : List Token}
    (declaredDerive : (Ebnf.many (.construct .rule)).Derives (declared.map Token.kind))
    (modesDerive : (Ebnf.many modeProduction).Derives (modes.map Token.kind))
    (lastDerives : (Ebnf.construct .rule).Derives (last.map Token.kind)) :
    (∃ trees, ∀ rest, noHandler (headKind? rest) = true →
      rules (declared ++ (modes ++ (last ++ rest))) = ((rules rest).1.behind trees,
        (rules rest).2)) ∨
    ∃ trees mode, ∃ found : List ModeSection, (∀ earlier ∈ found, earlier.faults = []) ∧
      ∀ rest, noHandler (headKind? rest) = true → ∃ left,
        rules (declared ++ (modes ++ (last ++ rest))) = (⟨trees, []⟩, left) ∧
            (repeated modeStep left).1 = found ++ .ofMode mode (rules rest).1 ::
              (repeated modeStep (rules rest).2).1 := by
  rcases Ebnf.exists_concat_of_derives modesDerive with
    isEmpty | ⟨kinds, others, equal, many, final⟩
  · left
    have together := declaredDerive.concat lastDerives
    rw [← map_append] at together
    obtain ⟨trees, settled⟩ := rules_settle together
    refine ⟨trees, fun rest behind => ?_⟩
    rw [map_eq_nil_iff.mp isEmpty, nil_append, ← append_assoc, settled rest behind]
  · right
    obtain ⟨earlier, current, rfl, rfl, rfl⟩ := map_eq_append_iff.mp equal
    have together := derives_mode_append final lastDerives
    rw [← map_append] at together
    obtain ⟨trees, rulesSettled⟩ := rules_settle declaredDerive
    obtain ⟨found, areClean, modesSettled⟩ := settles_mode.repeated rfl (by decide) many
    obtain ⟨mode, applies⟩ := exists_modeStep together
    obtain ⟨token, more, nonempty, isStart⟩ := Ebnf.exists_cons_of_derives together rfl
    refine ⟨trees, mode, found, areClean, fun rest behind => ?_⟩
    have atMode : endsRules (headKind? (current ++ last ++ rest)) = true := by
      rw [nonempty, cons_append, headKind?_cons, mem_singleton.mp isStart]
      rfl
    have atModes : endsRules (headKind? (earlier ++ (current ++ last ++ rest))) = true :=
      Ebnf.next_of_derives endsRules many atMode (by decide) fun _ _ => id
    refine ⟨earlier ++ (current ++ last ++ rest), ?_, ?_⟩
    · have shifted : earlier ++ current ++ (last ++ rest) = earlier ++
          (current ++ last ++ rest) := by
        simp only [append_assoc]
      rw [shifted, rulesSettled _ (excluding_of_endsRules atModes (by decide)),
        rules_of_endsRules atModes, Harvest.behind, append_nil]
    · rw [modesSettled _ atMode, repeated_modeStep (by simp [nonempty])
        (applies rest behind)]

/-- Up to the end of a rule everything is read once and for all. -/
theorem exists_front (derives : throughRule.Derives (taken.map Token.kind)) :
    ∃ front : Front, ∀ rest, noHandler (headKind? rest) = true →
      ofTokens (taken ++ rest) = front.complete (rules rest).1
        (repeated modeStep (rules rest).2).1 := by
  obtain ⟨line, behindLine, rfl, lineDerives, behindDerives⟩ :=
    Ebnf.tokens_of_append derives
  obtain ⟨sections, body, rfl, sectionsDerive, bodyDerives⟩ :=
    Ebnf.tokens_of_cons behindDerives
  obtain ⟨declared, others, rfl, declaredDerive, behindDeclared⟩ :=
    Ebnf.tokens_of_cons bodyDerives
  obtain ⟨modes, last, rfl, modesDerive, ending⟩ := Ebnf.tokens_of_cons behindDeclared
  have lastDerives := Ebnf.derives_single.mp ending
  obtain ⟨first, others, bodyEqual, isStart⟩ :=
    Ebnf.exists_cons_of_derives bodyDerives rfl
  obtain ⟨second, more, rfl⟩ : ∃ second more, others = second :: more := by
    have long := two_le_length_of_rule lastDerives
    have lengths := congrArg List.length bodyEqual
    simp only [length_append, length_map, length_cons] at long lengths
    exact exists_cons_of_length_pos (by omega)
  have starts : ∀ kind ∈ (Ebnf.sequence [.many (.construct .rule), .many modeProduction,
      .construct .rule]).starts, excluding Construct.prequel.starts (some kind) =
        true := by decide
  obtain ⟨header, trees, settled⟩ :=
    sections_settle lineDerives sectionsDerive (starts _ isStart)
  have whole (rest : List Token) :
      line ++ (sections ++ (declared ++ (modes ++ last))) ++ rest =
      line ++ (sections ++ first :: second :: (more ++ rest)) := by
    rw [bodyEqual]
    simp only [append_assoc, cons_append]
  have onward (rest : List Token) :
      first :: second :: (more ++ rest) = declared ++ (modes ++ (last ++ rest)) := by
    rw [← cons_append, ← cons_append, ← bodyEqual]
    simp only [append_assoc]
  rcases body_settles declaredDerive modesDerive lastDerives with
    ⟨declaredTrees, body⟩ | ⟨declaredTrees, mode, found, areClean, body⟩
  · refine ⟨.declaring header trees declaredTrees, fun rest behind => ?_⟩
    rw [whole, settled, onward, body rest behind]
    rfl
  · refine ⟨.inMode header trees declaredTrees found mode areClean, fun rest behind => ?_⟩
    obtain ⟨left, rulesDone, modesDone⟩ := body rest behind
    rw [whole, settled, onward, rulesDone]
    simp only [modesDone]
    rfl

end Reading

end GrammarInspector
