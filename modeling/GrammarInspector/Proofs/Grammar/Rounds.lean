import GrammarInspector.Proofs.Grammar.Layout
import GrammarInspector.Proofs.Grammar.Progress

/-! # Reading ends

Each loop of the reader stops when a round takes nothing, and a block is refused unless it
is read from fewer tokens than the block around it. Neither ever happens: every round
takes a token or is the last one anyway, and the parenthesis in front of a block is taken
before what is inside. So the loops go on exactly as long as their rounds say, and in the
end no token is left.
-/

namespace GrammarInspector

open List

/-! ## Rounds -/

namespace Reading

open Parse

/-- How a round of a loop ends: with another one or not, and which tokens are left. -/
inductive Round where
  | again (rest : List Token)
  | last (rest : List Token)

/-- Rounds up to a last one. Each but the last takes at least one token, and what is left
are the tokens from some place on to the end. -/
inductive Runs (round : List Token → Round) : List Token → List Token → Prop
  | last {tokens rest : List Token} (stops : round tokens = .last rest)
      (inside : rest <:+ tokens) :
      Runs round tokens rest
  | again {tokens rest left : List Token} (goesOn : round tokens = .again rest)
      (inside : rest <:+ tokens)
      (shorter : rest.length < tokens.length) (further : Runs round rest left) :
        Runs round tokens left

/-- A round of a loop that goes on as long as a step applies. -/
def stepRound {α : Type} (step : List Token → Option (α × List Token))
    (tokens : List Token) : Round :=
  match step tokens with
  | some (_, rest) => .again rest
  | none => .last tokens

/-- A round of a loop that reads items, as long as the next token is one that an item
goes on with. -/
def itemRound {α : Type} (goesOn : TokenKind → Bool) (item : Parse α)
    (tokens : List Token) : Round :=
  if (headKind? tokens).any goesOn then
    match item tokens with
    | .done _ rest => .again rest
    | .failed _ rest => .last rest
  else .last tokens

/-- A round that reads a handler of a rule. The cleanup is the last of them. -/
def handlerRound (tokens : List Token) : Round :=
  match headKind? tokens with
  | some (.keyword .catchWord) =>
    match handler tokens with
    | .done _ rest => .again rest
    | .failed _ rest => .last rest
  | some (.keyword .finallyWord) => .last (cleanup tokens).rest
  | _ => .last tokens

/-- The constructs that are read one behind the other, and the tokens that
they go on with. -/
inductive Row : {α : Type} → (goesOn : TokenKind → Bool) → (item : Parse α) → Prop
  | options : Row (· != .punctuation .rightBrace) option
  | rulePrequels : Row startsPrequel (do
      match ← peek with
      | some (.opener .options) => options
      | _ => namedAction)
  | modifiers : Row isModifier (take isModifier .ruleName)
  | elements (flavour : RuleFlavour) :
      Row (startsElement flavour) (element (block flavour) flavour)

/-- The constructs that are read with marks between them. -/
inductive Listed : {α : Type} → (separator : Mark) → (item : Parse α) → Prop
  | nameParts : Listed .dot identifier
  | delegates : Listed .comma delegate
  | exceptions : Listed .comma identifier
  | alternatives (flavour : RuleFlavour) : Listed .bar (ruleAlternative flavour)
  | blockAlternatives (flavour : RuleFlavour) :
      Listed .bar (alternative (block flavour) flavour)
  | elementOptions : Listed .comma elementOption
  | setElements (flavour : RuleFlavour) : Listed .bar (setElement flavour)
  | commands : Listed .comma command

/-- The loops of the reader: the round of each, and the tokens that the loop as it runs
leaves of others. -/
inductive Loop : (round : List Token → Round) → (left : List Token → List Token) → Prop
  | sections : Loop (stepRound prequelStep) fun tokens => (collect prequelStep tokens).2
  | rules : Loop (stepRound ruleStep) fun tokens => (Reading.rules tokens).2
  | modes : Loop (stepRound modeStep) fun tokens => (repeated modeStep tokens).2
  | row {α : Type} {goesOn : TokenKind → Bool} {item : Parse α}
      (inRow : Row goesOn item) :
      Loop (itemRound goesOn item) fun tokens => (many goesOn item tokens).rest
  | list {α : Type} {separator : Mark} {item : Parse α} (listed : Listed separator item) :
      Loop (itemRound (· = .punctuation separator) (do let _ ← mark separator; item))
        fun tokens =>
        (many (· = .punctuation separator) (do let _ ← mark separator; item) tokens).rest
  | names : Loop (itemRound (·.isIdentifier) (do let _ ← identifier; mark .comma))
      fun tokens => (names tokens).rest
  | handlers : Loop handlerRound fun tokens => (handlers tokens).rest

end Reading

namespace Parse

open Reading

variable {α β : Type} {parse twin item : Parse α} {post : List Token → α → Prop}

/-! ## Constructs that take a token -/

/-- Whether a construct takes at least one token. -/
def TakesToken (parse : Parse α) : Prop := parse.Ensures fun taken _ => taken ≠ []

theorem takesToken_of_reads {expression : Ebnf} {inBody : Bool} {trees : α → List Tree}
    (ensures : parse.Ensures fun taken value =>
      Reads expression inBody taken (trees value))
    (solid : expression.nullable = false) : parse.TakesToken := by
  refine ensures.mono fun taken value reads => ?_
  obtain ⟨token, others, rfl, _⟩ := Ebnf.exists_cons_of_derives reads.derives solid
  exact cons_ne_nil _ _

theorem takesToken_of_single {parse : Parse Token} {holds : Token → Prop}
    (ensures : parse.Ensures fun taken token => taken = [token] ∧ holds token) :
    parse.TakesToken :=
  ensures.mono fun _ token found => found.1 ▸ cons_ne_nil token []

theorem TakesToken.bind {next : α → Parse β} {result : List Token → β → Prop}
    (takes : parse.TakesToken) (behind : ∀ value, (next value).Ensures result) :
    (parse >>= next).TakesToken :=
  Ensures.bind takes fun value _ nonempty =>
    (behind value).mono fun _ _ _ empty => nonempty (append_eq_nil_iff.mp empty).1

/-! ## Loops of items -/

section Items

variable {goesOn : TokenKind → Bool} {token : Token} {rest left : List Token} {value : α}
  {expected : Expected}

theorem itemRound_of_done (goes : goesOn token.kind = true)
    (outcome : item (token :: rest) = .done value left) :
    itemRound goesOn item (token :: rest) = .again left := by
  simp [itemRound, headKind?, goes, outcome]

theorem itemRound_of_failed (goes : goesOn token.kind = true)
    (outcome : item (token :: rest) = .failed expected left) :
    itemRound goesOn item (token :: rest) = .last left := by
  simp [itemRound, headKind?, goes, outcome]

theorem itemRound_of_not (stops : ¬ goesOn token.kind = true) :
    itemRound goesOn item (token :: rest) = .last (token :: rest) := by
  simp [itemRound, headKind?, stops]

end Items

theorem TakesToken.length_lt (takes : item.TakesToken) {tokens rest : List Token}
    {value : α} (outcome : item tokens = .done value rest) :
    rest.length < tokens.length := by
  obtain ⟨taken, rfl, nonempty⟩ := takes.done outcome
  have positive := length_pos_iff.mpr nonempty
  rw [length_append]
  omega

theorem runs_many {goesOn : TokenKind → Bool} (takes : item.TakesToken)
    (tokens : List Token) :
    Runs (itemRound goesOn item) tokens (many goesOn item tokens).rest := by
  have again {token : Token} {rest left last : List Token} {value : α}
      (goes : goesOn token.kind = true)
      (outcome : item (token :: rest) = .done value left)
        (further : Runs (itemRound goesOn item) left last) :
      Runs (itemRound goesOn item) (token :: rest) last := by
    obtain ⟨taken, equal, _⟩ := takes.done outcome
    exact .again (itemRound_of_done goes outcome) (equal ▸ suffix_append ..)
      (takes.length_lt outcome) further
  fun_induction many goesOn item tokens with
  | case1 => exact .last rfl suffix_rfl
  | case2 token rest goes expected left outcome =>
    exact .last (itemRound_of_failed goes outcome) (takes.failed outcome)
  | case3 token rest goes value left outcome shorter values last recursion induction =>
    rw [recursion] at induction
    exact again goes outcome induction
  | case4 token rest goes value left outcome shorter expected last recursion induction =>
    rw [recursion] at induction
    exact again goes outcome induction
  | case5 token rest goes value left outcome longer =>
    -- The guard would end the loop here, but the item took a token.
    exact absurd (Nat.le_of_lt_succ (takes.length_lt outcome)) longer
  | case6 token rest stops => exact .last (itemRound_of_not stops) suffix_rfl

theorem runs_names (tokens : List Token) :
    Runs (itemRound (·.isIdentifier) (do let _ ← identifier; mark .comma)) tokens
      (names tokens).rest := by
  have behindName {name : Token} {rest : List Token}
      (isName : name.kind.isIdentifier = true) :
      (do let _ ← identifier; mark .comma : Parse Token) (name :: rest) =
        mark .comma rest := by
    rw [bind_apply, identifier, take_cons isName]
  change Runs _ tokens (namesFrom tokens).2
  fun_induction namesFrom tokens with
  | case1 => exact .last rfl suffix_rfl
  | case2 name isName =>
    exact .last (itemRound_of_failed isName (behindName isName)) (suffix_cons ..)
  | case3 name isName comma rest isComma names left recursion induction =>
    rw [recursion] at induction
    have outcome : mark .comma (comma :: rest) = .done comma rest := expect_cons isComma
    refine .again (itemRound_of_done isName ((behindName isName).trans outcome))
      ?_ ?_ induction
    · exact suffix_append [name, comma] rest
    · exact Nat.lt_add_of_pos_right Nat.two_pos
  | case4 name isName comma rest notComma =>
    -- A name without a comma behind it is the last one.
    have outcome : mark .comma (comma :: rest) = .failed (.token (.punctuation .comma))
        (comma :: rest) := by
      rw [mark, expect, take, if_neg (by simpa using notComma)]
    exact .last (itemRound_of_failed isName ((behindName isName).trans outcome))
      (suffix_cons ..)
  | case5 name rest notName => exact .last (itemRound_of_not notName) suffix_rfl

theorem runs_handlers (tokens : List Token) :
    Runs handlerRound tokens (handlers tokens).rest := by
  fun_induction handlers tokens with
  | case1 tokens isCatch expected rest outcome =>
    refine .last ?_ (ensures_handler.failed outcome)
    simp [handlerRound, isCatch, outcome]
  | case2 tokens isCatch tree rest outcome shorter following induction =>
    obtain ⟨taken, equal, _⟩ := ensures_handler.done outcome
    refine .again ?_ (equal ▸ suffix_append ..) shorter induction
    simp [handlerRound, isCatch, outcome]
  | case3 tokens isCatch tree rest outcome longer =>
      exact absurd (length_lt_of_handler outcome) longer
  | case4 tokens isFinally expected rest outcome =>
    refine .last ?_ (ensures_cleanup.failed outcome)
    simp [handlerRound, isFinally, outcome, Outcome.rest]
  | case5 tokens isFinally tree rest outcome =>
    obtain ⟨taken, equal, _⟩ := ensures_cleanup.done outcome
    refine .last ?_ (equal ▸ suffix_append ..)
    simp [handlerRound, isFinally, outcome, Outcome.rest]
  | case6 tokens noCatch noFinally =>
    refine .last ?_ suffix_rfl
    rw [handlerRound]
    split
    · next isCatch => exact absurd isCatch noCatch
    · next isFinally => exact absurd isFinally noFinally
    · rfl

/-! ## Blocks -/

/-- Whether two ways to read give the same wherever fewer than `bound` tokens are left. -/
def AgreeBelow (bound : Nat) (parse twin : Parse α) : Prop :=
  ∀ tokens, tokens.length < bound → parse tokens = twin tokens

namespace AgreeBelow

variable {bound : Nat}

protected theorem rfl : AgreeBelow bound parse parse := fun _ _ => rfl

protected theorem bind {next further : α → Parse β} (agree : AgreeBelow bound parse twin)
    (ensures : parse.Ensures post)
    (behind : ∀ value, AgreeBelow bound (next value) (further value)) :
    AgreeBelow bound (parse >>= next) (twin >>= further) := by
  intro tokens fits
  rw [bind_apply, bind_apply, ← agree tokens fits]
  cases outcome : parse tokens with
  | failed expected rest => rfl
  | done value rest =>
    obtain ⟨taken, equal, _⟩ := ensures.done outcome
    rw [equal, length_append] at fits
    exact behind value rest (by omega)

/-- What is done with the value does not matter. -/
protected theorem returns {next : α → Parse β} (agree : AgreeBelow bound parse twin) :
    AgreeBelow bound (parse >>= next) (twin >>= next) := by
  intro tokens fits
  rw [bind_apply, bind_apply, agree tokens fits]

protected theorem peek {next further : Option TokenKind → Parse β}
    (behind : ∀ kind, AgreeBelow bound (next kind) (further kind)) :
    AgreeBelow bound (peek >>= next) (peek >>= further) :=
  fun tokens fits => behind (headKind? tokens) tokens fits

protected theorem peekSecond {next further : Option TokenKind → Parse β}
    (behind : ∀ kind, AgreeBelow bound (next kind) (further kind)) :
    AgreeBelow bound (peekSecond >>= next) (peekSecond >>= further) :=
  fun tokens fits => behind (headKind? tokens.tail) tokens fits

protected theorem many {goesOn : TokenKind → Bool} (agree : AgreeBelow bound parse twin) :
    AgreeBelow bound (many goesOn parse) (many goesOn twin) := by
  intro tokens fits
  fun_induction Parse.many goesOn parse tokens with
  | case1 => rw [Parse.many]
  | case2 token rest goes expected left outcome =>
    rw [Parse.many, if_pos goes, ← agree _ fits, outcome]
  | case3 token rest goes value left outcome shorter values last recursion induction =>
    rw [Parse.many, if_pos goes, ← agree _ fits, outcome]
    dsimp only
    rw [if_pos shorter, ← induction (by grind), recursion]
  | case4 token rest goes value left outcome shorter expected last recursion induction =>
    rw [Parse.many, if_pos goes, ← agree _ fits, outcome]
    dsimp only
    rw [if_pos shorter, ← induction (by grind), recursion]
  | case5 token rest goes value left outcome longer =>
    rw [Parse.many, if_pos goes, ← agree _ fits, outcome]
    dsimp only
    rw [if_neg longer]
  | case6 token rest stops => rw [Parse.many, if_neg stops]

protected theorem separated {separator : Mark} (agree : AgreeBelow bound parse twin)
    (ensures : parse.Ensures post) :
    AgreeBelow bound (separated separator parse) (separated separator twin) := by
  have behind : AgreeBelow bound (do let _ ← mark separator; parse)
      (do let _ ← mark separator; twin) :=
    AgreeBelow.rfl.bind (Ensures.mark _) fun _ => agree
  exact agree.bind ensures fun first => behind.many.returns

end AgreeBelow

variable {inner other : Parse Tree} {flavour : RuleFlavour} {bound : Nat}

theorem labelled_agrees (agree : AgreeBelow bound inner other) :
    AgreeBelow bound (labelled inner flavour) (labelled other flavour) := by
  refine AgreeBelow.rfl.bind Ensures.identifier fun label => ?_
  refine AgreeBelow.rfl.bind (Ensures.take _ _) fun operator => ?_
  have target : AgreeBelow bound (labelTarget inner flavour)
      (labelTarget other flavour) := by
    refine .peek fun kind => ?_
    split
    · exact agree
    · exact .rfl
  exact target.returns

theorem element_agrees (agree : AgreeBelow bound inner other) :
    AgreeBelow bound (element inner flavour) (element other flavour) := by
  refine .peek fun first => .peekSecond fun second => ?_
  split
  · exact (labelled_agrees agree).returns
  · split
    · exact agree.returns
    · exact .rfl
    · exact .rfl
    · exact .rfl

theorem alternative_agrees (agree : AgreeBelow bound inner other) :
    AgreeBelow bound (alternative inner flavour) (alternative other flavour) := by
  have elements : AgreeBelow bound (many (startsElement flavour) (element inner flavour))
      (many (startsElement flavour) (element other flavour)) :=
        (element_agrees agree).many
  exact AgreeBelow.rfl.bind ensures_alternativeOptions? fun options => elements.returns

theorem blockOf_agrees (agree : AgreeBelow bound inner other)
    (ensures : ReadsAs inner (.construct (.block flavour)) true) {tokens : List Token}
    (fits : tokens.length ≤ bound) :
    blockOf inner flavour tokens = blockOf other flavour tokens := by
  rw [blockOf, blockOf, bind_apply, bind_apply]
  cases outcome : mark .leftParen tokens with
  | failed expected rest => rfl
  | done opening rest =>
    -- The parenthesis is taken, so inside fewer tokens are left.
    have shorter := (takesToken_of_single (Ensures.mark _)).length_lt outcome
    refine AgreeBelow.rfl.bind ensures_blockPrequels (fun sections => ?_) rest
      (Nat.lt_of_lt_of_le shorter fits)
    exact ((alternative_agrees agree).separated (ensures_alternative ensures)).returns

/-- The blocks inside a block are read like any other. -/
theorem block_eq_blockOf (flavour : RuleFlavour) :
    block flavour = blockOf (block flavour) flavour := by
  funext tokens
  rw [block_eq]
  exact blockOf_agrees (fun inner fewer => if_pos fewer) (ensures_blockWithin _)
    (Nat.le_refl _)

end Parse

namespace Reading

open Parse

/-! ## Every loop -/

theorem runs_repeated {α : Type} {step : List Token → Option (α × List Token)}
    (takes : ∀ tokens value rest, step tokens = some (value, rest) → rest <:+ tokens ∧
      rest.length < tokens.length)
    (tokens : List Token) : Runs (stepRound step) tokens (repeated step tokens).2 := by
  fun_induction repeated step tokens with
  | case1 tokens stops =>
    refine .last ?_ suffix_rfl
    rw [stepRound, stops]
  | case2 tokens value rest applies shorter values left further induction =>
    rw [further] at induction
    refine .again ?_ (takes _ _ _ applies).1 shorter induction
    rw [stepRound, applies]
  | case3 tokens value rest applies longer => exact absurd (takes _ _ _ applies).2 longer

/-- Every loop of the reader goes on as long as its rounds say. -/
theorem Loop.runs {round : List Token → Round} {left : List Token → List Token}
    (loop : Loop round left) (tokens : List Token) : Runs round tokens (left tokens) := by
  cases loop with
  | sections =>
    refine runs_repeated (fun tokens harvest rest applies => ?_) tokens
    obtain ⟨taken, equal, _⟩ := prequelStep_spec applies
    exact ⟨⟨taken, equal.symm⟩, (advances_prequelStep applies).shorter⟩
  | rules =>
    refine runs_repeated (fun tokens harvest rest applies => ?_) tokens
    obtain ⟨taken, equal, _⟩ := ruleStep_spec applies
    exact ⟨⟨taken, equal.symm⟩, length_lt_of_ruleStep applies⟩
  | modes =>
    refine runs_repeated (fun tokens found rest applies => ?_) tokens
    obtain ⟨_, rfl, _⟩ := modeStep_spends applies
    obtain ⟨taken, equal, _⟩ := rules_spec (behindModeLine tokens)
    exact ⟨List.IsSuffix.trans ⟨taken, equal.symm⟩ (behindModeLine_suffix tokens),
      length_lt_of_modeStep applies⟩
  | row inRow =>
    refine runs_many ?_ tokens
    cases inRow with
    | options => exact takesToken_of_reads ensures_option rfl
    | rulePrequels => exact takesToken_of_reads (ensures_rulePrequel true) rfl
    | modifiers => exact takesToken_of_single (Ensures.take _ _)
    | elements flavour => exact takesToken_of_reads (ensures_element ensures_block) rfl
  | list listed =>
    have takes {separator : Mark} := takesToken_of_single (Ensures.mark separator)
    refine runs_many ?_ tokens
    cases listed with
    | nameParts | exceptions => exact takes.bind fun _ => Ensures.identifier
    | delegates => exact takes.bind fun _ => ensures_delegate
    | alternatives flavour =>
      cases flavour with
      | lexer => exact takes.bind fun _ => ensures_lexerAlternative
      | parser => exact takes.bind fun _ => ensures_parserAlternative
    | blockAlternatives flavour =>
      exact takes.bind fun _ => ensures_alternative ensures_block
    | elementOptions => exact takes.bind fun _ => ensures_elementOption
    | setElements flavour => exact takes.bind fun _ => ensures_setElement
    | commands => exact takes.bind fun _ => ensures_command true
  | names => exact runs_names tokens
  | handlers => exact runs_handlers tokens

/-! ## The end -/

/-- The tokens that are left when the modes of a grammar are read. -/
def left (tokens : List Token) : List Token :=
  (repeated modeStep (rules (behindSections tokens)).2).2

theorem Runs.exists_last {round : List Token → Round} {tokens rest : List Token}
    (runs : Runs round tokens rest) : ∃ here, round here = .last rest := by
  induction runs with
  | last stops _ => exact ⟨_, stops⟩
  | again _ _ _ _ induction => exact induction

/-- The modes are over only where no token is left. -/
theorem left_eq_nil (tokens : List Token) : left tokens = [] := by
  obtain ⟨here, stops⟩ := (Loop.modes.runs (rules (behindSections tokens)).2).exists_last
  rw [stepRound] at stops
  split at stops
  · cases stops
  · next noStep =>
    cases Round.last.inj stops
    exact modeStep_eq_none_iff.mp noStep

end Reading

namespace Grammar

/-- The tokens that a source is read from, with the end mark behind them. -/
def markedTokens (source : String) : List Token :=
  (Token.ofText source.toList).filter fun token => token.isSignificant ||
    token.kind = .eof

theorem exists_markedTokens (source : String) :
    ∃ last, markedTokens source = significantTokens source ++ [last] ∧ last.kind = .eof ∧
      ∀ token ∈ significantTokens source, token.kind ≠ .eof := by
  obtain ⟨tokens, last, equal, isEnd, inner⟩ := Token.ofText_ends source.toList
  have unmarked : significantTokens source = tokens.filter (·.isSignificant) := by
    simp [significantTokens, equal, filter_append, Token.isSignificant, isEnd]
  have same : tokens.filter (fun token => token.isSignificant || token.kind = .eof) =
      tokens.filter (·.isSignificant) :=
    filter_congr fun token member => by simp [inner token member]
  refine ⟨last, ?_, isEnd, fun token member => ?_⟩
  · rw [markedTokens, equal, filter_append, same, unmarked, filter_singleton, isEnd]
    simp
  · rw [unmarked] at member
    exact inner token (mem_filter.mp member).1

/-- Wherever some of the tokens are left there is a next token, which is the end mark if
none is left. -/
theorem exists_next {source : String} {here : List Token}
    (inside : here <:+ significantTokens source) :
    ∃ token, (markedTokens source)[(significantTokens source).length - here.length]? =
      some token ∧
      token.kind = (headKind? here).getD .eof := by
  obtain ⟨last, marked, isEnd, _⟩ := exists_markedTokens source
  obtain ⟨taken, equal⟩ := inside
  have place : (significantTokens source).length - here.length = taken.length := by
    rw [← equal, length_append]
    omega
  rw [place, marked, ← equal, append_assoc, getElem?_append_right (Nat.le_refl _),
    Nat.sub_self]
  cases here with
  | nil => exact ⟨last, rfl, isEnd⟩
  | cons token rest => exact ⟨token, rfl, rfl⟩

/-- Every source is read to its end. Of its tokens the last one is the end mark, and the
only one of its kind, so there is a next token wherever the reader can stand. The header
is read inside the tokens. A round of any loop of the reader takes at least one token or
is the last one, with what is left always inside the tokens; the blocks inside a block are
read from what is left, as any other. When the reader is done no token but the end mark is
left, and there are no more errors of constructs than tokens, the end mark included. -/
theorem reading_ends (source : String) :
    (∃ last, markedTokens source = significantTokens source ++ [last] ∧ last.kind = .eof ∧
      ∀ token ∈ significantTokens source, token.kind ≠ .eof) ∧
    (∀ here, here <:+ significantTokens source → ∃ token,
      (markedTokens source)[(significantTokens source).length - here.length]? =
        some token ∧ token.kind = (headKind? here).getD .eof) ∧
    (Reading.behindHeader (Reading.header (significantTokens source)).2).2 <:+
      significantTokens source ∧
    (∀ round left, Reading.Loop round left →
      ∀ tokens, Reading.Runs round tokens (left tokens)) ∧
    (∀ flavour, Parse.block flavour = Parse.blockOf (Parse.block flavour) flavour) ∧
    Reading.left (significantTokens source) = [] ∧
    (ofSource source).parserErrors.length ≤ (markedTokens source).length := by
  obtain ⟨last, marked, isEnd, noneBefore⟩ := exists_markedTokens source
  obtain ⟨line, equal, _⟩ := Reading.header_spec (significantTokens source)
  refine ⟨⟨last, marked, isEnd, noneBefore⟩, fun _ => exists_next, ⟨line, equal.symm⟩,
    fun _ _ loop => loop.runs, Parse.block_eq_blockOf, Reading.left_eq_nil _, ?_⟩
  rw [(parserErrors_perm source).length_eq, length_map, marked, length_append,
    length_singleton]
  exact Reading.length_faults_ofTokens _

end Grammar

end GrammarInspector
