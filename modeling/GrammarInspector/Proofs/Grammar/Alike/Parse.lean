import GrammarInspector.Proofs.Grammar.Accepts
import GrammarInspector.Proofs.Tree.Alike

/-! # Reading side by side

Two lists of tokens begin with tokens that are alike and then go on in different ways. As
long as reading stays in the part they share it does the same on both: it looks at kinds
and texts only, never at places, and beyond the tokens it takes it looks at the kinds of
at most two more.

`Parse.Parallel` says so of a construct. It also limits the tokens that a construct takes,
whether it is done or fails, so that one can tell that nothing but options takes a
semicolon.
-/

namespace GrammarInspector

open List

/-- The tokens that are left in the end. -/
def Outcome.rest {α : Type} : Outcome α → List Token
  | .done _ rest => rest
  | .failed _ rest => rest

/-- How two lists of tokens are read side by side. -/
structure Lockstep where
  pairing : Span.Pairing
  /-- What is behind the shared part of the first list. -/
  tail : List Token
  /-- What is behind the shared part of the second list. -/
  other : List Token
  heads : headKind? tail = headKind? other
  seconds : headKind? tail = some (.punctuation .semicolon) ∨
      headKind? tail.tail = headKind? other.tail

/-- Which tokens constructs may take. -/
structure Allowance where
  may : List Token → Prop
  nothing : may []
  append : ∀ {taken more : List Token}, may taken → may more → may (taken ++ more)
  single : ∀ {token : Token}, token.kind ≠ .punctuation .semicolon → may [token]
  options : ∀ {opening : Token} {behind : List Token}, opening.kind = .opener .options →
      may (opening :: behind)

/-- Constructs may take any tokens. -/
def Allowance.all : Allowance where
  may _ := True
  nothing := trivial
  append _ _ := trivial
  single _ := trivial
  options _ := trivial

namespace Lockstep

variable {pace : Lockstep} {tokens others : List Token}

/-- Two lists that are alike up to the ends given. -/
inductive Alike (pace : Lockstep) : List Token → List Token → Prop
  | ends : Alike pace pace.tail pace.other
  | cons {token first : Token} {tokens others : List Token}
      (alike : token.Alike pace.pairing first)
      (further : Alike pace tokens others) :
        Alike pace (token :: tokens) (first :: others)

namespace Alike

theorem headKind?_eq (alike : pace.Alike tokens others) :
    headKind? tokens = headKind? others := by
  cases alike with
  | ends => exact pace.heads
  | cons first _ => exact congrArg some first.kind

theorem length_eq (alike : pace.Alike tokens others) :
    tokens.length + pace.other.length = others.length + pace.tail.length := by
  induction alike with
  | ends => exact Nat.add_comm ..
  | cons _ _ induction =>
    rw [length_cons, length_cons]
    omega

/-- Where one list ends the other does too. -/
theorem eq_nil (alike : pace.Alike [] others) : others = [] := by
  have none := alike.headKind?_eq
  cases others with
  | nil => rfl
  | cons first rest => cases none

/-- Both lists have a first token, and the tokens are alike unless the shared
part is empty. -/
theorem exists_cons {token : Token} {rest : List Token}
    (alike : pace.Alike (token :: rest) others) :
    ∃ first further, others = first :: further ∧ token.kind = first.kind ∧
      (pace.tail.length ≤ rest.length → token.Alike pace.pairing first ∧
        pace.Alike rest further) := by
  have kinds := alike.headKind?_eq
  cases others with
  | nil => cases kinds
  | cons first further =>
    refine ⟨first, further, rfl, Option.some.inj kinds, fun shared => ?_⟩
    generalize whole : token :: rest = tokens at alike
    generalize twin : first :: further = others at alike
    cases alike with
    | ends =>
      rw [← whole, length_cons] at shared
      exact absurd shared (Nat.not_succ_le_self _)
    | cons alike behind =>
      cases whole
      cases twin
      exact ⟨alike, behind⟩

end Alike

end Lockstep

/-- Two outcomes that go together. -/
inductive Outcome.Parallel {α : Type} (pace : Lockstep) (fits : α → α → Prop) :
    Outcome α → Outcome α → Prop
  | done {value result : α} {rest others : List Token} (holds : fits value result)
      (left : pace.Alike rest others) :
        Parallel pace fits (.done value rest) (.done result others)
  | failed {expected : Expected} {rest others : List Token}
      (left : pace.Alike rest others) :
      Parallel pace fits (.failed expected rest) (.failed expected others)

namespace Parse

variable {α β : Type} {pace : Lockstep} {limits : Allowance} {condition : Prop}
  {fits : α → α → Prop}
  {final : β → β → Prop} {parse twin : Parse α} {next further : α → Parse β}

/-- Two ways to read that go side by side under some condition. Whatever the condition,
the first takes tokens that it may take. -/
structure Parallel (pace : Lockstep) (limits : Allowance) (condition : Prop)
    (fits : α → α → Prop) (parse twin : Parse α) : Prop where
  takes : ∀ tokens, ∃ taken, tokens = taken ++ (parse tokens).rest ∧ limits.may taken
  agrees : condition → ∀ {tokens others : List Token}, pace.Alike tokens others →
    pace.tail.length ≤ (parse tokens).rest.length →
    (parse tokens).Parallel pace fits (twin others)

/-- Reads alike trees from tokens that are alike. -/
abbrev Steady (pace : Lockstep) (limits : Allowance) (condition : Prop)
    (parse : Parse Tree) : Prop :=
  Parallel pace limits condition (Tree.Alike pace.pairing) parse parse

/-- Reads alike lists of trees from tokens that are alike. -/
abbrev SteadyList (pace : Lockstep) (limits : Allowance) (condition : Prop)
    (parse : Parse (List Tree)) : Prop :=
  Parallel pace limits condition (Forall₂ (Tree.Alike pace.pairing)) parse parse

namespace Parallel

variable {tokens others rest left : List Token} {expected : Expected}
  {kind : TokenKind} {token : Token} {goesOn : TokenKind → Bool} {bound : Nat}

theorem rest_length_le (parallel : Parallel pace limits condition fits parse twin)
    (tokens : List Token) : (parse tokens).rest.length ≤ tokens.length := by
  obtain ⟨taken, equal, _⟩ := parallel.takes tokens
  have lengths := congrArg List.length equal
  rw [length_append] at lengths
  omega

theorem exists_done (parallel : Parallel pace limits condition fits parse twin)
    (given : condition) {value : α} (alike : pace.Alike tokens others)
    (outcome : parse tokens = .done value rest)
      (shared : pace.tail.length ≤ rest.length) :
    ∃ result left, twin others = .done result left ∧ fits value result ∧
    pace.Alike rest left := by
  have same := parallel.agrees given alike
  rw [outcome] at same
  generalize twin others = ending at same ⊢
  cases same shared with
  | done holds restAlike => exact ⟨_, _, rfl, holds, restAlike⟩

theorem exists_failed (parallel : Parallel pace limits condition fits parse twin)
    (given : condition) (alike : pace.Alike tokens others)
    (outcome : parse tokens = .failed expected rest)
    (shared : pace.tail.length ≤ rest.length) :
    ∃ left, twin others = .failed expected left ∧ pace.Alike rest left := by
  have same := parallel.agrees given alike
  rw [outcome] at same
  generalize twin others = ending at same ⊢
  cases same shared with
  | failed restAlike => exact ⟨_, rfl, restAlike⟩

/-! ## Sequences -/

theorem pure {value result : α} (holds : condition → fits value result) :
    Parallel pace limits condition fits (pure value) (pure result) where
  takes _ := ⟨[], rfl, limits.nothing⟩
  agrees given _ _ alike _ := .done (holds given) alike

theorem fail : Parallel pace limits condition fits (fail expected)
    (Parse.fail expected) where
  takes _ := ⟨[], rfl, limits.nothing⟩
  agrees _ _ _ alike _ := .failed alike

theorem bind (first : Parallel pace limits condition fits parse twin)
    (second : ∀ value result,
      Parallel pace limits (condition ∧ fits value result) final (next value)
        (further result)) :
    Parallel pace limits condition final (parse >>= next) (twin >>= further) where
  takes tokens := by
    obtain ⟨taken, equal, mayTake⟩ := first.takes tokens
    rw [bind_apply]
    cases outcome : parse tokens with
    | failed expected rest =>
      rw [outcome] at equal
      exact ⟨taken, equal, mayTake⟩
    | done value rest =>
      rw [outcome] at equal
      obtain ⟨more, left, mayGoOn⟩ := (second value value).takes rest
      refine ⟨taken ++ more, ?_, limits.append mayTake mayGoOn⟩
      rw [append_assoc, ← left]
      exact equal
  agrees given := by
    intro tokens others alike shared
    have agree := first.agrees given alike
    rw [bind_apply] at shared ⊢
    rw [bind_apply]
    cases outcome : parse tokens with
    | failed expected rest =>
      rw [outcome] at agree shared
      have same := agree shared
      generalize twin others = ending at same ⊢
      cases same with
      | failed left => exact .failed left
    | done value rest =>
      rw [outcome] at agree shared
      have same := agree (Nat.le_trans shared ((second value value).rest_length_le rest))
      generalize twin others = ending at same ⊢
      cases same with
      | done holds left => exact (second value _).agrees ⟨given, holds⟩ left shared

theorem under {stronger : Prop}
    (parallel : Parallel pace limits condition fits parse twin)
    (implies : stronger → condition) : Parallel pace limits stronger fits parse twin where
  takes := parallel.takes
  agrees given := parallel.agrees (implies given)

/-! ## Single tokens -/

theorem peek {next further : Option TokenKind → Parse β}
    (each : ∀ kind, Parallel pace limits condition final (next kind) (further kind)) :
    Parallel pace limits condition final (Parse.peek >>= next)
      (Parse.peek >>= further) where
  takes tokens := (each (headKind? tokens)).takes tokens
  agrees given := by
    intro tokens others alike shared
    change (next (headKind? tokens) tokens).Parallel pace final
      (further (headKind? others) others)
    rw [← alike.headKind?_eq]
    exact (each _).agrees given alike shared

/-- In front of a semicolon it does not matter what stands behind it. -/
theorem peekBoth {next further : Option TokenKind → Option TokenKind → Parse β}
    (each : ∀ first second, Parallel pace limits condition final (next first second)
      (further first second))
    (ending : ∀ second last, further (some (.punctuation .semicolon)) second =
      further (some (.punctuation .semicolon)) last) :
    Parallel pace limits condition final
      (do let first ← Parse.peek; let second ← peekSecond; next first second)
      (do let first ← Parse.peek; let second ← peekSecond; further first second) where
  takes tokens := (each (headKind? tokens) (headKind? tokens.tail)).takes tokens
  agrees given := by
    intro tokens others alike shared
    change (next (headKind? tokens) (headKind? tokens.tail) tokens).Parallel pace final
      (further (headKind? others) (headKind? others.tail) others)
    have same : further (headKind? others) (headKind? others.tail) =
        further (headKind? tokens) (headKind? tokens.tail) := by
      rw [← alike.headKind?_eq]
      cases alike with
      | ends =>
        rcases pace.seconds with atEnd | second
        · rw [atEnd]
          exact ending ..
        · rw [second]
      | cons _ further => rw [tail_cons, tail_cons, further.headKind?_eq]
    rw [same]
    exact (each _ _).agrees given alike shared

theorem take {accepts : TokenKind → Bool}
    (allowed : ∀ token : Token, accepts token.kind = true → limits.may [token]) :
    Parallel pace limits condition (Token.Alike pace.pairing) (take accepts expected)
      (Parse.take accepts expected) where
  takes tokens := by
    cases tokens with
    | nil => exact ⟨[], rfl, limits.nothing⟩
    | cons token rest =>
      rw [Parse.take]
      split
      · next accepted => exact ⟨[token], rfl, allowed token accepted⟩
      · exact ⟨[], rfl, limits.nothing⟩
  agrees _ := by
    intro tokens others alike shared
    cases tokens with
    | nil =>
      obtain rfl := alike.eq_nil
      exact .failed alike
    | cons token rest =>
      obtain ⟨first, further, rfl, kinds, behind⟩ := alike.exists_cons
      rw [Parse.take] at shared ⊢
      rw [Parse.take, ← kinds]
      split
      · next accepted =>
        rw [if_pos accepted] at shared
        obtain ⟨tokenAlike, restAlike⟩ := behind shared
        exact .done tokenAlike restAlike
      · exact .failed alike

/-- Where no semicolon is accepted, each token may be taken. -/
theorem takeOther {accepts : TokenKind → Bool}
    (excludes : accepts (.punctuation .semicolon) = false) :
    Parallel pace limits condition (Token.Alike pace.pairing)
      (Parse.take accepts expected) (Parse.take accepts expected) := by
  refine take fun token accepted => limits.single fun isSemicolon => ?_
  rw [isSemicolon, excludes] at accepted
  cases accepted

theorem expect (plain : kind ≠ .punctuation .semicolon) :
    Parallel pace limits condition (Token.Alike pace.pairing) (expect kind)
      (Parse.expect kind) :=
  takeOther (decide_eq_false plain.symm)

theorem mark {shown : Mark} (plain : shown ≠ .semicolon) :
    Parallel pace limits condition (Token.Alike pace.pairing) (mark shown)
      (Parse.mark shown) :=
  expect fun equal => plain (TokenKind.punctuation.inj equal)

/-- Where any token may be taken, so may a semicolon. -/
theorem semicolon (every : ∀ token, limits.may [token]) :
    Parallel pace limits condition (Token.Alike pace.pairing) (Parse.mark .semicolon)
      (Parse.mark .semicolon) := by
  unfold Parse.mark Parse.expect
  exact take fun token _ => every token

theorem identifier :
    Parallel pace limits condition (Token.Alike pace.pairing) identifier
      Parse.identifier :=
  takeOther rfl

theorem eat_bind {next : Option Token → Parse β} :
    (Parse.eat kind >>= next) (token :: rest) =
      if token.kind = kind then next (some token) rest
      else next none (token :: rest) := by
  rw [bind_apply]
  by_cases isKind : token.kind = kind
  · rw [eat_cons isKind, if_pos isKind]
  · have other : headKind? (token :: rest) ≠ some kind :=
      fun equal => isKind (Option.some.inj equal)
    rw [eat_of_ne other, if_neg isKind]

theorem eat {next further : Option Token → Parse β}
    (plain : kind ≠ .punctuation .semicolon)
    (found : ∀ token first,
      Parallel pace limits (condition ∧ token.Alike pace.pairing first) final
      (next (some token)) (further (some first)))
    (missing : Parallel pace limits condition final (next none) (further none)) :
    Parallel pace limits condition final (Parse.eat kind >>= next)
      (Parse.eat kind >>= further) where
  takes tokens := by
    cases tokens with
    | nil => exact missing.takes []
    | cons token rest =>
      rw [eat_bind]
      split
      · next isKind =>
        obtain ⟨taken, equal, mayTake⟩ := (found token token).takes rest
        refine ⟨token :: taken, congrArg (token :: ·) equal, ?_⟩
        exact limits.append (limits.single (isKind ▸ plain)) mayTake
      · exact missing.takes (token :: rest)
  agrees given := by
    intro tokens others alike shared
    cases tokens with
    | nil =>
      obtain rfl := alike.eq_nil
      exact missing.agrees given alike shared
    | cons token rest =>
      obtain ⟨first, behind, rfl, kinds, shares⟩ := alike.exists_cons
      rw [eat_bind] at shared ⊢
      rw [eat_bind, ← kinds]
      split
      · next isKind =>
        rw [if_pos isKind] at shared
        obtain ⟨tokenAlike, restAlike⟩ :=
          shares (Nat.le_trans shared ((found token token).rest_length_le rest))
        exact (found token first).agrees ⟨given, tokenAlike⟩ restAlike shared
      · next other =>
        rw [if_neg other] at shared
        exact missing.agrees given alike shared

/-! ## Repetition -/

/-- The rounds of a repetition behind the first one, which left at most `bound` tokens if
it took one. -/
def laterRounds (goesOn : TokenKind → Bool) (parse : Parse α) (bound : Nat) (value : α) :
    Parse (List α) := fun left =>
  if left.length ≤ bound then (do return value :: (← Parse.many goesOn parse) :
      Parse (List α)) left
  else .done [value] left

theorem many_of_goesOn (goes : goesOn token.kind = true) :
    Parse.many goesOn parse (token :: rest) =
      (parse >>= laterRounds goesOn parse rest.length) (token :: rest) := by
  rw [Parse.many, if_pos goes, bind_apply]
  cases parse (token :: rest) with
  | failed expected left => rfl
  | done value left =>
    dsimp only [laterRounds]
    rw [bind_apply]
    cases Parse.many goesOn parse left with
    | done values last => rfl
    | failed expected last => rfl

theorem many_of_stops (stops : goesOn token.kind = false) :
    Parse.many goesOn parse (token :: rest) = .done [] (token :: rest) := by
  rw [Parse.many, if_neg (by rw [stops]; exact Bool.false_ne_true)]

/-- What the later rounds take is what the repetition takes from what is left. -/
theorem takes_laterRounds
    (rounds : left.length ≤ bound →
      ∃ taken, left = taken ++ (Parse.many goesOn parse left).rest ∧ limits.may taken)
    (value : α) :
    ∃ taken, left = taken ++ (laterRounds goesOn parse bound value left).rest ∧
    limits.may taken := by
  rw [laterRounds]
  split
  · next shorter =>
    obtain ⟨taken, equal, mayTake⟩ := rounds shorter
    refine ⟨taken, ?_, mayTake⟩
    rw [bind_apply]
    cases repetition : Parse.many goesOn parse left with
    | done values last => rwa [repetition] at equal
    | failed expected last => rwa [repetition] at equal
  · exact ⟨[], rfl, limits.nothing⟩

theorem takes_many
    (step : ∀ tokens, ∃ taken, tokens = taken ++ (parse tokens).rest ∧ limits.may taken)
    (tokens : List Token) :
    ∃ taken, tokens = taken ++ (Parse.many goesOn parse tokens).rest ∧
    limits.may taken := by
  induction count : tokens.length using Nat.strongRecOn generalizing tokens with
  | ind count induction =>
    cases tokens with
    | nil => exact ⟨[], by rw [Parse.many]; rfl, limits.nothing⟩
    | cons token rest =>
      cases goes : goesOn token.kind with
      | false => exact ⟨[], by rw [many_of_stops goes]; rfl, limits.nothing⟩
      | true =>
        obtain ⟨taken, equal, mayTake⟩ := step (token :: rest)
        rw [many_of_goesOn goes, bind_apply]
        cases item : parse (token :: rest) with
        | failed expected left =>
          rw [item] at equal
          exact ⟨taken, equal, mayTake⟩
        | done value left =>
          rw [item] at equal
          have later : ∃ taken, left = taken ++
              (laterRounds goesOn parse rest.length value left).rest ∧
              limits.may taken := by
            refine takes_laterRounds (fun shorter =>
              induction left.length ?_ left rfl) value
            rw [← count]
            exact Nat.lt_succ_of_le shorter
          obtain ⟨more, further, mayGoOn⟩ := later
          refine ⟨taken ++ more, ?_, limits.append mayTake mayGoOn⟩
          rw [append_assoc, ← further]
          exact equal

theorem length_laterRounds_le
    (step : ∀ tokens, ∃ taken, tokens = taken ++ (parse tokens).rest ∧ limits.may taken)
    (value : α) (left : List Token) :
    (laterRounds goesOn parse bound value left).rest.length ≤ left.length := by
  have later : ∃ taken, left = taken ++ (laterRounds goesOn parse bound value left).rest ∧
      limits.may taken := takes_laterRounds (fun _ => takes_many step left) value
  obtain ⟨taken, equal, _⟩ := later
  have lengths := congrArg List.length equal
  rw [length_append] at lengths
  omega

/-- The later rounds go side by side if the repetition does, from what is left on. -/
theorem laterRounds_parallel {limit : Nat} {value result : α} (holds : fits value result)
    (alike : pace.Alike left others)
    (bounds : bound + pace.other.length = limit + pace.tail.length)
    (rounds : left.length ≤ bound →
      pace.tail.length ≤ (Parse.many goesOn parse left).rest.length →
    (Parse.many goesOn parse left).Parallel pace (Forall₂ fits)
      (Parse.many goesOn twin others))
    (shared : pace.tail.length ≤
      (laterRounds goesOn parse bound value left).rest.length) :
    (laterRounds goesOn parse bound value left).Parallel pace (Forall₂ fits)
      (laterRounds goesOn twin limit result others) := by
  have lengths := alike.length_eq
  rw [laterRounds] at shared ⊢
  rw [laterRounds]
  by_cases shorter : left.length ≤ bound
  · have shorterToo : others.length ≤ limit := by omega
    rw [if_pos shorter, bind_apply] at shared ⊢
    rw [if_pos shorterToo, bind_apply]
    have same := rounds shorter
    cases repetition : Parse.many goesOn parse left with
    | done values last =>
      rw [repetition] at same shared
      generalize Parse.many goesOn twin others = ending at same ⊢
      cases same shared with
      | done all lastAlike => exact .done (.cons holds all) lastAlike
    | failed expected last =>
      rw [repetition] at same shared
      generalize Parse.many goesOn twin others = ending at same ⊢
      cases same shared with
      | failed lastAlike => exact .failed lastAlike
  · have longer : ¬ others.length ≤ limit := by omega
    rw [if_neg shorter, if_neg longer]
    exact .done (.cons holds .nil) alike

theorem many (step : Parallel pace limits condition fits parse twin) :
    Parallel pace limits condition (Forall₂ fits) (many goesOn parse)
      (Parse.many goesOn twin) where
  takes := takes_many step.takes
  agrees given := by
    intro tokens others alike shared
    induction count : tokens.length using Nat.strongRecOn generalizing tokens others with
    | ind count induction =>
      cases tokens with
      | nil =>
        obtain rfl := alike.eq_nil
        rw [Parse.many, Parse.many]
        exact .done .nil alike
      | cons token rest =>
        have lengths := alike.length_eq
        have same := step.agrees given alike
        obtain ⟨first, behind, rfl, kinds, _⟩ := alike.exists_cons
        cases goes : goesOn token.kind with
        | false =>
          rw [many_of_stops goes, many_of_stops (kinds ▸ goes)]
          exact .done .nil alike
        | true =>
          rw [many_of_goesOn goes, bind_apply] at shared ⊢
          rw [many_of_goesOn (kinds ▸ goes), bind_apply]
          cases item : parse (token :: rest) with
          | failed expected left =>
            rw [item] at same shared
            generalize twin (first :: behind) = ending at same ⊢
            cases same shared with
            | failed leftAlike => exact .failed leftAlike
          | done value left =>
            rw [item] at same shared
            have fewer : (laterRounds goesOn parse rest.length value left).rest.length ≤
                left.length := length_laterRounds_le step.takes value left
            generalize twin (first :: behind) = ending at same ⊢
            cases same (Nat.le_trans shared fewer) with
            | done holds leftAlike =>
              refine laterRounds_parallel holds leftAlike ?_ ?_ shared
              · rw [length_cons, length_cons] at lengths
                omega
              · intro shorter sharedLater
                refine induction left.length ?_ leftAlike sharedLater rfl
                rw [← count]
                exact Nat.lt_succ_of_le shorter

theorem separated {separator : Mark} (plain : separator ≠ .semicolon)
    (step : Parallel pace limits condition fits parse twin) :
    Parallel pace limits condition (Forall₂ fits) (separated separator parse)
      (Parse.separated separator twin) := by
  refine step.bind fun first second => ?_
  have item : Parallel pace limits (condition ∧ fits first second) fits
      (do let _ ← Parse.mark separator; parse) (do let _ ← Parse.mark separator; twin) :=
    (mark plain).bind fun _ _ => step.under fun given => given.1.1
  exact item.many.bind fun _ _ => pure fun given => .cons given.1.2 given.2

end Parallel

end Parse

end GrammarInspector
