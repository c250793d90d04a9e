import GrammarInspector.Proofs.Grammar.Ensures
import GrammarInspector.Proofs.Grammar.Starts

/-! # What reading accepts

`Parse.Accepts bound parse expression follow` says that `parse` is done with every phrase
of an expression, and stops right behind it, wherever the kind of the next token satisfies
`follow`. Reading is greedy, so most constructs exclude some kinds of tokens behind them.
Blocks are read from a bounded number of tokens, which `bound` keeps track of.
-/

namespace GrammarInspector

open List

variable {expression : Ebnf} {taken : List Token}

theorem headKind?_cons (token : Token) (rest : List Token) :
    headKind? (token :: rest) = some token.kind :=
  rfl

theorem headKind?_append (taken rest : List Token) :
    headKind? (taken ++ rest) = (taken.map Token.kind).head?.or (headKind? rest) := by
  cases taken <;> rfl

theorem Ebnf.tokens_of_append {parts others : List Ebnf}
    (derives : (sequence (parts ++ others)).Derives (taken.map Token.kind)) :
    ∃ front back, taken = front ++ back ∧
      (sequence parts).Derives (front.map Token.kind) ∧
      (sequence others).Derives (back.map Token.kind) := by
  obtain ⟨first, rest, equal, left, right⟩ := derives_append.mp derives
  obtain ⟨front, back, rfl, rfl, rfl⟩ := map_eq_append_iff.mp equal
  exact ⟨front, back, rfl, left, right⟩

/-- The tokens of the first part of a sequence and those of the rest. -/
theorem Ebnf.tokens_of_cons {parts : List Ebnf}
    (derives : (sequence (expression :: parts)).Derives (taken.map Token.kind)) :
    ∃ front back, taken = front ++ back ∧ expression.Derives (front.map Token.kind) ∧
      (sequence parts).Derives (back.map Token.kind) := by
  obtain ⟨first, rest, equal, left, right⟩ := derives_cons.mp derives
  obtain ⟨front, back, rfl, rfl, rfl⟩ := map_eq_append_iff.mp equal
  exact ⟨front, back, rfl, left, right⟩

theorem Ebnf.tokens_of_terminal {kind : TokenKind} {parts : List Ebnf}
    (derives : (sequence (.terminal kind :: parts)).Derives (taken.map Token.kind)) :
    ∃ token others, taken = token :: others ∧ token.kind = kind ∧
      (sequence parts).Derives (others.map Token.kind) := by
  obtain ⟨head, tail, equal, left, right⟩ := derives_cons.mp derives
  rw [derives_terminal.mp left] at equal
  obtain ⟨token, others, rfl, isKind, rfl⟩ := map_eq_cons_iff.mp equal
  exact ⟨token, others, rfl, isKind, right⟩

/-- The next kind in front of a phrase satisfies what all beginnings satisfy. -/
theorem Ebnf.next_of_derives {rest : List Token} {follow : Option TokenKind → Bool}
    (allowed : Option TokenKind → Bool)
    (derives : expression.Derives (taken.map Token.kind))
    (behind : follow (headKind? rest) = true)
    (begins : ∀ kind ∈ expression.starts, allowed (some kind) = true)
    (ends : expression.nullable = true → ∀ next, follow next = true →
      allowed next = true) :
    allowed (headKind? (taken ++ rest)) = true := by
  rw [headKind?_append]
  rcases starts_of_derives derives with
    ⟨isEmpty, isNullable⟩ | ⟨kind, others, equal, isStart⟩
  · rw [isEmpty]
    exact ends isNullable _ behind
  · rw [equal]
    exact begins kind isStart

theorem Ebnf.exists_cons_of_derives (derives : expression.Derives (taken.map Token.kind))
    (solid : expression.nullable = false) :
    ∃ token rest, taken = token :: rest ∧ token.kind ∈ expression.starts := by
  rcases starts_of_derives derives with ⟨_, isNullable⟩ | ⟨kind, others, equal, isStart⟩
  · rw [solid] at isNullable
    cases isNullable
  · cases taken with
    | nil => cases equal
    | cons token rest =>
      cases equal
      exact ⟨token, rest, rfl, isStart⟩

/-- Induction on the phrases that the tokens of a repetition are made of. -/
theorem Ebnf.many_induction {body : Ebnf}
    {motive : ∀ tokens : List Token, (many body).Derives (tokens.map Token.kind) → Prop}
    {tokens : List Token} (derives : (many body).Derives (tokens.map Token.kind))
    (nothing : motive [] .none)
    (phrase : ∀ front back (head : body.Derives (front.map Token.kind))
      (tail : (many body).Derives (back.map Token.kind)), motive back tail →
    motive (front ++ back) (map_append ▸ .more head tail)) :
    motive tokens derives := by
  have general {expression : Ebnf} {kinds : List TokenKind}
      (derivation : expression.Derives kinds) :
      ∀ tokens derives, many body = expression → tokens.map Token.kind = kinds →
      motive tokens derives := by
    induction derivation with
    | none =>
      intro tokens derives _ equal
      cases map_eq_nil_iff.mp equal
      exact nothing
    | more head tail _ induction =>
      rintro tokens derives ⟨⟩ equal
      obtain ⟨front, back, rfl, rfl, rfl⟩ := map_eq_append_iff.mp equal
      exact phrase front back head tail (induction back tail rfl rfl)
    | _ => exact fun _ _ whole => nomatch whole
  exact general derives tokens derives rfl rfl

namespace Parse

variable {α β : Type} {bound : Nat} {kind : TokenKind} {next : Option TokenKind}
  {wanted unwanted : List TokenKind}

/-- No condition on what comes next. -/
def anything : Option TokenKind → Bool := fun _ => true

/-- What comes next, if anything, is not of certain kinds. -/
def excluding (kinds : List TokenKind) : Option TokenKind → Bool
  | none => true
  | some kind => decide (kind ∉ kinds)

/-- What comes next is of one of certain kinds. -/
def among (kinds : List TokenKind) : Option TokenKind → Bool
  | none => false
  | some kind => decide (kind ∈ kinds)

theorem eq_of_among (holds : among [kind] next = true) : next = some kind := by
  cases next with
  | none => cases holds
  | some other => exact congrArg some (mem_singleton.mp (of_decide_eq_true holds))

theorem among_mono {more : List TokenKind} (holds : among wanted next = true)
    (included : ∀ kind ∈ wanted, kind ∈ more) : among more next = true := by
  cases next with
  | none => cases holds
  | some kind => exact decide_eq_true (included kind (of_decide_eq_true holds))

theorem excluding_of_among (holds : among wanted next = true)
    (apart : ∀ kind ∈ wanted, kind ∉ unwanted) : excluding unwanted next = true := by
  cases next with
  | none => rfl
  | some kind => exact decide_eq_true (apart kind (of_decide_eq_true holds))

theorem excluding_mono {fewer : List TokenKind} (holds : excluding unwanted next = true)
    (included : ∀ kind ∈ fewer, kind ∈ unwanted) : excluding fewer next = true := by
  cases next with
  | none => rfl
  | some kind =>
    exact decide_eq_true fun member => of_decide_eq_true holds (included kind member)

theorem ne_of_excluding (holds : excluding unwanted next = true)
    (member : kind ∈ unwanted) : next ≠ some kind := by
  rintro rfl
  exact of_decide_eq_true holds member

/-- Reading takes every phrase of an expression, exactly, in front of the right tokens. -/
def Accepts (bound : Nat) (parse : Parse α) (expression : Ebnf)
    (follow : Option TokenKind → Bool) : Prop :=
  ∀ taken rest, (taken ++ rest).length < bound →
    expression.Derives (taken.map Token.kind) →
    follow (headKind? rest) = true → ∃ value, parse (taken ++ rest) = .done value rest

/-! ## Single tokens -/

theorem eat_cons {token : Token} {rest : List Token} (equal : token.kind = kind) :
    eat kind (token :: rest) = .done (some token) rest := by
  rw [eat, if_pos equal]

theorem eat_of_ne {tokens : List Token} (different : headKind? tokens ≠ some kind) :
    eat kind tokens = .done none tokens := by
  cases tokens with
  | nil => rfl
  | cons token rest =>
    have other : token.kind ≠ kind := fun equal => different (congrArg some equal)
    rw [eat, if_neg other]

theorem exists_of_map_kind {taken : List Token} (equal : taken.map Token.kind = [kind]) :
    ∃ token, taken = [token] ∧ token.kind = kind := by
  cases taken with
  | nil => cases equal
  | cons token rest =>
    cases rest with
    | nil => exact ⟨token, rfl, (List.cons.inj equal).1⟩
    | cons other more => cases (List.cons.inj equal).2

namespace Accepts

variable {parse : Parse α} {next : α → Parse β} {part : Ebnf}
  {parts alternatives inner : List Ebnf} {follow allowed : Option TokenKind → Bool}
  {accepts goesOn : TokenKind → Bool} {separator : Mark}

theorem expect : Accepts bound (Parse.expect kind) (.terminal kind) anything := by
  intro taken rest _ derives _
  obtain ⟨token, rfl, isKind⟩ := exists_of_map_kind (Ebnf.derives_terminal.mp derives)
  exact ⟨token, expect_cons isKind⟩

theorem mark {mark : Mark} : Accepts bound (Parse.mark mark) (.mark mark) anything :=
  expect

theorem take {expected : Expected}
    (single : ∀ kinds, expression.Derives kinds → ∃ kind, kinds = [kind] ∧
      accepts kind = true) :
    Accepts bound (Parse.take accepts expected) expression anything := by
  intro taken rest _ derives _
  obtain ⟨kind, equal, accepted⟩ := single _ derives
  obtain ⟨token, rfl, rfl⟩ := exists_of_map_kind equal
  exact ⟨token, take_cons accepted⟩

theorem single_of_oneOf (kinds : List TokenKind)
    (accepted : ∀ kind ∈ kinds, accepts kind = true) :
    ∀ phrase, (Ebnf.oneOf (kinds.map .terminal)).Derives phrase →
    ∃ kind, phrase = [kind] ∧ accepts kind = true := by
  intro phrase derives
  obtain ⟨chosen, member, body⟩ := Ebnf.derives_oneOf.mp derives
  obtain ⟨kind, isMember, rfl⟩ := mem_map.mp member
  exact ⟨kind, Ebnf.derives_terminal.mp body, accepted kind isMember⟩

theorem single_of_identifier (phrase : List TokenKind)
    (derives : Ebnf.identifier.Derives phrase) :
    ∃ kind, phrase = [kind] ∧ kind.isIdentifier = true :=
  single_of_oneOf [.tokenRef, .ruleRef] (by decide) phrase derives

theorem identifier : Accepts bound Parse.identifier .identifier anything :=
  take single_of_identifier

/-! ## Sequences -/

theorem pure {value : α} :
    Accepts bound (Pure.pure value : Parse α) (.sequence []) follow := by
  intro taken rest _ derives _
  rw [map_eq_nil_iff.mp (Ebnf.derives_nil.mp derives)]
  exact ⟨value, rfl⟩

theorem weaken {stronger : Option TokenKind → Bool}
    (accepts : Accepts bound parse expression follow)
    (implied : ∀ next, stronger next = true → follow next = true) :
    Accepts bound parse expression stronger := by
  intro taken rest short derives behind
  exact accepts taken rest short derives (implied _ behind)

theorem always (accepts : Accepts bound parse expression anything) :
    Accepts bound parse expression follow :=
  accepts.weaken fun _ _ => rfl

theorem of_derives {wider : Ebnf} (accepts : Accepts bound parse wider follow)
    (included : ∀ kinds, expression.Derives kinds → wider.Derives kinds) :
    Accepts bound parse expression follow := by
  intro taken rest short derives behind
  exact accepts taken rest short (included _ derives) behind

theorem construct {construct : Construct}
    (accepts : Accepts bound parse construct.production follow) :
    Accepts bound parse (.construct construct) follow :=
  accepts.of_derives fun _ => Ebnf.derives_construct.mp

theorem last (only : Accepts bound parse part follow) :
    Accepts bound parse (.sequence [part]) follow :=
  only.of_derives fun _ => Ebnf.derives_single.mp

theorem only (single : Accepts bound parse (.sequence [part]) follow) :
    Accepts bound parse part follow :=
  single.of_derives fun _ => Ebnf.derives_single.mpr

/-- The first parts of a sequence may be read as one. -/
theorem ungroup
    (accepts : Accepts bound parse
      (.sequence (.sequence [part, expression] :: parts)) follow) :
    Accepts bound parse (.sequence (part :: expression :: parts)) follow :=
  accepts.of_derives fun kinds derives => by
    have joined : Ebnf.Derives (.sequence ([part, expression] ++ parts)) kinds := derives
    obtain ⟨first, rest, rfl, left, right⟩ := Ebnf.derives_append.mp joined
    exact .cons left right

theorem returns {make : α → β} (accepts : Accepts bound parse expression follow) :
    Accepts bound (do return make (← parse)) expression follow := by
  intro taken rest short derives behind
  obtain ⟨value, outcome⟩ := accepts taken rest short derives behind
  refine ⟨make value, ?_⟩
  rw [bind_apply, outcome]
  rfl

/-- A part and then the rest of a sequence. What is read second may use what holds of the
value read first. -/
theorem bindWith {post : List Token → α → Prop} (first : Accepts bound parse part allowed)
    (known : ∀ front rest value, parse (front ++ rest) = .done value rest →
      post front value)
    (second : ∀ value front, post front value → part.Derives (front.map Token.kind) →
      Accepts bound (next value) (.sequence parts) follow)
    (begins : ∀ kind ∈ (Ebnf.sequence parts).starts, allowed (some kind) = true)
    (ends : (Ebnf.sequence parts).nullable = true → ∀ next, follow next = true →
      allowed next = true) :
    Accepts bound (parse >>= next) (.sequence (part :: parts)) follow := by
  intro taken rest short derives behind
  obtain ⟨front, back, rfl, headDerives, tailDerives⟩ := Ebnf.tokens_of_cons derives
  rw [append_assoc] at short ⊢
  have middle := Ebnf.next_of_derives allowed tailDerives behind begins ends
  obtain ⟨value, outcome⟩ := first front (back ++ rest) short headDerives middle
  have shorter : (back ++ rest).length < bound := by
    rw [length_append] at short
    omega
  obtain ⟨result, done⟩ :=
    second value front (known _ _ _ outcome) headDerives back rest shorter
    tailDerives behind
  refine ⟨result, ?_⟩
  rw [bind_apply, outcome]
  exact done

theorem bind (first : Accepts bound parse part allowed)
    (second : ∀ value, Accepts bound (next value) (.sequence parts) follow)
    (begins : ∀ kind ∈ (Ebnf.sequence parts).starts, allowed (some kind) = true)
    (ends : (Ebnf.sequence parts).nullable = true → ∀ next, follow next = true →
      allowed next = true) :
    Accepts bound (parse >>= next) (.sequence (part :: parts)) follow :=
  first.bindWith (fun _ _ _ _ => trivial) (fun value _ (_ : True) _ =>
    second value) begins ends

/-- A part that does not depend on what follows it. -/
theorem andThen (first : Accepts bound parse part anything)
    (second : ∀ value, Accepts bound (next value) (.sequence parts) follow) :
    Accepts bound (parse >>= next) (.sequence (part :: parts)) follow :=
  first.bind second (fun _ _ => rfl) fun _ _ _ => rfl

/-- A first token, which leaves one token less for what stands behind it. -/
theorem expectThen {next : Token → Parse β}
    (second : ∀ token, Accepts bound (next token) (.sequence parts) follow) :
    Accepts (bound + 1) (Parse.expect kind >>= next)
      (.sequence (.terminal kind :: parts)) follow := by
  intro taken rest short derives behind
  obtain ⟨token, others, rfl, isKind, tailDerives⟩ := Ebnf.tokens_of_terminal derives
  rw [bind_apply, cons_append, expect_cons isKind]
  exact second token others rest (Nat.lt_of_succ_lt_succ short) tailDerives behind

/-! ## Choices -/

/-- Where each kind that a part begins with leads to reading that part. -/
structure Chosen (bound : Nat) (next : Option TokenKind → Parse β) (part : Ebnf)
    (follow : Option TokenKind → Bool) : Prop where
  solid : part.nullable = false
  accepts : ∀ kind ∈ part.starts, Accepts bound (next (some kind)) part follow

theorem Chosen.one {next : Option TokenKind → Parse β} (solid : part.nullable = false)
    (starts : part.starts = [kind])
    (accepts : Accepts bound (next (some kind)) part follow) :
    Chosen bound next part follow := by
  refine ⟨solid, ?_⟩
  rw [starts, forall_mem_singleton]
  exact accepts

theorem Chosen.two {next : Option TokenKind → Parse β} {first second : TokenKind}
    (solid : part.nullable = false) (starts : part.starts = [first, second])
    (firstAccepts : Accepts bound (next (some first)) part follow)
    (secondAccepts : Accepts bound (next (some second)) part follow) :
    Chosen bound next part follow := by
  refine ⟨solid, ?_⟩
  rw [starts, forall_mem_cons, forall_mem_singleton]
  exact ⟨firstAccepts, secondAccepts⟩

theorem peek {next : Option TokenKind → Parse β}
    (each : ∀ part ∈ alternatives, Chosen bound next part follow) :
    Accepts bound (Parse.peek >>= next) (.oneOf alternatives) follow := by
  intro taken rest short derives behind
  obtain ⟨part, member, body⟩ := Ebnf.derives_oneOf.mp derives
  obtain ⟨solid, accepts⟩ := each part member
  obtain ⟨token, others, rfl, isStart⟩ := Ebnf.exists_cons_of_derives body solid
  exact accepts token.kind isStart _ _ short body behind

/-- Where the first two kinds of a phrase lead to reading it. -/
def ChosenByTwo (bound : Nat) (next : Option TokenKind → Option TokenKind → Parse β)
    (part : Ebnf) (follow : Option TokenKind → Bool) : Prop :=
  ∀ taken rest, (taken ++ rest).length < bound → part.Derives (taken.map Token.kind) →
    follow (headKind? rest) = true →
      ∃ value, next (headKind? (taken ++ rest)) (headKind? (taken ++ rest).tail)
        (taken ++ rest) = .done value rest

theorem ChosenByTwo.single {next : Option TokenKind → Option TokenKind → Parse β}
    (allowed : Option TokenKind → Bool)
    (ends : ∀ next, follow next = true → allowed next = true)
    (accepts : ∀ second, allowed second = true →
      Accepts bound (next (some kind) second) (.terminal kind) follow) :
    ChosenByTwo bound next (.terminal kind) follow := by
  intro taken rest short derives behind
  obtain ⟨token, rfl, rfl⟩ := exists_of_map_kind (Ebnf.derives_terminal.mp derives)
  exact accepts _ (ends _ behind) [token] rest short derives behind

theorem ChosenByTwo.sequence {next : Option TokenKind → Option TokenKind → Parse β}
    (allowed : Option TokenKind → Bool)
    (begins : ∀ kind ∈ (Ebnf.sequence parts).starts, allowed (some kind) = true)
    (ends : (Ebnf.sequence parts).nullable = true → ∀ next, follow next = true →
      allowed next = true)
    (accepts : ∀ second, allowed second = true →
      Accepts bound (next (some kind) second)
      (.sequence (.terminal kind :: parts)) follow) :
    ChosenByTwo bound next (.sequence (.terminal kind :: parts)) follow := by
  intro taken rest short derives behind
  obtain ⟨token, others, rfl, rfl, tailDerives⟩ := Ebnf.tokens_of_terminal derives
  have second := Ebnf.next_of_derives allowed tailDerives behind begins ends
  exact accepts _ second _ rest short derives behind

theorem peekTwo {next : Option TokenKind → Option TokenKind → Parse β}
    (each : ∀ part ∈ alternatives, ChosenByTwo bound next part follow) :
    Accepts bound (do next (← Parse.peek) (← Parse.peekSecond))
      (.oneOf alternatives) follow := by
  intro taken rest short derives behind
  obtain ⟨part, member, body⟩ := Ebnf.derives_oneOf.mp derives
  exact each part member taken rest short body behind

/-- Looking ahead where nothing more is to be taken. -/
theorem peekNothing {next : Option TokenKind → Parse β}
    (absent : ∀ kind, follow kind = true →
      Accepts bound (next kind) (.sequence []) follow) :
    Accepts bound (Parse.peek >>= next) (.sequence []) follow := by
  intro taken rest short derives behind
  rw [map_eq_nil_iff.mp (Ebnf.derives_nil.mp derives)] at short ⊢
  exact absent _ behind [] rest short .nil behind

/-- Something that may be left out, where the next kind tells whether it is there. -/
theorem peekOptional {next : Option TokenKind → Parse β}
    (present : Chosen bound next part follow)
    (absent : ∀ kind, follow kind = true →
      Accepts bound (next kind) (.sequence []) follow) :
    Accepts bound (Parse.peek >>= next) (.optional part) follow := by
  intro taken rest short derives behind
  rcases Ebnf.derives_optional.mp derives with isEmpty | body
  · exact peekNothing absent taken rest short (Ebnf.derives_nil.mpr isEmpty) behind
  · obtain ⟨token, others, rfl, isStart⟩ := Ebnf.exists_cons_of_derives body present.solid
    exact present.accepts token.kind isStart _ _ short body behind

/-- Something behind a token of one kind that may be left out together with it. -/
theorem eat {next : Option Token → Parse β}
    (present : ∀ token, Accepts bound (next (some token))
      (.sequence (inner ++ parts)) follow)
    (absent : Accepts bound (next none) (.sequence parts) follow)
    (begins : kind ∉ (Ebnf.sequence parts).starts)
    (ends : (Ebnf.sequence parts).nullable = true → ∀ next, follow next = true →
      next ≠ some kind) :
    Accepts bound (Parse.eat kind >>= next)
      (.sequence (.optional (.sequence (.terminal kind :: inner)) :: parts)) follow := by
  intro taken rest short derives behind
  obtain ⟨front, back, rfl, headDerives, tailDerives⟩ := Ebnf.tokens_of_cons derives
  rw [append_assoc] at short ⊢
  rcases Ebnf.derives_optional.mp headDerives with isEmpty | body
  · rw [map_eq_nil_iff.mp isEmpty, nil_append] at short ⊢
    have other : (headKind? (back ++ rest) != some kind) = true := by
      refine Ebnf.next_of_derives (· != some kind) tailDerives behind ?_ ?_
      · intro first isStart
        rw [bne_iff_ne]
        rintro ⟨⟩
        exact begins isStart
      · intro isNullable following holds
        rw [bne_iff_ne]
        exact ends isNullable following holds
    rw [bind_apply, eat_of_ne (bne_iff_ne.mp other)]
    exact absent back rest short tailDerives behind
  · obtain ⟨token, others, rfl, isKind, moreDerives⟩ := Ebnf.tokens_of_terminal body
    have whole := moreDerives.append tailDerives
    rw [← map_append] at whole
    rw [bind_apply, cons_append, eat_cons isKind, ← append_assoc]
    refine present token (others ++ back) rest ?_ whole behind
    rw [cons_append, length_cons, ← append_assoc] at short
    omega

theorem eatToken {next : Option Token → Parse β}
    (present : ∀ token, Accepts bound (next (some token)) (.sequence parts) follow)
    (absent : Accepts bound (next none) (.sequence parts) follow)
    (begins : kind ∉ (Ebnf.sequence parts).starts)
    (ends : (Ebnf.sequence parts).nullable = true → ∀ next, follow next = true →
      next ≠ some kind) :
    Accepts bound (Parse.eat kind >>= next)
      (.sequence (.optional (.terminal kind) :: parts)) follow := by
  refine (eat present absent begins ends : Accepts bound (Parse.eat kind >>= next)
    (.sequence (.optional (.sequence [.terminal kind]) :: parts)) follow).of_derives ?_
  intro kinds derives
  obtain ⟨head, tail, rfl, headDerives, tailDerives⟩ := Ebnf.derives_cons.mp derives
  refine .cons (Ebnf.derives_optional.mpr ?_) tailDerives
  exact (Ebnf.derives_optional.mp headDerives).imp_right Ebnf.derives_single.mpr

/-- Two ways to go on, one of which begins with a token that the other
cannot begin with. -/
theorem eatOr {next : Option Token → Parse β}
    (present : ∀ token, Accepts bound (next (some token)) (.sequence inner) follow)
    (other : Accepts bound (next none) part follow) (solid : part.nullable = false)
    (apart : kind ∉ part.starts) :
    Accepts bound (Parse.eat kind >>= next)
      (.oneOf [part, .sequence (.terminal kind :: inner)]) follow := by
  intro taken rest short derives behind
  obtain ⟨chosen, member, body⟩ := Ebnf.derives_oneOf.mp derives
  simp only [mem_cons, not_mem_nil, or_false] at member
  rcases member with rfl | rfl
  · obtain ⟨token, others, rfl, isStart⟩ := Ebnf.exists_cons_of_derives body solid
    have different : headKind? (token :: others ++ rest) ≠ some kind := by
      rintro ⟨⟩
      exact apart isStart
    rw [bind_apply, eat_of_ne different]
    exact other _ rest short body behind
  · obtain ⟨token, others, rfl, isKind, moreDerives⟩ := Ebnf.tokens_of_terminal body
    rw [bind_apply, cons_append, eat_cons isKind]
    refine present token others rest ?_ moreDerives behind
    rw [cons_append, length_cons] at short
    omega

/-! ## Repetitions -/

theorem many_of_stops {tokens : List Token}
    (stops : ∀ kind, headKind? tokens = some kind → goesOn kind = false) :
    Parse.many goesOn parse tokens = .done [] tokens := by
  cases tokens with
  | nil => rw [Parse.many]
  | cons token rest =>
    rw [Parse.many, stops token.kind rfl]
    rfl

/-- A repetition of items, each of which tells by its first token that it is there. -/
theorem many (item : Accepts bound parse expression allowed)
    (solid : expression.nullable = false)
    (begins : ∀ kind ∈ expression.starts, goesOn kind = true ∧ allowed (some kind) = true)
    (ends : ∀ next, follow next = true → allowed next = true ∧ ∀ kind, next = some kind →
      goesOn kind = false) :
    Accepts bound (Parse.many goesOn parse) (.many expression) follow := by
  intro taken rest short derives behind
  induction derives using Ebnf.many_induction with
  | nothing => exact ⟨[], many_of_stops (ends _ behind).2⟩
  | phrase front back head tail induction =>
    obtain ⟨token, others, rfl, isStart⟩ := Ebnf.exists_cons_of_derives head solid
    rw [append_assoc] at short ⊢
    have middle : allowed (headKind? (back ++ rest)) = true :=
      Ebnf.next_of_derives allowed tail behind (fun kind start => (begins kind start).2)
        fun _ next holds => (ends next holds).1
    obtain ⟨value, outcome⟩ := item _ _ short head middle
    have shorter : (back ++ rest).length < bound := by
      rw [length_append] at short
      omega
    obtain ⟨values, further⟩ := induction shorter
    refine ⟨value :: values, ?_⟩
    have guard : (back ++ rest).length ≤ (others ++ (back ++ rest)).length :=
      (suffix_append ..).length_le
    rw [cons_append] at outcome ⊢
    rw [Parse.many, if_pos (begins _ isStart).1, outcome]
    simp only [if_pos guard, further]

theorem separated (item : Accepts bound parse expression allowed)
    (continues : allowed (some (.punctuation separator)) = true)
    (ends : ∀ next, follow next = true → allowed next = true ∧
      next ≠ some (.punctuation separator)) :
    Accepts bound (Parse.separated separator parse)
      (.separated separator expression) follow := by
  have behind : Accepts bound (do let _ ← Parse.mark separator; parse)
      (.sequence [.mark separator, expression]) allowed :=
    mark.andThen fun _ => item.last
  refine item.bind (fun first => ((behind.many rfl ?_ ?_).returns).last) ?_ ?_
  · intro kind isStart
    obtain rfl : kind = .punctuation separator := mem_singleton.mp isStart
    exact ⟨by simp, continues⟩
  · intro next holds
    refine ⟨(ends next holds).1, fun kind equal => ?_⟩
    subst equal
    simpa using (ends _ holds).2
  · intro kind isStart
    obtain rfl : kind = .punctuation separator := mem_singleton.mp isStart
    exact continues
  · exact fun _ next holds => (ends next holds).1

/-- Items of which none goes on with the kinds that stand behind all of them. -/
theorem separatedBefore {unwanted kinds : List TokenKind}
    (item : Accepts bound parse expression (excluding unwanted))
    (continues : .punctuation separator ∉ unwanted)
    (apart : ∀ kind ∈ kinds, kind ∉ .punctuation separator :: unwanted) :
    Accepts bound (Parse.separated separator parse) (.separated separator expression)
      (among kinds) := by
  refine item.separated (decide_eq_true continues) fun next holds => ?_
  have excluded := excluding_of_among holds apart
  refine ⟨excluding_mono excluded fun kind member => mem_cons_of_mem _ member, ?_⟩
  exact ne_of_excluding excluded (mem_cons_self ..)

end Accepts

end Parse

end GrammarInspector
