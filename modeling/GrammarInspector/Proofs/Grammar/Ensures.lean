import GrammarInspector.Proofs.Grammar.Productions
import GrammarInspector.Proofs.Tree.Built

/-! # What reading ensures

`Parse.Ensures parse post` says that whenever `parse` is done, it took some tokens from
the front of its input and left the rest, and that `post` holds of the tokens it took and
the value it gave; and that it fails in front of some of its own tokens. `Reads` is the
statement that is made about each construct: the tokens taken can be derived from its
production, and the trees given were built from them.
-/

namespace GrammarInspector

open List

namespace TokenKind

/-- The kinds of tokens whose text is shown by a node. -/
def isText : TokenKind → Bool
  | .tokenRef | .ruleRef | .literal | .int | .action | .predicate | .bracket => true
  | _ => false

theorem isIdentifier_iff {kind : TokenKind} :
    kind.isIdentifier = true ↔ kind = .tokenRef ∨ kind = .ruleRef := by
  cases kind <;> simp [isIdentifier]

end TokenKind

/-- Some tokens are a phrase of an expression, and trees were built from them without
passing over a token whose text matters. -/
structure Reads (expression : Ebnf) (inBody : Bool) (taken : List Token)
    (trees : List Tree) : Prop where
  derives : expression.Derives (taken.map Token.kind)
  built : Tree.Built (fun token => token.kind.isText = false) inBody taken trees

namespace Reads

variable {expression part : Ebnf} {parts alternatives : List Ebnf} {inBody : Bool}
  {taken first rest : List Token} {trees others : List Tree} {token : Token}
  {kind : NodeKind} {shown : TokenKind}

theorem nil : Reads (.sequence []) inBody [] [] := ⟨.nil, .nothing⟩

theorem cons (head : Reads part inBody first trees)
    (tail : Reads (.sequence parts) inBody rest others) :
    Reads (.sequence (part :: parts)) inBody (first ++ rest) (trees ++ others) where
  derives := by
    rw [map_append]
    exact .cons head.derives tail.derives
  built := head.built.append tail.built

/-- A part behind which no more trees come. -/
theorem ended (head : Reads part inBody first trees)
    (tail : Reads (.sequence parts) inBody rest []) :
    Reads (.sequence (part :: parts)) inBody (first ++ rest) trees := by
  have both := head.cons tail
  rwa [append_nil] at both

theorem last (only : Reads part inBody taken trees) :
    Reads (.sequence [part]) inBody taken trees := by
  have both := only.cons nil
  rwa [append_nil, append_nil] at both

theorem append (left : Reads (.sequence parts) inBody first trees)
    (right : Reads (.sequence alternatives) inBody rest others) :
    Reads (.sequence (parts ++ alternatives)) inBody (first ++ rest)
      (trees ++ others) where
  derives := by
    rw [map_append]
    exact left.derives.append right.derives
  built := left.built.append right.built

theorem none : Reads (.many expression) inBody [] [] := ⟨.none, .nothing⟩

theorem more (head : Reads expression inBody first trees)
    (tail : Reads (.many expression) inBody rest others) :
    Reads (.many expression) inBody (first ++ rest) (trees ++ others) where
  derives := by
    rw [map_append]
    exact .more head.derives tail.derives
  built := head.built.append tail.built

theorem oneOf (chosen : Reads part inBody taken trees) (member : part ∈ alternatives) :
    Reads (.oneOf alternatives) inBody taken trees :=
  ⟨.oneOf member chosen.derives, chosen.built⟩

theorem construct {construct : Construct}
    (body : Reads construct.production inBody taken trees) :
    Reads (.construct construct) inBody taken trees :=
  ⟨.construct body.derives, body.built⟩

theorem present (body : Reads expression inBody taken trees) :
    Reads (.optional expression) inBody taken trees :=
  body.oneOf (mem_cons_self ..)

theorem absent : Reads (.optional expression) inBody [] [] :=
  nil.oneOf (mem_cons_of_mem _ (mem_singleton_self _))

theorem passed {kind : TokenKind} (equal : token.kind = kind)
    (structural : kind.isText = false) : Reads (.terminal kind) inBody [token] [] := by
  subst equal
  exact ⟨.terminal _, .passed structural⟩

theorem mark {mark : Mark} (equal : token.kind = .punctuation mark) :
    Reads (.mark mark) inBody [token] [] :=
  passed equal rfl

theorem keyword {word : Keyword} (equal : token.kind = .keyword word) :
    Reads (.keyword word) inBody [token] [] :=
  passed equal rfl

theorem leaf (equal : token.kind = shown) (fitting : kind.fits shown = true)
    (place : (!kind.isName || inBody) = true) :
    Reads (.terminal shown) inBody [token] [Tree.leaf kind token] := by
  subst equal
  exact ⟨.terminal _, .single fitting place⟩

theorem derives_identifier (isName : token.kind.isIdentifier = true) :
    Ebnf.identifier.Derives [token.kind] := by
  rcases TokenKind.isIdentifier_iff.mp isName with equal | equal
  · rw [equal]
    exact .oneOf (mem_cons_self ..) (.terminal _)
  · rw [equal]
    exact .oneOf (mem_cons_of_mem _ (mem_singleton_self _)) (.terminal _)

theorem fits_identifier (isName : token.kind.isIdentifier = true) :
    NodeKind.identifier.fits token.kind = true := by
  rcases TokenKind.isIdentifier_iff.mp isName with equal | equal
  · rw [equal]
    rfl
  · rw [equal]
    rfl

theorem identifier (isName : token.kind.isIdentifier = true) :
    Reads .identifier inBody [token] [Tree.leaf .identifier token] :=
  ⟨derives_identifier isName, .single (fits_identifier isName) rfl⟩

/-- A node that holds what the tokens were read as. -/
theorem holder {span : Option Span} (isHolder : kind.isHolder = true)
    (origin : ∀ own, span = some own → own.From taken)
    (below : Reads expression (Node.bodyBelow inBody kind) taken trees) :
    Reads expression inBody taken [Tree.builtAt kind span trees] :=
  ⟨below.derives, .holder isHolder origin below.built⟩

theorem holderAt (isHolder : kind.isHolder = true) (member : token ∈ taken)
    (below : Reads expression (Node.bodyBelow inBody kind) taken trees) :
    Reads expression inBody taken [Tree.builtAt kind token.span trees] := by
  refine below.holder isHolder ?_
  rintro own ⟨⟩
  exact Span.from_of_mem member

theorem group (isHolder : kind.isHolder = true)
    (below : Reads expression (Node.bodyBelow inBody kind) taken trees) :
    Reads expression inBody taken [Tree.group kind trees] :=
  below.holder isHolder fun own equal => by cases equal

/-- A leaf with the nodes of what stands behind its token. -/
theorem leafWith (equal : token.kind = shown) (fitting : kind.fits shown = true)
    (place : (!kind.isName || inBody) = true)
    (below : Reads (.sequence parts) inBody rest trees) :
    Reads (.sequence (.terminal shown :: parts)) inBody (token :: rest)
      [(Tree.leaf kind token).append trees] := by
  subst equal
  exact ⟨.cons (.terminal _) below.derives, .leaf fitting place below.built⟩

end Reads

namespace Parse

variable {α β : Type} {token : Token} {rest : List Token} {goesOn : TokenKind → Bool}
  {separator : Mark} {item : Parse Tree}

theorem take_cons {accepts : TokenKind → Bool} {expected : Expected}
    (accepted : accepts token.kind = true) :
    take accepts expected (token :: rest) = .done token rest := by
  rw [take, if_pos accepted]

theorem expect_cons {kind : TokenKind} (equal : token.kind = kind) :
    expect kind (token :: rest) = .done token rest :=
  take_cons (decide_eq_true equal)

/-- What holds of the tokens taken and the value given whenever reading is done. Where it
fails, some of its tokens are left. -/
structure Ensures (parse : Parse α) (post : List Token → α → Prop) : Prop where
  done : ∀ {tokens : List Token} {value : α} {rest : List Token},
    parse tokens = .done value rest → ∃ taken, tokens = taken ++ rest ∧ post taken value
  failed : ∀ {tokens : List Token} {expected : Expected} {rest : List Token},
    parse tokens = .failed expected rest → rest <:+ tokens

section Bind

variable {parse : Parse α} {next : α → Parse β} {tokens rest : List Token}

theorem exists_of_bind_done {result : β}
    (outcome : (parse >>= next) tokens = .done result rest) :
    ∃ value left, parse tokens = .done value left ∧
    next value left = .done result rest := by
  rw [bind_apply] at outcome
  split at outcome
  · next value left before => exact ⟨value, left, before, outcome⟩
  · cases outcome

theorem exists_of_bind_failed {expected : Expected}
    (outcome : (parse >>= next) tokens = .failed expected rest) :
    parse tokens = .failed expected rest ∨
      ∃ value left, parse tokens = .done value left ∧
      next value left = .failed expected rest := by
  rw [bind_apply] at outcome
  split at outcome
  · next value left before => exact .inr ⟨value, left, before, outcome⟩
  · next before =>
    cases outcome
    exact .inl before

end Bind

namespace Ensures

variable {parse : Parse α} {next : α → Parse β} {post : List Token → α → Prop}
  {result : List Token → β → Prop}

theorem mono {weaker : List Token → α → Prop} (ensures : Ensures parse post)
    (implied : ∀ taken value, post taken value → weaker taken value) :
      Ensures parse weaker where
  done outcome := by
    obtain ⟨taken, equal, holds⟩ := ensures.done outcome
    exact ⟨taken, equal, implied taken _ holds⟩
  failed := ensures.failed

/-- The tokens taken are those in front of what is left. -/
theorem of_append (ensures : Ensures parse post) {front rest : List Token} {value : α}
    (outcome : parse (front ++ rest) = .done value rest) : post front value := by
  obtain ⟨taken, equal, holds⟩ := ensures.done outcome
  rw [append_cancel_right equal]
  exact holds

/-- Two things that reading ensures hold of the same tokens. -/
theorem and {other : List Token → α → Prop} (left : Ensures parse post)
    (right : Ensures parse other) :
    Ensures parse fun taken value => post taken value ∧ other taken value where
  done outcome := by
    obtain ⟨taken, rfl, holds⟩ := left.done outcome
    exact ⟨taken, rfl, holds, right.of_append outcome⟩
  failed := left.failed

protected theorem pure {value : α} (holds : post [] value) :
    Ensures (Pure.pure value : Parse α) post where
  done outcome := by
    cases outcome
    exact ⟨[], rfl, holds⟩
  failed outcome := by cases outcome

protected theorem bind (first : Ensures parse post)
    (second : ∀ value taken, post taken value → Ensures (next value) fun more =>
      result (taken ++ more)) :
    Ensures (parse >>= next) result where
  done outcome := by
    obtain ⟨value, left, before, behind⟩ := exists_of_bind_done outcome
    obtain ⟨taken, rfl, holds⟩ := first.done before
    obtain ⟨more, rfl, atLast⟩ := (second value taken holds).done behind
    exact ⟨taken ++ more, (append_assoc ..).symm, atLast⟩
  failed outcome := by
    obtain before | ⟨value, left, before, behind⟩ := exists_of_bind_failed outcome
    · exact first.failed before
    · obtain ⟨taken, rfl, holds⟩ := first.done before
      exact ((second value taken holds).failed behind).trans (suffix_append ..)

/-- The value given at the end is made from the last one read. -/
protected theorem returns {make : α → β} (ensures : Ensures parse post)
    (holds : ∀ taken value, post taken value → result taken (make value)) :
    Ensures (do return make (← parse)) result := by
  refine ensures.bind fun value taken post => .pure ?_
  rw [append_nil]
  exact holds taken value post

protected theorem fail {expected : Expected} :
    Ensures (fail expected : Parse α) post where
  done outcome := by cases outcome
  failed outcome := by
    cases outcome
    exact suffix_rfl

/-- Looking at the next token takes nothing. -/
theorem peek {next : Option TokenKind → Parse β}
    (second : ∀ kind, Ensures (next kind) result) :
    Ensures (Parse.peek >>= next) result where
  done outcome := (second _).done outcome
  failed outcome := (second _).failed outcome

theorem peekSecond {next : Option TokenKind → Parse β}
    (second : ∀ kind, Ensures (next kind) result) :
    Ensures (Parse.peekSecond >>= next) result where
  done outcome := (second _).done outcome
  failed outcome := (second _).failed outcome

protected theorem take (accepts : TokenKind → Bool) (expected : Expected) :
    Ensures (take accepts expected) fun taken token =>
      taken = [token] ∧ accepts token.kind = true where
  done {tokens value rest} outcome := by
    cases tokens with
    | nil => cases outcome
    | cons token left =>
      rw [Parse.take] at outcome
      split at outcome
      · rename_i accepted
        cases outcome
        exact ⟨[value], rfl, rfl, accepted⟩
      · cases outcome
  failed {tokens expected rest} outcome := by
    cases tokens with
    | nil =>
      cases outcome
      exact suffix_rfl
    | cons token left =>
      rw [Parse.take] at outcome
      split at outcome
      · cases outcome
      · cases outcome
        exact suffix_rfl

protected theorem expect (kind : TokenKind) :
    Ensures (expect kind) fun taken token => taken = [token] ∧ token.kind = kind :=
  (Ensures.take _ _).mono fun _ _ => And.imp_right of_decide_eq_true

protected theorem mark (mark : Mark) : Ensures (Parse.mark mark) fun taken token =>
      taken = [token] ∧ token.kind = .punctuation mark :=
  Ensures.expect _

protected theorem identifier :
    Ensures identifier fun taken token => taken = [token] ∧
    token.kind.isIdentifier = true :=
  Ensures.take _ _

protected theorem eat (kind : TokenKind) : Ensures (eat kind) fun taken found =>
      taken = found.toList ∧ ∀ token, found = some token → token.kind = kind where
  done {tokens value rest} outcome := by
    cases tokens with
    | nil =>
      cases outcome
      exact ⟨[], rfl, rfl, fun token equal => by cases equal⟩
    | cons token left =>
      rw [Parse.eat] at outcome
      split at outcome
      · rename_i equal
        cases outcome
        exact ⟨[token], rfl, rfl, fun other same => by cases same; exact equal⟩
      · cases outcome
        exact ⟨[], rfl, rfl, fun other same => by cases same⟩
  failed {tokens expected rest} outcome := by
    cases tokens with
    | nil => cases outcome
    | cons token left =>
      rw [Parse.eat] at outcome
      split at outcome
      · cases outcome
      · cases outcome

/-- A repetition ensures what holds of nothing and is kept by one more item in front. -/
protected theorem many {goesOn : TokenKind → Bool} {motive : List Token → List α → Prop}
    (step : Ensures parse post) (nil : motive [] [])
    (cons : ∀ taken value more values, post taken value → motive more values →
      motive (taken ++ more) (value :: values)) :
    Ensures (many goesOn parse) motive := by
  constructor
  · intro tokens
    fun_induction Parse.many goesOn parse tokens with
    | case1 =>
      intro values rest outcome
      cases outcome
      exact ⟨[], rfl, nil⟩
    | case2 token tail goes expected left item =>
      intro values rest outcome
      cases outcome
    | case3 token tail goes value left item shorter values left' recursion induction =>
      intro given rest outcome
      cases outcome
      obtain ⟨taken, equal, holds⟩ := step.done item
      obtain ⟨more, leftEqual, further⟩ := induction recursion
      refine ⟨taken ++ more, ?_, cons _ _ _ _ holds further⟩
      rw [equal, leftEqual, append_assoc]
    | case4 token tail goes value left item shorter expected left' recursion induction =>
      intro given rest outcome
      cases outcome
    | case5 token tail goes value left item longer =>
      intro given rest outcome
      cases outcome
      obtain ⟨taken, equal, holds⟩ := step.done item
      refine ⟨taken, equal, ?_⟩
      have single := cons _ _ _ _ holds nil
      rwa [append_nil] at single
    | case6 token tail stops =>
      intro given rest outcome
      cases outcome
      exact ⟨[], rfl, nil⟩
  · intro tokens
    fun_induction Parse.many goesOn parse tokens with
    | case2 token tail goes expected left item =>
      intro given rest outcome
      cases outcome
      exact step.failed item
    | case4 token tail goes value left item shorter expected left' recursion induction =>
      intro given rest outcome
      cases outcome
      obtain ⟨taken, equal, holds⟩ := step.done item
      rw [equal]
      exact (induction recursion).trans (suffix_append ..)
    | _ =>
      intro given rest outcome
      cases outcome

end Ensures

/-! ## Repetitions of constructs -/

variable {expression : Ebnf} {inBody : Bool}

theorem ensures_many {item : Parse α} {trees : α → List Tree}
    (step : Ensures item fun taken value => Reads expression inBody taken (trees value)) :
    Ensures (many goesOn item) fun taken values =>
      Reads (.many expression) inBody taken (values.flatMap trees) :=
  step.many .none fun _ _ _ _ head tail => head.more tail

theorem ensures_separated {item : Parse α} {trees : α → List Tree}
    (step : Ensures item fun taken value => Reads expression inBody taken (trees value)) :
    Ensures (separated separator item) fun taken values =>
      Reads (.separated separator expression) inBody taken (values.flatMap trees) := by
  have behind : Ensures (do let _ ← mark separator; item) fun taken value =>
      Reads (.sequence [.mark separator, expression]) inBody taken (trees value) := by
    refine (Ensures.mark separator).bind ?_
    rintro token _ ⟨rfl, kind⟩
    exact step.mono fun taken value reads => (Reads.mark kind).cons reads.last
  refine step.bind fun first taken head => ?_
  exact (ensures_many behind).returns fun more others tail => head.cons tail.last

/-- Reads one tree from a phrase of an expression. -/
abbrev ReadsAs (parse : Parse Tree) (expression : Ebnf) (inBody : Bool) : Prop :=
  Ensures parse fun taken tree => Reads expression inBody taken [tree]

theorem Ensures.oneOf {alternatives : List Ebnf} (reads : ReadsAs item expression inBody)
    (member : expression ∈ alternatives) : ReadsAs item (.oneOf alternatives) inBody :=
  reads.mono fun _ _ ofPart => ofPart.oneOf member

theorem Ensures.construct {construct : Construct}
    (reads : ReadsAs item construct.production inBody) :
    ReadsAs item (.construct construct) inBody :=
  reads.mono fun _ _ ofProduction => .construct ofProduction

theorem ensures_manyTrees (step : ReadsAs item expression inBody) :
    Ensures (many goesOn item) (Reads (.many expression) inBody) :=
  (ensures_many step).mono fun taken trees reads => by simpa using reads

/-- A repetition of trees took nothing and gave nothing, or it read a first item and
then others. -/
theorem ensures_manyTrees_cases (step : ReadsAs item expression inBody) :
    Ensures (many goesOn item) fun taken trees => (taken = [] ∧ trees = []) ∨
      ∃ first rest tree others, taken = first ++ rest ∧ trees = tree :: others ∧
        Reads expression inBody first [tree] ∧
        Reads (.many expression) inBody rest others := by
  refine step.many (Or.inl ⟨rfl, rfl⟩) ?_
  intro taken tree more trees head tail
  refine Or.inr ⟨taken, more, tree, trees, rfl, rfl, head, ?_⟩
  rcases tail with ⟨rfl, rfl⟩ | ⟨first, rest, other, others, rfl, rfl, next, behind⟩
  · exact .none
  · exact next.more behind

theorem ensures_separatedTrees (step : ReadsAs item expression inBody) :
    Ensures (separated separator item) (Reads (.separated separator expression) inBody) :=
  (ensures_separated step).mono fun taken trees reads => by simpa using reads

end Parse

end GrammarInspector
