import GrammarInspector.Proofs.Grammar.Sound.Element

/-! # What constructs yield

`Parse.Yields known parse post` says that `post` holds of the value whenever `parse` is
done with tokens that are all known.
-/

namespace GrammarInspector

namespace Parse

variable {α β : Type} {known : Token → Prop}

/-- What holds of the value given whenever reading is done, if all tokens are known. -/
def Yields (known : Token → Prop) (parse : Parse α) (post : α → Prop) : Prop :=
  ∀ tokens value rest, (∀ token ∈ tokens, known token) → parse tokens = .done value rest →
    post value ∧ ∀ token ∈ rest, known token

namespace Yields

variable {parse : Parse α} {next : α → Parse β} {post : α → Prop} {result : β → Prop}

theorem mono {weaker : α → Prop} (yields : Yields known parse post)
    (implied : ∀ value, post value → weaker value) : Yields known parse weaker := by
  intro tokens value rest areKnown outcome
  exact (yields tokens value rest areKnown outcome).imp_left (implied value)

theorem of_ensures {held : List Token → α → Prop} (ensures : Ensures parse held)
    (holds : ∀ taken value, (∀ token ∈ taken, known token) → held taken value →
      post value) :
    Yields known parse post := by
  intro tokens value rest areKnown outcome
  obtain ⟨taken, equal, held⟩ := ensures.done outcome
  subst equal
  obtain ⟨takenKnown, restKnown⟩ := List.forall_mem_append.mp areKnown
  exact ⟨holds taken value takenKnown held, restKnown⟩

protected theorem pure {value : α} (holds : post value) :
    Yields known (Pure.pure value : Parse α) post := by
  intro tokens _ _ areKnown outcome
  cases outcome
  exact ⟨holds, areKnown⟩

protected theorem bind (first : Yields known parse post)
    (second : ∀ value, post value → Yields known (next value) result) :
    Yields known (parse >>= next) result := by
  intro tokens given rest areKnown outcome
  obtain ⟨value, left, before, behind⟩ := exists_of_bind_done outcome
  obtain ⟨holds, leftKnown⟩ := first tokens value left areKnown before
  exact second value holds left given rest leftKnown behind

protected theorem returns {make : α → β} (yields : Yields known parse post)
    (holds : ∀ value, post value → result (make value)) :
    Yields known (do return make (← parse)) result :=
  yields.bind fun value held => .pure (holds value held)

protected theorem fail {expected : Expected} :
    Yields known (fail expected : Parse α) post := by
  intro tokens value rest _ outcome
  cases outcome

theorem peek {next : Option TokenKind → Parse β}
    (second : ∀ kind, Yields known (next kind) result) :
    Yields known (Parse.peek >>= next) result :=
  fun tokens => second (headKind? tokens) tokens

theorem peekSecond {next : Option TokenKind → Parse β}
    (second : ∀ kind, Yields known (next kind) result) :
    Yields known (Parse.peekSecond >>= next) result :=
  fun tokens => second (headKind? tokens.tail) tokens

protected theorem take {accepts : TokenKind → Bool} {expected : Expected} :
    Yields known (take accepts expected) known := by
  refine of_ensures (Ensures.take accepts expected) ?_
  rintro _ token isKnown ⟨rfl, _⟩
  exact isKnown token (.head _)

protected theorem expect {kind : TokenKind} : Yields known (expect kind) known :=
  Yields.take

protected theorem mark {mark : Mark} : Yields known (Parse.mark mark) known :=
  Yields.expect

protected theorem identifier : Yields known identifier known := Yields.take

protected theorem eat {kind : TokenKind} :
    Yields known (eat kind) fun found => ∀ token ∈ found, known token := by
  refine of_ensures (Ensures.eat kind) ?_
  rintro _ found isKnown ⟨rfl, _⟩ token isFound
  exact isKnown token (Option.mem_toList.mpr isFound)

protected theorem many {goesOn : TokenKind → Bool} (step : Yields known parse post) :
    Yields known (many goesOn parse) fun values => ∀ value ∈ values, post value := by
  intro tokens
  fun_induction Parse.many goesOn parse tokens with
  | case1 =>
    intro values rest areKnown outcome
    cases outcome
    exact ⟨by simp, areKnown⟩
  | case3 token tail goes value left item shorter values left' recursion induction =>
    intro given rest areKnown outcome
    cases outcome
    obtain ⟨holds, leftKnown⟩ := step _ _ _ areKnown item
    obtain ⟨further, restKnown⟩ := induction _ _ leftKnown recursion
    exact ⟨List.forall_mem_cons.mpr ⟨holds, further⟩, restKnown⟩
  | case5 token tail goes value left item longer =>
    intro given rest areKnown outcome
    cases outcome
    obtain ⟨holds, leftKnown⟩ := step _ _ _ areKnown item
    exact ⟨List.forall_mem_singleton.mpr holds, leftKnown⟩
  | case6 token tail stops =>
    intro given rest areKnown outcome
    cases outcome
    exact ⟨by simp, areKnown⟩
  | _ =>
    intro given rest _ outcome
    cases outcome

theorem separated_ne_nil {separator : Mark} (step : Yields known parse post) :
    Yields known (Parse.separated separator parse) fun values =>
      values ≠ [] ∧ ∀ value ∈ values, post value := by
  refine step.bind fun first holds => ?_
  refine (Yields.many (Yields.mark.bind fun _ _ => step)).returns fun rest further => ?_
  exact ⟨List.cons_ne_nil _ _, List.forall_mem_cons.mpr ⟨holds, further⟩⟩

protected theorem separated {separator : Mark} (step : Yields known parse post) :
    Yields known (Parse.separated separator parse) fun values =>
      ∀ value ∈ values, post value :=
  step.separated_ne_nil.mono fun _ found => found.2

/-- What holds of blocks if it holds of the blocks inside them holds of all blocks. -/
protected theorem block {flavour : RuleFlavour} {post : Tree → Prop}
    (nested : ∀ inner, Yields known inner post →
      Yields known (blockOf inner flavour) post) :
    Yields known (block flavour) post := by
  have within (bound : Nat) : Yields known (blockWithin flavour bound) post := by
    induction bound using Nat.strongRecOn with
    | ind bound induction =>
      intro tokens tree rest areKnown outcome
      unfold blockWithin at outcome
      split at outcome
      · next shorter =>
        rw [block_eq] at outcome
        exact nested _ (induction _ shorter) tokens tree rest areKnown outcome
      · cases outcome
  intro tokens tree rest areKnown outcome
  rw [block_eq] at outcome
  exact nested _ (within _) tokens tree rest areKnown outcome

end Yields

end Parse

end GrammarInspector
