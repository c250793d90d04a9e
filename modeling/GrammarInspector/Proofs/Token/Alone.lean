import GrammarInspector.Proofs.Token.Extent
import GrammarInspector.Proofs.Token.Slices

/-! # Tokens on their own

What a token is does not depend on the text around it. Scanning looks behind the token
only to see where it ends, and the end of the text ends it in the same place. So the text
of a token, scanned alone, is that token again.
-/

namespace GrammarInspector.Token

open List

variable {first : Char} {rest : List Char} {count : Nat}

/-! ## Marks, comments and actions -/

theorem head?_take_eq_some_iff {next : Char} :
    (rest.take count).head? = some next ↔ 0 < count ∧ rest.head? = some next := by
  rw [head?_take]
  split
  · next none => simp [none]
  · next more => simp [Nat.pos_of_ne_zero more]

theorem scanPair_take {second : Char} {long short : TokenKind}
    (enough : (scanPair second long short rest).2 ≤ count) :
    scanPair second long short (rest.take count) = scanPair second long short rest := by
  unfold scanPair at enough ⊢
  split at enough
  · next isLong => rw [if_pos (head?_take_eq_some_iff.mpr ⟨enough, isLong⟩),
      if_pos isLong]
  · next isShort =>
    rw [if_neg fun isLong => isShort (head?_take_eq_some_iff.mp isLong).2, if_neg isShort]

theorem scanComment_take (enough : (scanComment rest).2 ≤ count) :
    scanComment (rest.take count) = scanComment rest := by
  unfold scanComment at enough
  split at enough
  · next comment =>
    obtain ⟨more, fits, cut⟩ := exists_take_cons enough
    rw [cut, scanComment, scanComment, lineExtent_take fits]
  · next comment =>
    obtain ⟨more, fits, cut⟩ := exists_take_cons (Extent.length_lt_of_after enough)
    rw [cut, scanComment, scanComment, blockExtent_take fits,
      startsDoc_take (Nat.le_trans (min_le_blockExtent comment) fits)]
  · next noLine noBlock =>
    have isFault {front : List Char} (begins : front <+: rest) :
        scanComment front = (.error (.unexpectedCharacter '/'), 0) := by
      obtain ⟨behind, rfl⟩ := begins
      rw [scanComment]
      · rintro comment rfl
        exact noLine _ rfl
      · rintro comment rfl
        exact noBlock _ rfl
    rw [isFault ( take_prefix ..), isFault prefix_rfl]

theorem scanAction_take (enough : (scanAction rest).2 ≤ count) :
    scanAction (rest.take count) = scanAction rest := by
  have within : (actionExtent 0 0 rest).length ≤ count := by
    refine Nat.le_trans ?_ enough
    unfold scanAction
    dsimp only
    split
    · exact Nat.le_succ _
    · exact Nat.le_refl _
  unfold scanAction at enough ⊢
  dsimp only at enough ⊢
  rw [actionExtent_take within, drop_take]
  split at enough
  · next isPredicate =>
    rw [Bool.and_eq_true, decide_eq_true_iff] at isPredicate
    have more : 0 < count - (actionExtent 0 0 rest).length := Nat.sub_pos_of_lt enough
    rw [if_pos, if_pos]
    · rw [isPredicate.1, isPredicate.2]
      rfl
    · rw [isPredicate.1, head?_take_eq_some_iff.mpr ⟨more, isPredicate.2⟩]
      rfl
  · next isAction =>
    rw [if_neg, if_neg isAction]
    intro isPredicate
    apply isAction
    rw [Bool.and_eq_true, decide_eq_true_iff] at isPredicate ⊢
    exact ⟨isPredicate.1, (head?_take_eq_some_iff.mp isPredicate.2).2⟩

/-! ## Numbers and words -/

theorem takeWhile_take {continues : Char → Bool}
    (enough : (rest.takeWhile continues).length ≤ count) :
    (rest.take count).takeWhile continues = rest.takeWhile continues := by
  rw [← take_takeWhile, take_of_length_le enough]

theorem braceDistance_take {text : List Char}
    (enough : ∀ distance ∈ braceDistance text, distance ≤ count) :
    braceDistance (text.take count) = braceDistance text := by
  fun_induction braceDistance text generalizing count with
  | case1 => rw [take_nil, braceDistance]
  | case2 rest =>
    obtain ⟨more, _, cut⟩ := exists_take_cons (enough 1 rfl)
    rw [cut, braceDistance, if_pos rfl]
  | case3 character rest noBrace blank induction =>
    cases count with
    | zero =>
      -- No brace is at distance zero, so there is none.
      cases found : braceDistance rest with
      | none => rfl
      | some distance =>
        rw [found] at enough
        cases enough (distance + 1) rfl
    | succ more =>
      rw [take_succ_cons, braceDistance, if_neg noBrace, if_pos blank, induction]
      intro distance isDistance
      apply Nat.le_of_succ_le_succ
      apply enough
      rw [Option.mem_def.mp isDistance]
      rfl
  | case4 character rest noBrace solid =>
    cases count with
    | zero => rfl
    | succ more => rw [take_succ_cons, braceDistance, if_neg noBrace, if_neg solid]

theorem length_le_scanWord (first : Char) (rest : List Char) :
    (rest.takeWhile continuesWord).length ≤ (scanWord first rest).2 := by
  unfold scanWord
  dsimp only
  split
  · exact Nat.le_add_right ..
  · exact Nat.le_refl _

theorem scanWord_take (enough : (scanWord first rest).2 ≤ count) :
    scanWord first (rest.take count) = scanWord first rest := by
  have fits := Nat.le_trans (length_le_scanWord first rest) enough
  unfold scanWord at enough ⊢
  dsimp only at enough ⊢
  rw [takeWhile_take fits, take_take, Nat.min_eq_left fits, drop_take]
  generalize Opener.ofText? _ = opener at enough ⊢
  cases opener with
  | none => rfl
  | some opener =>
    rw [braceDistance_take]
    intro distance isDistance
    rw [Option.mem_def.mp isDistance] at enough
    exact Nat.le_sub_of_add_le' enough

/-! ## Any token -/

/-- Scanning finds the same token in every text that goes on like this one up to the end
of the token. -/
theorem scan_take (enough : (scan first rest).2 ≤ count) :
    scan first (rest.take count) = scan first rest := by
  unfold scan at enough ⊢
  split at enough
  · exact scanPair_take enough
  · exact scanPair_take enough
  · exact scanPair_take enough
  · exact scanPair_take enough
  · exact scanComment_take enough
  · exact congrArg (Extent.scanned · _ _) (delimitedExtent_take enough)
  · exact scanAction_take enough
  · exact congrArg (Extent.scanned · _ _) (delimitedExtent_take enough)
  · generalize loneMark? first = mark at enough ⊢
    cases mark with
    | some mark => rfl
    | none =>
      dsimp only at enough ⊢
      split at enough
      · next isDigit => rw [if_pos isDigit, if_pos isDigit, takeWhile_take enough]
      · next noDigit =>
        rw [if_neg noDigit, if_neg noDigit]
        split at enough
        · next isStart => rw [if_pos isStart, if_pos isStart, scanWord_take enough]
        · next noStart => rw [if_neg noStart, if_neg noStart]

/-- A token that is not the end of its source covers its text there. The text alone makes
up a source with that token as its only one. -/
theorem ofText_text_alone {source : String} {token : Token}
    (member : token ∈ ofText source.toList) (notEnd : token.kind ≠ .eof) :
    token.span.Shows source token.text ∧
      ofText token.text.toList =
        [⟨token.kind, ⟨0, token.span.length⟩, token.text⟩,
          ⟨.eof, ⟨token.span.length, token.span.length⟩, ""⟩] := by
  refine ⟨shows_of_mem member, ?_⟩
  obtain ⟨⟨before, behind, source_eq, start_eq, stop_eq, lexed⟩⟩ := nonempty_placed member
  cases lexed with
  | ended => exact absurd rfl notEnd
  | @scanned first rest span solid =>
    have length_eq : span.length =
        Text.utf8Length (first :: rest.take (scan first rest).2) := by
      dsimp only at start_eq stop_eq
      rw [String.toList_ofList, Text.utf8Length_append] at stop_eq
      rw [Span.length, start_eq, stop_eq, Nat.add_sub_cancel_left]
    rw [String.toList_ofList, ofText, ofTextAt_of_solid solid]
    dsimp only
    rw [scan_take (Nat.le_refl _), take_take, Nat.min_self, drop_take_self, Nat.zero_add,
      ofTextAt, length_eq, Span.emptyAt]

/-- The apostrophe in this action would begin a character literal if another one followed
the brace. The action alone is an action too. -/
theorem ofText_text_alone_apostrophe :
    (⟨.action, ⟨2, 5⟩, "\x7b'\x7d"⟩ : Token) ∈ ofText "a \x7b'\x7d;".toList ∧
      ofText "\x7b'\x7d".toList =
        [⟨.action, ⟨0, 3⟩, "\x7b'\x7d"⟩, ⟨.eof, ⟨3, 3⟩, ""⟩] := by
  have member : (⟨.action, ⟨2, 5⟩, "\x7b'\x7d"⟩ : Token) ∈
      ofText "a \x7b'\x7d;".toList := by
    decide +kernel
  exact ⟨member, (ofText_text_alone member (by decide)).2⟩

end GrammarInspector.Token
