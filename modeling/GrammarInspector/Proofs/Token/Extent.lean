import GrammarInspector.Token.Extent

/-! # Extents look no further than they reach

Each function that measures the rest of a token gives the same answer when the text is cut
behind what it counts. Where a decision needs the next characters, it comes out alike
whether other characters or the end of the text follow.
-/

namespace GrammarInspector.Token

open List

variable {count depth : Nat} {character close first quote : Char}
  {rest text : List Char} {breaks : Char → Bool}

/-! ## Cutting a text behind its first character -/

theorem exists_take_cons {length : Nat} (less : length < count) :
    ∃ more, length ≤ more ∧ ∀ (first : Char) (rest : List Char),
      (first :: rest).take count = first :: rest.take more := by
  obtain ⟨more, rfl⟩ := Nat.exists_eq_add_of_lt less
  exact ⟨length + more, Nat.le_add_right .., fun _ _ => take_succ_cons⟩

theorem Extent.length_lt_of_after {extent : Extent}
    (enough : (extent.after 1).length ≤ count) : extent.length < count := by
  rwa [Extent.after, Nat.add_comm] at enough

/-! ## Literals, bracket blocks and comments -/

/-- A character that begins no escape, neither at the end of a text nor in front of
another character. -/
theorem ne_backslash (notLast : character = '\\' → rest = [] → False)
    (notEscape : ∀ next more, character = '\\' → rest = next :: more → False) :
    character ≠ '\\' := by
  rintro rfl
  cases rest with
  | nil => exact notLast rfl rfl
  | cons next more => exact notEscape next more rfl rfl

theorem delimitedExtent_cons (plain : character ≠ '\\') :
    delimitedExtent close breaks (character :: rest) =
      if character = close then ⟨1, true⟩
      else if breaks character then ⟨0, false⟩
      else (delimitedExtent close breaks rest).after 1 := by
  rw [delimitedExtent]
  · simp [plain]
  · simp [plain]

theorem delimitedExtent_take
    (enough : (delimitedExtent close breaks text).length ≤ count) :
    delimitedExtent close breaks (text.take count) =
      delimitedExtent close breaks text := by
  fun_induction delimitedExtent close breaks text generalizing count with
  | case1 => rw [take_nil, delimitedExtent]
  | case2 =>
    obtain ⟨more, _, cut⟩ := exists_take_cons enough
    rw [cut, take_nil, delimitedExtent]
  | case3 next rest isBreak =>
    -- The backslash protects nothing, whether the line or the text ends behind it.
    obtain ⟨more, _, cut⟩ := exists_take_cons enough
    rw [cut]
    cases more with
    | zero => rw [take_zero, delimitedExtent]
    | succ more => rw [take_succ_cons, delimitedExtent, if_pos isBreak]
  | case4 next rest stays induction =>
    have less : (delimitedExtent close breaks rest).length + 1 < count := by
      dsimp only [Extent.after] at enough
      omega
    obtain ⟨most, fewer, cut⟩ := exists_take_cons less
    obtain ⟨more, fits, cutNext⟩ := exists_take_cons fewer
    rw [cut, cutNext, delimitedExtent, if_neg stays, induction fits]
  | case5 rest notLast notEscape =>
    obtain ⟨more, _, cut⟩ := exists_take_cons enough
    rw [cut, delimitedExtent_cons (ne_backslash notLast notEscape), if_pos rfl]
  | case6 character rest notLast notEscape other isBreak =>
    cases count with
    | zero => rw [take_zero, delimitedExtent]
    | succ more =>
      rw [take_succ_cons, delimitedExtent_cons (ne_backslash notLast notEscape),
        if_neg other, if_pos isBreak]
  | case7 character rest notLast notEscape other stays induction =>
    obtain ⟨more, fits, cut⟩ := exists_take_cons (Extent.length_lt_of_after enough)
    rw [cut, delimitedExtent_cons (ne_backslash notLast notEscape), if_neg other,
      if_neg stays, induction fits]

theorem lineExtent_take (enough : lineExtent text ≤ count) :
    lineExtent (text.take count) = lineExtent text := by
  fun_induction lineExtent text generalizing count with
  | case1 => rw [take_nil, lineExtent]
  | case2 rest =>
    cases count with
    | zero => rw [take_zero, lineExtent]
    | succ more => rw [take_succ_cons, lineExtent, if_pos rfl]
  | case3 character rest stays induction =>
    obtain ⟨more, fits, cut⟩ := exists_take_cons enough
    rw [cut, lineExtent, if_neg stays, induction fits]

/-- A comment goes on behind a character that does not end it with the next one. -/
theorem blockExtent_cons (stays : ∀ behind, first = '*' → rest = '/' :: behind → False) :
    blockExtent (first :: rest) = (blockExtent rest).after 1 := by
  rw [blockExtent]
  exact stays

theorem blockExtent_take (enough : (blockExtent text).length ≤ count) :
    blockExtent (text.take count) = blockExtent text := by
  fun_induction blockExtent text generalizing count with
  | case1 => rw [take_nil, blockExtent]
  | case2 behind =>
    obtain ⟨most, fewer, cut⟩ := exists_take_cons enough
    obtain ⟨more, _, cutNext⟩ := exists_take_cons fewer
    rw [cut, cutNext, blockExtent]
  | case3 first rest stays induction =>
    obtain ⟨more, fits, cut⟩ := exists_take_cons (Extent.length_lt_of_after enough)
    rw [cut, blockExtent_cons, induction fits]
    intro behind isStar isSlash
    have whole := take_append_drop more rest
    rw [isSlash] at whole
    exact stays _ isStar whole.symm

/-- A comment reaches over its first two characters, if there are so many. -/
theorem min_le_blockExtent (text : List Char) :
    min 2 text.length ≤ (blockExtent text).length := by
  fun_induction blockExtent text with
  | case1 => exact Nat.min_le_right ..
  | case2 => exact Nat.min_le_left ..
  | case3 first rest stays induction =>
    rw [length_cons]
    dsimp only [Extent.after]
    omega

theorem startsDoc_cons_cons (first second : Char) (rest : List Char) :
    startsDoc (first :: second :: rest) = (first == '*' && second != '/') := by
  by_cases isStar : first = '*'
  · subst isStar
    by_cases isSlash : second = '/'
    · subst isSlash
      rfl
    · rw [startsDoc]
      · simp [isSlash]
      · exact fun _ equal => isSlash (List.cons.inj equal).1
  · rw [startsDoc]
    · simp [isStar]
    · exact fun _ equal => isStar (List.cons.inj equal).1
    · exact fun _ equal => isStar (List.cons.inj equal).1

theorem startsDoc_take (enough : min 2 text.length ≤ count) :
    startsDoc (text.take count) = startsDoc text := by
  match text with
  | [] => rw [take_nil]
  | [only] => rw [take_of_length_le enough]
  | first :: second :: rest =>
    have two : 2 ≤ count :=
      Nat.le_trans (Nat.le_min.mpr ⟨Nat.le_refl 2, Nat.le_add_left ..⟩) enough
    obtain ⟨most, fewer, cut⟩ := exists_take_cons two
    obtain ⟨more, _, cutNext⟩ := exists_take_cons fewer
    rw [cut, cutNext, startsDoc_cons_cons, startsDoc_cons_cons]

/-! ## Pieces of actions -/

theorem quotedLength_cons (plain : character ≠ '\\') :
    quotedLength quote (character :: rest) =
      if character = '\n' || character = quote then 1
      else quotedLength quote rest + 1 := by
  rw [quotedLength]
  · simp [plain]
  · simp [plain]

theorem quotedLength_take (enough : quotedLength quote text ≤ count) :
    quotedLength quote (text.take count) = quotedLength quote text := by
  fun_induction quotedLength quote text generalizing count with
  | case1 => rw [take_nil, quotedLength]
  | case2 =>
    obtain ⟨more, _, cut⟩ := exists_take_cons enough
    rw [cut, take_nil, quotedLength]
  | case3 next rest induction =>
    obtain ⟨most, fewer, cut⟩ := exists_take_cons enough
    obtain ⟨more, fits, cutNext⟩ := exists_take_cons fewer
    rw [cut, cutNext, quotedLength, induction fits]
  | case4 character rest notLast notEscape ends =>
    obtain ⟨more, _, cut⟩ := exists_take_cons enough
    rw [cut, quotedLength_cons (ne_backslash notLast notEscape), if_pos ends]
  | case5 character rest notLast notEscape stays induction =>
    obtain ⟨more, fits, cut⟩ := exists_take_cons enough
    rw [cut, quotedLength_cons (ne_backslash notLast notEscape), if_neg stays,
      induction fits]

theorem one_le_quotedLength : 1 ≤ quotedLength quote (first :: rest) := by
  generalize whole : first :: rest = text
  fun_induction quotedLength quote text with
  | case1 => cases whole
  | case2 => exact Nat.le_refl 1
  | case3 => exact Nat.le_add_left ..
  | case4 => exact Nat.le_refl 1
  | case5 => exact Nat.le_add_left ..

theorem pieceTail_literal {behind : List Char} (unescaped : character ≠ '\\') :
    pieceTail '\'' (character :: '\'' :: behind) = if character = '\n' then 0 else 2 := by
  rw [pieceTail]
  exact unescaped

/-- What a piece is does not depend on the text behind it. -/
theorem pieceTail_take (enough : pieceTail first rest ≤ count) :
    pieceTail first (rest.take count) = pieceTail first rest := by
  unfold pieceTail at enough
  split at enough
  · rfl
  · exact quotedLength_take enough
  · obtain ⟨more, _, cut⟩ := exists_take_cons (Nat.le_trans one_le_quotedLength enough)
    have same := quotedLength_take enough
    rw [cut] at same ⊢
    exact same
  · next character behind unescaped =>
    -- A line break between two apostrophes is no literal, wherever the text is cut.
    by_cases isBreak : character = '\n'
    · subst isBreak
      match count with
      | 0 => rfl
      | 1 => rfl
      | more + 2 => rfl
    · rw [if_neg isBreak] at enough
      obtain ⟨most, fewer, cut⟩ := exists_take_cons enough
      obtain ⟨more, _, cutNext⟩ := exists_take_cons fewer
      rw [cut, cutNext, pieceTail_literal unescaped, pieceTail_literal unescaped]
  · next comment =>
    obtain ⟨more, fits, cut⟩ := exists_take_cons enough
    rw [cut, pieceTail, pieceTail, lineExtent_take fits]
  · next comment =>
    obtain ⟨more, fits, cut⟩ := exists_take_cons enough
    rw [cut, pieceTail, pieceTail, blockExtent_take fits]
  · next noEscape noString noCode noLiteral noLine noBlock =>
    -- What a cut text begins with, the whole text begins with too.
    have isAlone {front : List Char} (begins : front <+: rest) :
        pieceTail first front = 0 := by
      obtain ⟨behind, rfl⟩ := begins
      rw [pieceTail]
      · exact noEscape
      · exact noString
      · rintro tail isQuote rfl
        exact noCode _ isQuote rfl
      · rintro character tail isQuote rfl
        exact noLiteral _ _ isQuote rfl
      · rintro comment isSlash rfl
        exact noLine _ isSlash rfl
      · rintro comment isSlash rfl
        exact noBlock _ isSlash rfl
    rw [isAlone ( take_prefix ..), isAlone prefix_rfl]

/-- An action does not end inside a piece that is passed over. -/
theorem min_le_actionExtent (skip depth : Nat) (text : List Char) :
    min skip text.length ≤ (actionExtent skip depth text).length := by
  fun_induction actionExtent skip depth text with
  | case1 => exact Nat.min_le_right ..
  | case2 skip depth character rest induction =>
    rw [length_cons]
    dsimp only [Extent.after]
    omega
  | case3 => exact Nat.le_trans (Nat.min_le_left ..) (Nat.zero_le _)
  | case4 => exact Nat.le_trans (Nat.min_le_left ..) (Nat.zero_le _)
  | case5 => exact Nat.le_trans (Nat.min_le_left ..) (Nat.zero_le _)
  | case6 => exact Nat.le_trans (Nat.min_le_left ..) (Nat.zero_le _)

/-- Inside an action, a character that is no brace begins a piece. -/
theorem actionExtent_cons (noOpening : character ≠ '\x7b')
    (noClosing : character ≠ '\x7d') :
    actionExtent 0 depth (character :: rest) =
      (actionExtent (pieceTail character rest) depth rest).after 1 := by
  rw [actionExtent]
  · exact noOpening
  · exact fun _ => noClosing
  · exact fun _ _ => noClosing

/-- A piece at the front of an action stays what it is when the text is cut behind the
action: the piece is whole in what is left, or nothing is cut away. -/
theorem pieceTail_take_of_action
    (enough : (actionExtent (pieceTail character rest) depth rest).length ≤ count) :
    pieceTail character (rest.take count) = pieceTail character rest := by
  have reached := min_le_actionExtent (pieceTail character rest) depth rest
  rcases Nat.le_total (pieceTail character rest) rest.length with inside | beyond
  · rw [Nat.min_eq_left inside] at reached
    exact pieceTail_take (Nat.le_trans reached enough)
  · rw [Nat.min_eq_right beyond] at reached
    rw [take_of_length_le (Nat.le_trans reached enough)]

theorem actionExtent_take {skip : Nat}
    (enough : (actionExtent skip depth text).length ≤ count) :
    actionExtent skip depth (text.take count) = actionExtent skip depth text := by
  fun_induction actionExtent skip depth text generalizing count with
  | case1 => rw [take_nil, actionExtent]
  | case2 skip depth character rest induction =>
    obtain ⟨more, fits, cut⟩ := exists_take_cons (Extent.length_lt_of_after enough)
    rw [cut, actionExtent, induction fits]
  | case3 depth rest induction =>
    obtain ⟨more, fits, cut⟩ := exists_take_cons (Extent.length_lt_of_after enough)
    rw [cut, actionExtent, induction fits]
  | case4 behind =>
    obtain ⟨more, _, cut⟩ := exists_take_cons enough
    rw [cut, actionExtent]
  | case5 depth rest induction =>
    obtain ⟨more, fits, cut⟩ := exists_take_cons (Extent.length_lt_of_after enough)
    rw [cut, actionExtent, induction fits]
  | case6 depth character rest noOpening noOuter noInner induction =>
    have noClosing : character ≠ '\x7d' := by
      cases depth with
      | zero => exact noOuter rfl
      | succ depth => exact noInner depth rfl
    obtain ⟨more, fits, cut⟩ := exists_take_cons (Extent.length_lt_of_after enough)
    rw [cut, actionExtent_cons noOpening noClosing, pieceTail_take_of_action fits,
      induction fits]

end GrammarInspector.Token
