import GrammarInspector.Text.LineIndex

/-! # Positions by counting

The position behind some text, counted character by character, and that looking an offset
up among the lines of a source gives the same. Two places of one line differ by the UTF-16
length of the text between them.
-/

namespace GrammarInspector

open List

namespace Text

theorem utf8Length_pos {text : List Char} (nonempty : text ≠ []) :
    0 < utf8Length text := by
  cases text with
  | nil => exact absurd rfl nonempty
  | cons character rest =>
    rw [utf8Length]
    exact Nat.add_pos_left character.utf8Size_pos _

theorem utf16Length_pos {text : List Char} (nonempty : text ≠ []) :
    0 < utf16Length text := by
  cases text with
  | nil => exact absurd rfl nonempty
  | cons character rest =>
    rw [utf16Length, utf16Size]
    split <;> omega

/-- Of two texts that a source begins with, the one with fewer bytes begins the other. -/
theorem prefix_of_utf8Length_le {shorter longer source : List Char}
    (first : shorter <+: source) (second : longer <+: source)
    (fewer : utf8Length shorter ≤ utf8Length longer) : shorter <+: longer := by
  rcases prefix_or_prefix_of_prefix first second with done | ⟨more, rfl⟩
  · exact done
  · cases more with
    | nil =>
      simp only [append_nil, prefix_rfl]
    | cons character rest =>
      have further := utf8Length_pos (cons_ne_nil character rest)
      rw [utf8Length_append] at fewer
      omega

theorem utf16Before_append (text rest : List Char) :
    utf16Before (text ++ rest) (utf8Length text) = utf16Length text := by
  induction text with
  | nil => cases rest <;> simp [utf16Before, utf8Length, utf16Length]
  | cons character text induction =>
    have positive := character.utf8Size_pos
    have someBytes : character.utf8Size + utf8Length text ≠ 0 := by omega
    rw [cons_append, utf8Length, utf16Before, if_neg someBytes, Nat.add_sub_cancel_left,
      induction, utf16Length]

end Text

namespace Position

/-- The position behind one more character. -/
def advance (position : Position) (character : Char) : Position :=
  if character = '\n' then ⟨position.line + 1, 0⟩
  else ⟨position.line, position.column + Text.utf16Size character⟩

/-- The position behind a text that a source begins with. -/
def after (text : List Char) : Position := text.foldl advance ⟨1, 0⟩

theorem after_append (before middle : List Char) :
    after (before ++ middle) = middle.foldl advance (after before) :=
  foldl_append

/-- Without a line break only the column grows. -/
theorem foldl_advance {text : List Char} (oneLine : '\n' ∉ text) (start : Position) :
    text.foldl advance start = ⟨start.line, start.column + Text.utf16Length text⟩ := by
  induction text generalizing start with
  | nil => rfl
  | cons character rest induction =>
    rw [mem_cons, not_or] at oneLine
    rw [foldl_cons, induction oneLine.2, advance, if_neg (Ne.symm oneLine.1),
      Text.utf16Length, Nat.add_assoc]

theorem line_le_foldl_advance (text : List Char) (start : Position) :
    start.line ≤ (text.foldl advance start).line := by
  induction text generalizing start with
  | nil => exact Nat.le_refl _
  | cons character rest induction =>
    refine Nat.le_trans ?_ (induction (start.advance character))
    rw [advance]
    split
    · exact Nat.le_succ _
    · exact Nat.le_refl _

theorem line_lt_foldl_advance {text : List Char} (broken : '\n' ∈ text)
    (start : Position) : start.line < (text.foldl advance start).line := by
  induction text generalizing start with
  | nil => cases broken
  | cons character rest induction =>
    rcases mem_cons.mp broken with rfl | later
    · exact line_le_foldl_advance rest (start.advance '\n')
    · exact Nat.lt_of_le_of_lt (line_le_foldl_advance [character] start)
        (induction later _)

/-- Between two places of one line there is no line break, and their columns differ by the
text between them. -/
theorem after_append_of_line_eq {before middle : List Char}
    (sameLine : (after (before ++ middle)).line = (after before).line) :
    '\n' ∉ middle ∧ (after (before ++ middle)).column = (after before).column +
      Text.utf16Length middle := by
  rw [after_append] at sameLine ⊢
  have oneLine : '\n' ∉ middle := by
    intro broken
    exact Nat.ne_of_gt (line_lt_foldl_advance broken _) sameLine
  rw [foldl_advance oneLine]
  exact ⟨oneLine, rfl⟩

end Position

namespace LineIndex

theorem split_break (offset : Nat) (text : List Char) : split offset ('\n' :: text) =
      ([], ⟨offset + 1, (split (offset + 1) text).1⟩ :: (split (offset + 1) text).2) :=
  rfl

theorem split_of_ne {character : Char} (other : character ≠ '\n') (offset : Nat)
    (text : List Char) :
    split offset (character :: text) =
        (character :: (split (offset + character.utf8Size) text).1,
        (split (offset + character.utf8Size) text).2) := by
  simp only [split, if_neg other]

/-- Lines behind the first begin behind its start. -/
theorem lt_start_of_split {offset : Nat} {text : List Char} {line : Line}
    (member : line ∈ (split offset text).2) : offset < line.start := by
  induction text generalizing offset with
  | nil => cases member
  | cons character text induction =>
    by_cases isBreak : character = '\n'
    · subst isBreak
      rw [split_break] at member
      rcases mem_cons.mp member with rfl | later
      · exact Nat.lt_succ_self offset
      · exact Nat.lt_of_le_of_lt (Nat.le_add_right ..) (induction later)
    · rw [split_of_ne isBreak] at member
      exact Nat.lt_of_le_of_lt (Nat.le_add_right ..) (induction member)

theorem lineAt_of_first {offset number : Nat} {line : Line} {following : List Line}
    (behind : ∀ next ∈ following, offset < next.start) :
    lineAt offset number line following = (number, line) := by
  cases following with
  | nil => rfl
  | cons next rest =>
    have later := behind next (mem_cons_self ..)
    rw [lineAt, if_neg (Nat.not_le_of_lt later)]

/-- Looking up the end of `before`, when `front` is the part of the current line in
front of it. -/
theorem lookUp_append (before behind front : List Char) (start number : Nat) :
    let offset := start + Text.utf8Length front
    let lines := split offset (before ++ behind)
    let target := offset + Text.utf8Length before
    let found := lineAt target number ⟨start, front ++ lines.1⟩ lines.2
    Position.mk found.1 (Text.utf16Before found.2.text (target - found.2.start)) =
      before.foldl Position.advance ⟨number, Text.utf16Length front⟩ := by
  induction before generalizing front start number with
  | nil =>
    intro offset lines target found
    have here : found = (number, ⟨start, front ++ lines.1⟩) :=
      lineAt_of_first fun next member => lt_start_of_split member
    have distance : target - start = Text.utf8Length front := by
      change start + Text.utf8Length front - start = _
      omega
    rw [here]
    dsimp only
    rw [distance, Text.utf16Before_append]
    rfl
  | cons character before induction =>
    intro offset lines target found
    have targetEqual : target = offset + character.utf8Size + Text.utf8Length before := by
      simp only [target, Text.utf8Length]
      omega
    by_cases isBreak : character = '\n'
    · subst isBreak
      have reached : offset + 1 ≤ target := by
        have size : '\n'.utf8Size = 1 := rfl
        omega
      have next : found = lineAt target (number + 1)
          ⟨offset + 1, (split (offset + 1) (before ++ behind)).1⟩
          (split (offset + 1) (before ++ behind)).2 := by
        simp only [found, lines, cons_append, split_break, lineAt, if_pos reached]
      rw [next, targetEqual]
      exact induction [] (offset + 1) (number + 1)
    · have extended : offset + character.utf8Size =
          start + Text.utf8Length (front ++ [character]) := by
        simp only [offset, Text.utf8Length_append, Text.utf8Length]
        omega
      have same : found = lineAt target number
          ⟨start, front ++ [character] ++ (split (offset + character.utf8Size)
            (before ++ behind)).1⟩
              (split (offset + character.utf8Size) (before ++ behind)).2 := by
        simp only [found, lines, cons_append, split_of_ne isBreak,
          append_assoc, nil_append]
      have step : (Position.mk number (Text.utf16Length front)).advance character =
          ⟨number, Text.utf16Length (front ++ [character])⟩ := by
        rw [Position.advance, if_neg isBreak, Text.utf16Length_append]
        rfl
      rw [same, targetEqual, extended, foldl_cons, step]
      exact induction (front ++ [character]) start number

theorem position_ofText (before behind : List Char) :
    (ofText (before ++ behind)).position (Text.utf8Length before) =
      Position.after before := by
  have within : min (Text.utf8Length before) (Text.utf8Length (before ++ behind)) =
      Text.utf8Length before := by
    rw [Text.utf8Length_append]
    exact Nat.min_eq_left (Nat.le_add_right ..)
  have found := lookUp_append before behind [] 0 1
  simp only [Text.utf8Length, Nat.zero_add, Nat.add_zero, nil_append,
    Text.utf16Length] at found
  rw [Position.after, ← found, ofText, position]
  dsimp only
  rw [within]

end LineIndex

end GrammarInspector
