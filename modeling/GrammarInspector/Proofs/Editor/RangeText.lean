import GrammarInspector.Editor.Range
import GrammarInspector.Proofs.Text.Position

/-! # The text of a range

The places of a range and the characters of a source that begin there. A range that begins
at some text without a line break and is as long as that text holds this text and nothing
else.
-/

namespace GrammarInspector

open List

open Position (advance after)

namespace Position

/-- Whether a position comes before another one. -/
def Before (left right : Position) : Prop :=
  left.line < right.line ∨ left.line = right.line ∧ left.column < right.column

instance (left right : Position) : Decidable (left.Before right) :=
  inferInstanceAs (Decidable (_ ∨ _))

theorem Before.trans {first second third : Position} (left : first.Before second)
    (right : second.Before third) : first.Before third := by
  unfold Before at *
  omega

theorem not_before_self (position : Position) : ¬position.Before position := by
  unfold Before
  omega

theorem before_advance (position : Position) (character : Char) :
    position.Before (position.advance character) := by
  rw [advance]
  split
  · exact Or.inl (Nat.lt_succ_self _)
  · refine Or.inr ⟨rfl, ?_⟩
    have positive : 0 < Text.utf16Size character := by
      unfold Text.utf16Size
      split <;> omega
    exact Nat.lt_add_of_pos_right positive

theorem Before.foldl_advance {position start : Position} (before : position.Before start)
    (text : List Char) : position.Before (text.foldl advance start) := by
  induction text generalizing start with
  | nil => exact before
  | cons character text induction =>
      exact induction (before.trans (start.before_advance character))

/-- The characters of a text with their positions, the first one being at `start`. -/
def ofCharacters (start : Position) : List Char → List (Position × Char)
  | [] => []
  | character :: rest => (start, character) :: ofCharacters (start.advance character) rest

theorem ofCharacters_append (start : Position) (text rest : List Char) :
    ofCharacters start (text ++ rest) =
      ofCharacters start text ++ ofCharacters (text.foldl advance start) rest := by
  induction text generalizing start with
  | nil => rfl
  | cons character text induction =>
    exact congrArg ((start, character) :: ·) (induction (start.advance character))

theorem map_ofCharacters (start : Position) (text : List Char) :
    (ofCharacters start text).map (·.2) = text := by
  induction text generalizing start with
  | nil => rfl
  | cons character text induction =>
    exact congrArg (character :: ·) (induction (start.advance character))

/-- Characters lie between the positions where their text begins and ends. -/
theorem bounds_of_mem {start : Position} {text : List Char} {entry : Position × Char}
    (member : entry ∈ ofCharacters start text) :
    ¬entry.1.Before start ∧ entry.1.Before (text.foldl advance start) := by
  induction text generalizing start with
  | nil => cases member
  | cons character text induction =>
    have step := start.before_advance character
    rcases mem_cons.mp member with rfl | later
    · exact ⟨not_before_self start, step.foldl_advance text⟩
    · obtain ⟨notBefore, before⟩ := induction later
      exact ⟨fun early => notBefore (early.trans step), before⟩

theorem one_le_line_after (text : List Char) : 1 ≤ (after text).line :=
  line_le_foldl_advance text ⟨1, 0⟩

end Position

namespace Editor

theorem Place.toPosition_ofPosition {position : Position} (counted : 1 ≤ position.line) :
    (Place.ofPosition position).toPosition = position := by
  rw [ofPosition, toPosition, Nat.sub_add_cancel counted]

namespace Range

/-- Whether a position lies in a range, the end of which does not count. -/
def Contains (range : Range) (position : Position) : Prop :=
  ¬position.Before range.start.toPosition ∧ position.Before range.stop.toPosition

instance (range : Range) (position : Position) : Decidable (range.Contains position) :=
  inferInstanceAs (Decidable (_ ∧ _))

/-- The text that a range covers: the characters of the source that begin there. -/
def textIn (source : List Char) (range : Range) : List Char :=
  ((Position.ofCharacters ⟨1, 0⟩ source).filter fun entry =>
    range.Contains entry.1).map (·.2)

/-- A range on one line contains the places of that line between its ends. -/
theorem contains_ofLength_iff {position other : Position} {length : Nat}
    (counted : 1 ≤ position.line) :
    (ofLength position length).Contains other ↔ other.line = position.line ∧
      position.column ≤ other.column ∧ other.column < position.column + length := by
  have line : position.line - 1 + 1 = position.line := Nat.sub_add_cancel counted
  simp only [Contains, ofLength, Place.ofPosition, Place.toPosition,
    Position.Before, line]
  omega

/-- The range of some text on one line covers exactly this text. -/
theorem textIn_ofLength (before text behind : List Char) (oneLine : '\n' ∉ text) :
    textIn (before ++ (text ++ behind))
      (ofLength (after before) (Text.utf16Length text)) = text := by
  have counted := Position.one_le_line_after before
  have stop : text.foldl advance (after before) =
      ⟨(after before).line, (after before).column + Text.utf16Length text⟩ :=
    Position.foldl_advance oneLine _
  have contains (position : Position) :
      (ofLength (after before) (Text.utf16Length text)).Contains position ↔
        ¬position.Before (after before) ∧
          position.Before (text.foldl advance (after before)) := by
    rw [contains_ofLength_iff counted, stop]
    unfold Position.Before
    dsimp only
    omega
  have split : Position.ofCharacters ⟨1, 0⟩ (before ++ (text ++ behind)) =
      Position.ofCharacters ⟨1, 0⟩ before ++ (Position.ofCharacters (after before) text ++
        Position.ofCharacters (text.foldl advance (after before)) behind) := by
    rw [Position.ofCharacters_append, Position.ofCharacters_append]
    rfl
  let inside (entry : Position × Char) : Bool :=
    (ofLength (after before) (Text.utf16Length text)).Contains entry.1
  have noneBefore : (Position.ofCharacters ⟨1, 0⟩ before).filter inside = [] := by
    refine filter_eq_nil_iff.mpr fun entry member holds => ?_
    exact ((contains _).mp (of_decide_eq_true holds)).1 (Position.bounds_of_mem member).2
  have allWithin : (Position.ofCharacters (after before) text).filter inside =
      Position.ofCharacters (after before) text := by
    refine filter_eq_self.mpr fun entry member => ?_
    exact decide_eq_true ((contains _).mpr (Position.bounds_of_mem member))
  have noneBehind : (Position.ofCharacters (text.foldl advance (after before))
      behind).filter inside = [] := by
    refine filter_eq_nil_iff.mpr fun entry member holds => ?_
    exact (Position.bounds_of_mem member).1 ((contains _).mp (of_decide_eq_true holds)).2
  calc
    textIn (before ++ (text ++ behind)) (ofLength (after before) (Text.utf16Length text))
    _ = ((Position.ofCharacters ⟨1, 0⟩ (before ++ (text ++ behind))).filter
          inside).map (·.2) := rfl
    _ = (Position.ofCharacters (after before) text).map (·.2) := by
        rw [split, filter_append, filter_append, noneBefore, allWithin, noneBehind,
          append_nil, nil_append]
    _ = text := Position.map_ofCharacters _ _

end Range

end Editor

end GrammarInspector
