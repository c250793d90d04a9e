import Mathlib.Data.List.TakeWhile
import GrammarInspector.Text.Blank
import GrammarInspector.Text.Integer
import GrammarInspector.Text.Lines
import GrammarInspector.Text.Replace

/-! # Cutting texts

What is left of a text without the white space around it, the two sides of its last mark,
the lines that it consists of, and the numbers that texts write.
-/

namespace GrammarInspector.Text

open List

variable {text blank line digits : List Char} {parts : List (List Char)} {value : Int}

/-! ## White space at the ends -/

/-- Whether a text is nothing but white space. -/
def AllBlank (text : List Char) : Prop :=
  ∀ character ∈ text, isWhiteSpace character = true

theorem trimEnd_append (allBlank : AllBlank blank) :
    trimEnd (text ++ blank) = trimEnd text := by
  have reversed : ∀ character ∈ blank.reverse, isWhiteSpace character = true :=
    fun character member => allBlank character (mem_reverse.mp member)
  rw [trimEnd, trimEnd, reverse_append, dropWhile_append_of_pos reversed]

theorem exists_trimEnd (text : List Char) :
    ∃ tail, text = trimEnd text ++ tail ∧ AllBlank tail := by
  refine ⟨(text.reverse.takeWhile isWhiteSpace).reverse, ?_, fun character member => ?_⟩
  · rw [trimEnd, ← reverse_append, takeWhile_append_dropWhile, reverse_reverse]
  · exact mem_takeWhile_imp (mem_reverse.mp member)

/-- White space behind a text does not matter. -/
theorem trim_append (allBlank : AllBlank blank) : trim (text ++ blank) = trim text := by
  rw [trim, trim, dropWhile_append]
  split
  · next nothing =>
    have noText : text.dropWhile isWhiteSpace = [] := isEmpty_iff.mp nothing
    rw [noText, ← nil_append (blank.dropWhile isWhiteSpace), trimEnd_append]
    exact fun character member => allBlank character ((dropWhile_suffix _).subset member)
  · exact trimEnd_append allBlank

/-- A text is what is left of it with white space on both sides. -/
theorem exists_trim (text : List Char) :
    ∃ lead tail, text = lead ++ (trim text ++ tail) ∧ AllBlank lead ∧ AllBlank tail := by
  obtain ⟨tail, equal, tailBlank⟩ := exists_trimEnd (text.dropWhile isWhiteSpace)
  refine ⟨text.takeWhile isWhiteSpace, tail, ?_, fun _ => mem_takeWhile_imp, tailBlank⟩
  rw [trim, ← equal, takeWhile_append_dropWhile]

/-- Nothing is taken off a text that has no white space at its ends. -/
theorem trim_eq_self
    (head : ∀ first, text.head? = some first → isWhiteSpace first = false)
    (last : ∀ final, text.getLast? = some final → isWhiteSpace final = false) :
    trim text = text := by
  have front : text.dropWhile isWhiteSpace = text := by
    cases text with
    | nil => rfl
    | cons first rest => rw [dropWhile_cons_of_neg (by simp [head first rfl])]
  have back : text.reverse.dropWhile isWhiteSpace = text.reverse := by
    cases reversed : text.reverse with
    | nil => rfl
    | cons final rest =>
      have isFinal : text.getLast? = some final := by
        rw [← head?_reverse, reversed]
        rfl
      rw [dropWhile_cons_of_neg (by simp [last final isFinal])]
  rw [trim, front, trimEnd, back, reverse_reverse]

/-! ## The last mark -/

variable {mark : Char} {front behind : List Char}

theorem cutLast?_eq_none_iff : cutLast? mark text = none ↔ mark ∉ text := by
  induction text with
  | nil => simp [cutLast?]
  | cons character rest induction =>
    rw [cutLast?, mem_cons, not_or]
    split
    · next found => simp [← induction, found]
    · next notFound =>
      rw [← induction]
      by_cases isMark : character = mark
      · simp [isMark]
      · simp [isMark, Ne.symm isMark, notFound]

theorem cutLast?_append (notBehind : mark ∉ behind) :
    cutLast? mark (front ++ mark :: behind) = some (front, behind) := by
  induction front with
  | nil => rw [nil_append, cutLast?, cutLast?_eq_none_iff.mpr notBehind, if_pos rfl]
  | cons character rest induction => rw [cons_append, cutLast?, induction]

theorem eq_of_cutLast? (found : cutLast? mark text = some (front, behind)) :
    text = front ++ mark :: behind ∧ mark ∉ behind := by
  induction text generalizing front with
  | nil => cases found
  | cons character rest induction =>
    rw [cutLast?] at found
    split at found
    · next before after later =>
      cases found
      obtain ⟨equal, notBehind⟩ := induction later
      exact ⟨congrArg (character :: ·) equal, notBehind⟩
    · next notLater =>
      split at found
      · next isMark =>
        cases found
        exact ⟨by rw [isMark, nil_append], cutLast?_eq_none_iff.mp notLater⟩
      · cases found

/-! ## Lines -/

/-- How a text consists of lines. A line feed ends a line, perhaps with a carriage return
in front of it; the last line may lack an end. -/
inductive Consists : List Char → List (List Char) → Prop
  | nothing : Consists [] []
  | unended {line : List Char} (nonempty : line ≠ []) (oneLine : '\n' ∉ line) :
      Consists line [line]
  | feed {line rest : List Char} {lines : List (List Char)} (oneLine : '\n' ∉ line)
      (behind : Consists rest lines) : Consists (line ++ '\n' :: rest) (line :: lines)
  | returnFeed {line rest : List Char} {lines : List (List Char)} (oneLine : '\n' ∉ line)
      (behind : Consists rest lines) :
        Consists (line ++ '\r' :: '\n' :: rest) (line :: lines)

theorem pieces_ne_nil (text : List Char) : pieces text ≠ [] := by
  cases text with
  | nil => simp [pieces]
  | cons character rest =>
    rw [pieces]
    split
    · simp
    · split
      · simp
      · simp

theorem pieces_of_not_mem (oneLine : '\n' ∉ line) : pieces line = [line] := by
  induction line with
  | nil => rfl
  | cons character rest induction =>
    rw [mem_cons, not_or] at oneLine
    rw [pieces, induction oneLine.2]
    exact if_neg (Ne.symm oneLine.1)

theorem pieces_append (oneLine : '\n' ∉ line) (rest : List Char) :
    pieces (line ++ '\n' :: rest) = line :: pieces rest := by
  induction line with
  | nil =>
    obtain ⟨piece, others, equal⟩ := exists_cons_of_ne_nil (pieces_ne_nil rest)
    rw [nil_append, pieces, equal]
    exact if_pos rfl
  | cons character line induction =>
    rw [mem_cons, not_or] at oneLine
    rw [cons_append, pieces, induction oneLine.2]
    exact if_neg (Ne.symm oneLine.1)

theorem lines_append (oneLine : '\n' ∉ line) (rest : List Char) :
    lines (line ++ '\n' :: rest) = dropReturn line :: lines rest := by
  rw [lines, pieces_append oneLine, lines]
  obtain ⟨piece, others, equal⟩ := exists_cons_of_ne_nil (pieces_ne_nil rest)
  rw [equal, linesOfPieces]
  exact cons_ne_nil _ _

theorem trim_dropReturn (line : List Char) : trim (dropReturn line) = trim line := by
  unfold dropReturn
  split
  · next isReturn =>
    obtain ⟨front, rfl⟩ := getLast?_eq_some_iff.mp isReturn
    have blank : AllBlank ['\r'] := forall_mem_singleton.mpr rfl
    rw [dropLast_concat, trim_append blank]
  · rfl

theorem consists_flatMap (oneLine : ∀ line ∈ parts, '\n' ∉ line) :
    Consists (parts.flatMap (· ++ ['\n'])) parts := by
  induction parts with
  | nil => exact .nothing
  | cons line rest induction =>
    rw [forall_mem_cons] at oneLine
    rw [flatMap_cons, append_assoc]
    exact .feed oneLine.1 (induction oneLine.2)

/-- Up to white space at their ends, the lines of a text are those that it consists of. -/
theorem Consists.map_trim_lines (consists : Consists text parts) :
    (lines text).map trim = parts.map trim := by
  induction consists with
  | nothing => rfl
  | unended nonempty oneLine =>
    have someText : ¬List.isEmpty _ = true := mt isEmpty_iff.mp nonempty
    rw [lines, pieces_of_not_mem oneLine, linesOfPieces, if_neg someText]
  | feed oneLine _ induction =>
    rw [lines_append oneLine, map_cons, trim_dropReturn, induction, map_cons]
  | @returnFeed line rest parts oneLine _ induction =>
    have noFeed : '\n' ∉ line ++ ['\r'] := by simpa using oneLine
    have blank : AllBlank ['\r'] := forall_mem_singleton.mpr rfl
    rw [append_cons, lines_append noFeed, map_cons, trim_dropReturn,
      trim_append blank, induction, map_cons]

/-! ## Numbers -/

/-- How decimal digits, with at most one sign in front of them, write a number. -/
inductive Writes : List Char → Int → Prop
  | plain {digits : List Char} (nonempty : digits ≠ []) (areDigits : ∀ digit ∈ digits,
      digit.isDigit = true) :
      Writes digits (Nat.ofDigitChars 10 digits 0)
  | plus {digits : List Char} (nonempty : digits ≠ []) (areDigits : ∀ digit ∈ digits,
      digit.isDigit = true) :
      Writes ('+' :: digits) (Nat.ofDigitChars 10 digits 0)
  | minus {digits : List Char} (nonempty : digits ≠ []) (areDigits : ∀ digit ∈ digits,
      digit.isDigit = true) :
      Writes ('-' :: digits) (-Nat.ofDigitChars 10 digits 0)

/-- Whether a number fits into 32 bits, one of them for the sign. -/
def Fits32 (value : Int) : Prop := -2147483648 ≤ value ∧ value < 2147483648

instance (value : Int) : Decidable (Fits32 value) := inferInstanceAs (Decidable (_ ∧ _))

theorem digitsFrom_eq_some_iff {start value : Nat} :
    digitsFrom start digits = some value ↔
      (∀ digit ∈ digits, digit.isDigit = true) ∧
      value = Nat.ofDigitChars 10 digits start := by
  induction digits generalizing start with
  | nil => simpa [digitsFrom] using eq_comm
  | cons digit rest induction =>
    rw [digitsFrom, Nat.ofDigitChars_cons, forall_mem_cons, Nat.mul_comm start]
    split
    · next isDigit => simp [induction, isDigit]
    · next notDigit => simp [notDigit]

theorem natural?_eq_some_iff {value : Nat} : natural? digits = some value ↔
    digits ≠ [] ∧ (∀ digit ∈ digits, digit.isDigit = true) ∧
    value = Nat.ofDigitChars 10 digits 0 := by
  cases digits with
  | nil => simp [natural?]
  | cons digit rest => simp [natural?, digitsFrom_eq_some_iff]

theorem map_natural?_eq_some_iff (signed : Nat → Int) :
    (natural? digits).map signed = some value ↔ digits ≠ [] ∧
        (∀ digit ∈ digits, digit.isDigit = true) ∧
        signed (Nat.ofDigitChars 10 digits 0) = value := by
  rw [Option.map_eq_some_iff]
  constructor
  · rintro ⟨number, read, rfl⟩
    obtain ⟨nonempty, areDigits, rfl⟩ := natural?_eq_some_iff.mp read
    exact ⟨nonempty, areDigits, rfl⟩
  · rintro ⟨nonempty, areDigits, rfl⟩
    exact ⟨_, natural?_eq_some_iff.mpr ⟨nonempty, areDigits, rfl⟩, rfl⟩

/-- A text is read as the number that it writes, if that fits into 32 bits. -/
theorem integer32?_eq_some_iff :
    integer32? text = some value ↔ Writes text value ∧ Fits32 value := by
  have fits : (-Int.pow 2 31 ≤ value && value < Int.pow 2 31) = true ↔ Fits32 value := by
    rw [Bool.and_eq_true, decide_eq_true_eq, decide_eq_true_eq]
    exact Iff.rfl
  unfold integer32?
  rw [Option.filter_eq_some_iff, fits]
  refine and_congr_left fun _ => ?_
  constructor
  · intro read
    split at read
    · obtain ⟨nonempty, areDigits, rfl⟩ := (map_natural?_eq_some_iff _).mp read
      exact .plus nonempty areDigits
    · obtain ⟨nonempty, areDigits, rfl⟩ := (map_natural?_eq_some_iff _).mp read
      exact .minus nonempty areDigits
    · obtain ⟨nonempty, areDigits, rfl⟩ := (map_natural?_eq_some_iff _).mp read
      exact .plain nonempty areDigits
  · intro writes
    cases writes with
    | plain nonempty areDigits =>
      split
      · next digits => exact absurd (areDigits '+' mem_cons_self) (by decide)
      · next digits => exact absurd (areDigits '-' mem_cons_self) (by decide)
      · exact (map_natural?_eq_some_iff _).mpr ⟨nonempty, areDigits, rfl⟩
    | plus nonempty areDigits =>
      exact (map_natural?_eq_some_iff _).mpr ⟨nonempty, areDigits, rfl⟩
    | minus nonempty areDigits =>
      exact (map_natural?_eq_some_iff _).mpr ⟨nonempty, areDigits, rfl⟩

theorem Writes.nonempty (writes : Writes text value) : text ≠ [] := by
  cases writes with
  | plain nonempty _ => exact nonempty
  | plus | minus => exact cons_ne_nil _ _

/-- Numbers are written without white space. -/
theorem Writes.visible (writes : Writes text value) {character : Char}
    (member : character ∈ text) : isWhiteSpace character = false := by
  have digit (isDigit : character.isDigit = true) : isWhiteSpace character = false := by
    have bounds : 48 ≤ character.toNat ∧ character.toNat ≤ 57 := by
      simpa [Char.isDigit, UInt32.le_iff_toNat_le] using isDigit
    rw [isWhiteSpace, whiteSpaceCodes, Stretches.contains, if_neg (by omega),
      if_neg (by omega), Stretches.contains,
      if_neg (by omega), if_neg (by omega), Stretches.contains, if_pos (by omega)]
  cases writes with
  | plain _ areDigits => exact digit (areDigits character member)
  | plus _ areDigits | minus _ areDigits =>
    rcases mem_cons.mp member with rfl | member
    · decide
    · exact digit (areDigits character member)

theorem Writes.trim_eq_self (writes : Writes text value) : trim text = text :=
  Text.trim_eq_self (fun _ isFirst => writes.visible (mem_of_head? isFirst))
    fun _ isFinal => writes.visible (mem_of_getLast? isFinal)

theorem Writes.not_mem (writes : Writes text value) : '=' ∉ text := by
  intro member
  cases writes with
  | plain _ areDigits => exact absurd (areDigits '=' member) (by decide)
  | plus _ areDigits | minus _ areDigits =>
    exact absurd (areDigits '=' (mem_of_ne_of_mem (by decide) member)) (by decide)

theorem writes_toString (value : Int) : Writes (toString value).toList value := by
  have areDigits (number : Nat) : ∀ digit ∈ Nat.toDigits 10 number,
      digit.isDigit = true :=
    fun _ member => Nat.isDigit_of_mem_toDigits (by decide) (by decide) member
  rw [Int.toString_eq_repr]
  cases value with
  | ofNat number =>
    have writes := Writes.plain Nat.toDigits_ne_nil (areDigits number)
    rwa [Nat.ofDigitChars_ten_toDigits, ← Nat.toList_repr] at writes
  | negSucc number =>
    have writes := Writes.minus Nat.toDigits_ne_nil (areDigits number.succ)
    rw [Nat.ofDigitChars_ten_toDigits, ← Nat.toList_repr] at writes
    rwa [Int.repr, String.toList_append]

end GrammarInspector.Text
