import GrammarInspector.Message.Report
import GrammarInspector.Proofs.Token.Slices

/-! # Positions by counting bytes

The line of an offset is one more than the number of line feeds among the bytes in front
of it, and its column is the UTF-16 length of the text behind the last of them. Positions
grow with their offsets, so that no two places between characters share one.
-/

namespace GrammarInspector

open List

namespace Text

variable {span : Span} {line front : List Char} {start : Nat}

/-- The bytes of a source in UTF-8. -/
def bytes (source : String) : List UInt8 := source.toUTF8.data.toList

/-- The byte that ends a line. -/
def lineFeed : UInt8 := 10

/-- The position of an offset by counting: line feeds for the line, and for the column the
UTF-16 units of the text from behind the last line feed up to the offset. An offset beyond
the source counts as its end. -/
def countedPosition (source : String) (offset : Nat) : Position :=
  let before := (bytes source).take offset
  let line := before.reverse.takeWhile (· ≠ lineFeed)
  let start := before.length - line.length
  ⟨1 + before.count lineFeed, utf16Length (slice ⟨start, before.length⟩ 0 source.toList)⟩

/-! ## Bytes of characters -/

theorem bytes_ofList (text : List Char) :
    bytes (String.ofList text) = text.flatMap String.utf8EncodeChar := by
  simp [bytes, List.utf8Encode]

theorem length_flatMap_utf8EncodeChar (text : List Char) :
    (text.flatMap String.utf8EncodeChar).length = utf8Length text := by
  induction text with
  | nil => rfl
  | cons character text induction =>
    rw [flatMap_cons, length_append, String.length_utf8EncodeChar, induction, utf8Length]

/-- A byte with its highest bit set is no line feed. -/
theorem ofNat_ne_lineFeed {value modulus base : Nat} (positive : 0 < modulus)
    (high : 0x80 ≤ base) (fits : modulus + base ≤ 0x100) :
    UInt8.ofNat (value % modulus + base) ≠ lineFeed := by
  intro equal
  have byte : value % modulus + base < UInt8.size :=
    Nat.lt_of_lt_of_le (Nat.add_lt_add_right (Nat.mod_lt value positive) base) fits
  have same := congrArg UInt8.toNat equal
  rw [UInt8.toNat_ofNat_of_lt' byte] at same
  have small : lineFeed.toNat = 10 := rfl
  omega

/-- Only a line break has the byte of a line feed. -/
theorem lineFeed_mem_iff (character : Char) :
    lineFeed ∈ String.utf8EncodeChar character ↔ character = '\n' := by
  constructor
  · intro member
    unfold String.utf8EncodeChar at member
    dsimp only at member
    -- Beyond ASCII, every byte is a remainder on top of at least 128.
    split at member
    · next ascii =>
      have same := congrArg UInt8.toNat (mem_singleton.mp member)
      rw [UInt8.toNat_ofNat_of_lt' (Nat.lt_of_le_of_lt ascii (by decide))] at same
      exact Char.ext (UInt32.toNat_inj.mp same.symm)
    · have high {value modulus base : Nat} (positive : 0 < modulus) (high : 0x80 ≤ base)
          (fits : modulus + base ≤ 0x100)
          (equal : lineFeed = UInt8.ofNat (value % modulus + base)) : character = '\n' :=
        absurd equal.symm (ofNat_ne_lineFeed positive high fits)
      split at member
      · simp only [mem_cons, not_mem_nil, or_false] at member
        rcases member with equal | equal
        · exact high (by decide) (by decide) (by decide) equal
        · exact high (by decide) (by decide) (by decide) equal
      · split at member
        · simp only [mem_cons, not_mem_nil, or_false] at member
          rcases member with equal | equal | equal
          all_goals exact high (by decide) (by decide) (by decide) equal
        · simp only [mem_cons, not_mem_nil, or_false] at member
          rcases member with equal | equal | equal | equal
          all_goals exact high (by decide) (by decide) (by decide) equal
  · rintro rfl
    decide

theorem count_lineFeed (text : List Char) :
    (text.flatMap String.utf8EncodeChar).count lineFeed = text.count '\n' := by
  induction text with
  | nil => rfl
  | cons character text induction =>
    rw [flatMap_cons, count_append, induction, count_cons, Nat.add_comm]
    by_cases isBreak : character = '\n'
    · subst isBreak
      rfl
    · have none : lineFeed ∉ String.utf8EncodeChar character := by rwa [lineFeed_mem_iff]
      rw [count_eq_zero_of_not_mem none, if_neg (by simpa using isBreak)]

theorem lineFeed_not_mem {text : List Char} (oneLine : '\n' ∉ text) :
    ∀ byte ∈ text.flatMap String.utf8EncodeChar, byte ≠ lineFeed := by
  rintro byte member rfl
  obtain ⟨character, inside, isByte⟩ := mem_flatMap.mp member
  exact oneLine ((lineFeed_mem_iff character).mp isByte ▸ inside)

/-! ## The last line -/

/-- What stands behind the last line break of a text, and what stands in front of it. -/
theorem exists_lastLine (text : List Char) :
    ∃ front line, text = front ++ line ∧ '\n' ∉ line ∧
    (front = [] ∨ ∃ more, front = more ++ ['\n']) := by
  induction text with
  | nil => exact ⟨[], [], rfl, not_mem_nil, Or.inl rfl⟩
  | cons character text induction =>
    obtain ⟨front, line, rfl, oneLine, ends⟩ := induction
    rcases ends with rfl | ⟨more, rfl⟩
    · by_cases isBreak : character = '\n'
      · exact ⟨['\n'], line, by rw [isBreak]; rfl, oneLine, Or.inr ⟨[], rfl⟩⟩
      · refine ⟨[], character :: line, rfl, ?_, Or.inl rfl⟩
        rw [mem_cons, not_or]
        exact ⟨Ne.symm isBreak, oneLine⟩
    · exact ⟨character :: (more ++ ['\n']), line, rfl, oneLine,
        Or.inr ⟨character :: more, rfl⟩⟩

theorem slice_of_begun (begun : span.start ≤ start)
    (stop_eq : span.stop = start + utf8Length line) (behind : List Char) :
    slice span start (line ++ behind) = line := by
  induction line generalizing start with
  | nil =>
    rw [utf8Length, Nat.add_zero] at stop_eq
    cases behind with
    | nil => rfl
    | cons character behind => rw [nil_append, slice, if_pos (Nat.le_of_eq stop_eq)]
  | cons character line induction =>
    have positive := character.utf8Size_pos
    rw [utf8Length] at stop_eq
    rw [cons_append, slice, if_neg (by omega), if_neg (by omega),
      induction (by omega) (by omega)]

/-- A slice between characters is the text there. -/
theorem slice_append (start_eq : span.start = start + utf8Length front)
    (stop_eq : span.stop = span.start + utf8Length line) (behind : List Char) :
    slice span start (front ++ (line ++ behind)) = line := by
  induction front generalizing start with
  | nil =>
    rw [utf8Length, Nat.add_zero] at start_eq
    exact slice_of_begun (Nat.le_of_eq start_eq) (start_eq ▸ stop_eq) behind
  | cons character front induction =>
    have positive := character.utf8Size_pos
    rw [utf8Length] at start_eq
    rw [cons_append, slice, if_neg (by omega), if_pos (by omega), induction (by omega)]

/-- The bytes behind the last line feed are those of the last line. -/
theorem takeWhile_ne_lineFeed (oneLine : '\n' ∉ line)
    (ends : front = [] ∨ ∃ more, front = more ++ ['\n']) :
    ((front ++ line).flatMap String.utf8EncodeChar).reverse.takeWhile (· ≠ lineFeed) =
      (line.flatMap String.utf8EncodeChar).reverse := by
  rw [flatMap_append, reverse_append, takeWhile_append_of_pos]
  · rcases ends with rfl | ⟨more, rfl⟩
    · exact append_nil _
    · rw [flatMap_append, reverse_append]
      exact append_nil _
  · intro byte member
    simpa using lineFeed_not_mem oneLine byte (mem_reverse.mp member)

/-- Counting up to the end of a line that the source has behind some text. -/
theorem countedPosition_append (oneLine : '\n' ∉ line)
    (ends : front = [] ∨ ∃ more, front = more ++ ['\n']) (behind : List Char) :
    countedPosition (String.ofList (front ++ line ++ behind))
      (utf8Length (front ++ line)) = ⟨1 + front.count '\n', utf16Length line⟩ := by
  have before : (bytes (String.ofList (front ++ line ++ behind))).take
      (utf8Length (front ++ line)) = (front ++ line).flatMap String.utf8EncodeChar := by
    rw [bytes_ofList, flatMap_append, ← length_flatMap_utf8EncodeChar, take_left]
  unfold countedPosition
  dsimp only
  rw [before, takeWhile_ne_lineFeed oneLine ends, length_reverse]
  simp only [length_flatMap_utf8EncodeChar]
  rw [count_lineFeed, count_append, count_eq_zero_of_not_mem oneLine, Nat.add_zero,
    String.toList_ofList, append_assoc, slice_append]
  · rw [utf8Length_append, Nat.add_sub_cancel, Nat.zero_add]
  · rw [utf8Length_append, Nat.add_sub_cancel]

theorem countedPosition_min (source : String) (offset : Nat) :
    countedPosition source (min offset source.utf8ByteSize) =
      countedPosition source offset := by
  have taken : (bytes source).take (min offset source.utf8ByteSize) =
      (bytes source).take offset := by
    rw [← take_take]
    exact congrArg (List.take offset) take_length
  unfold countedPosition
  rw [taken]

/-- An offset that does not lie inside a character has some text of the source in
front of it. -/
theorem exists_split_of_isValid {source : String} {offset : Nat}
    (valid : String.Pos.Raw.IsValid source ⟨offset⟩) :
    ∃ before behind, source.toList = before ++ behind ∧ offset = utf8Length before := by
  obtain ⟨before, behind, rfl, start⟩ := String.Pos.Raw.isValid_iff_exists_append.mp valid
  have offset_eq : offset = before.utf8ByteSize := congrArg String.Pos.Raw.byteIdx start
  exact ⟨before.toList, behind.toList, String.toList_append,
    offset_eq.trans (utf8ByteSize_eq before)⟩

end Text

namespace Position

theorem line_foldl_advance_eq (text : List Char) (start : Position) :
    (text.foldl advance start).line = start.line + text.count '\n' := by
  induction text generalizing start with
  | nil => rfl
  | cons character text induction =>
    rw [foldl_cons, induction, count_cons, advance]
    split
    · next isBreak => rw [if_pos (by simpa using isBreak), Nat.add_assoc, Nat.add_comm 1]
    · next other => rw [if_neg (by simpa using other), Nat.add_zero]

theorem after_lastLine {front line : List Char} (oneLine : '\n' ∉ line)
    (ends : front = [] ∨ ∃ more, front = more ++ ['\n']) :
    after (front ++ line) = ⟨1 + front.count '\n', Text.utf16Length line⟩ := by
  have column : (after front).column = 0 := by
    rcases ends with rfl | ⟨more, rfl⟩
    · rfl
    · rw [after_append]
      rfl
  rw [after_append, foldl_advance oneLine, column, Nat.zero_add, after,
    line_foldl_advance_eq]

theorem after_before {text more : List Char} (nonempty : more ≠ []) :
    (after text).Before (after (text ++ more)) := by
  cases more with
  | nil => exact absurd rfl nonempty
  | cons character more =>
    rw [after_append]
    exact ((after text).before_advance character).foldl_advance more

end Position

namespace LineIndex

open Editor (Place)

variable {source : String} {offset : Nat}

theorem position_min (text : List Char) (offset : Nat) :
    (ofText text).position (min offset (Text.utf8Length text)) =
      (ofText text).position offset := by
  rw [position, position, ofText]
  dsimp only
  rw [Nat.min_assoc, Nat.min_self]

theorem position_eq_countedPosition
    (valid : String.Pos.Raw.IsValid source ⟨min offset source.utf8ByteSize⟩) :
    (ofText source.toList).position offset = Text.countedPosition source offset := by
  obtain ⟨before, behind, whole, offset_eq⟩ := Text.exists_split_of_isValid valid
  obtain ⟨front, line, rfl, oneLine, ends⟩ := Text.exists_lastLine before
  have source_eq : source = String.ofList (front ++ line ++ behind) := by
    rw [← whole, String.ofList_toList]
  rw [← position_min, ← Text.countedPosition_min, ← Text.utf8ByteSize_eq,
    offset_eq, whole, position_ofText, Position.after_lastLine oneLine ends, source_eq,
    Text.countedPosition_append oneLine ends]

theorem one_le_line_position (valid : String.Pos.Raw.IsValid source ⟨offset⟩) :
    1 ≤ ((ofText source.toList).position offset).line := by
  obtain ⟨before, behind, whole, rfl⟩ := Text.exists_split_of_isValid valid
  rw [whole, position_ofText]
  exact Position.one_le_line_after before

theorem position_before {first second : Nat}
    (firstValid : String.Pos.Raw.IsValid source ⟨first⟩)
    (secondValid : String.Pos.Raw.IsValid source ⟨second⟩) (less : first < second) :
    ((ofText source.toList).position first).Before
      ((ofText source.toList).position second) := by
  obtain ⟨before, behind, whole, rfl⟩ := Text.exists_split_of_isValid firstValid
  obtain ⟨longer, rest, same, rfl⟩ := Text.exists_split_of_isValid secondValid
  obtain ⟨more, rfl⟩ :=
    Text.prefix_of_utf8Length_le ⟨behind, whole.symm⟩ ⟨rest, same.symm⟩
    (Nat.le_of_lt less)
  have nonempty : more ≠ [] := by
    rintro rfl
    rw [append_nil] at less
    exact Nat.lt_irrefl _ less
  have atFirst := position_ofText before behind
  rw [← whole] at atFirst
  rw [atFirst, same, position_ofText]
  exact Position.after_before nonempty

/-- Looking an offset up among the lines of a source gives what counting gives, also for
an offset beyond the source. Between characters, positions grow with their offsets, so
different offsets are different places of an editor. -/
theorem position_counts_in_order (source : String) :
    (∀ offset, String.Pos.Raw.IsValid source ⟨min offset source.utf8ByteSize⟩ →
      (ofText source.toList).position offset = Text.countedPosition source offset) ∧
    (∀ first second, String.Pos.Raw.IsValid source ⟨first⟩ →
      String.Pos.Raw.IsValid source ⟨second⟩ → first < second →
      ((ofText source.toList).position first).Before
        ((ofText source.toList).position second)) ∧
    ∀ first second, String.Pos.Raw.IsValid source ⟨first⟩ →
      String.Pos.Raw.IsValid source ⟨second⟩ → first ≠ second →
      Place.ofPosition ((ofText source.toList).position first) ≠
        Place.ofPosition ((ofText source.toList).position second) := by
  refine ⟨fun _ => position_eq_countedPosition, fun _ _ => position_before, ?_⟩
  intro first second firstValid secondValid different samePlace
  have same := congrArg Place.toPosition samePlace
  rw [Place.toPosition_ofPosition (one_le_line_position firstValid),
    Place.toPosition_ofPosition (one_le_line_position secondValid)] at same
  rcases Nat.lt_or_gt_of_ne different with less | greater
  · exact Position.not_before_self _ (same ▸ position_before firstValid secondValid less)
  · exact Position.not_before_self _
      (same ▸ position_before secondValid firstValid greater)

/-- Behind the second line's emoji, which has four bytes and two units. -/
theorem position_counts_in_order_emoji :
    String.Pos.Raw.IsValid "a\n😀b" ⟨2⟩ ∧ String.Pos.Raw.IsValid "a\n😀b" ⟨6⟩ ∧
      (ofText "a\n😀b".toList).position 6 = ⟨2, 2⟩ ∧
      Text.countedPosition "a\n😀b" 6 = ⟨2, 2⟩ ∧
      ((ofText "a\n😀b".toList).position 2).Before ⟨2, 2⟩ ∧
      Place.ofPosition ((ofText "a\n😀b".toList).position 2) ≠ ⟨1, 2⟩ := by
  have firstValid : String.Pos.Raw.IsValid "a\n😀b" ⟨2⟩ :=
    @Text.isValid_utf8Length "a\n😀b" ['a', '\n'] ⟨['😀', 'b'], rfl⟩
  have secondValid : String.Pos.Raw.IsValid "a\n😀b" ⟨6⟩ :=
    @Text.isValid_utf8Length "a\n😀b" ['a', '\n', '😀'] ⟨['b'], rfl⟩
  obtain ⟨counts, grows, apart⟩ := position_counts_in_order "a\n😀b"
  have counted : Text.countedPosition "a\n😀b" 6 = ⟨2, 2⟩ := by decide +kernel
  have found : (ofText "a\n😀b".toList).position 6 = ⟨2, 2⟩ :=
    (counts 6 secondValid).trans counted
  have later := grows 2 6 firstValid secondValid (by decide)
  have other := apart 2 6 firstValid secondValid (by decide)
  rw [found] at later other
  exact ⟨firstValid, secondValid, found, counted, later, other⟩

end LineIndex

end GrammarInspector
