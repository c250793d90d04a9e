import Mathlib.Order.Bounds.Basic
import GrammarInspector.Proofs.Text.Counting

/-! # Labels of reports

The range of a label is the least one that begins with the character at the start of the
span, ends between two characters and covers the rest of the span as far as there is text.
`searchedRange?` looks for the same range one byte at a time, and can fail where it would
step below zero, cut through a character, never find an end or be given bounds that cross.
For a source with some text it never does.
-/

namespace GrammarInspector

open List

namespace Text

/-! ## Looking for a range -/

/-- The nearest offset between characters at or in front of an offset. There is none if
the search would go below zero. -/
def boundaryBefore? (source : String) (offset : Nat) : Option Nat :=
  if String.Pos.Raw.IsValid source ⟨offset⟩ then some offset
  else
    match offset with
    | 0 => none
    | before + 1 => boundaryBefore? source before

/-- The nearest offset between characters at or behind an offset. Beyond the source no
search would end. -/
def boundaryBehind? (source : String) (offset : Nat) : Option Nat :=
  if String.Pos.Raw.IsValid source ⟨offset⟩ then some offset
  else if offset < source.utf8ByteSize then boundaryBehind? source (offset + 1)
  else none
termination_by source.utf8ByteSize - offset

/-- The size of the character that begins at an offset, or zero at the end. No character
begins inside another one. -/
def sizeAt? (source : String) (offset : Nat) : Option Nat :=
  if String.Pos.Raw.IsValid source ⟨offset⟩ then
    some
      (((slice ⟨offset, source.utf8ByteSize⟩ 0 source.toList).head?.map
      Char.utf8Size).getD 0)
  else none

/-- A number moved between two bounds. No number is between bounds that cross. -/
def clamp? (low high value : Nat) : Option Nat :=
  if low ≤ high then some (min (max value low) high) else none

/-- The range of a label for some bytes, found step by step. -/
def searchedRange? (source : String) (span : Span) : Option Span := do
  let start ← boundaryBefore? source (min span.start (utf8Length source.toList.dropLast))
  let size ← sizeAt? source start
  let stop ← clamp? (start + size) source.utf8ByteSize span.stop
  return ⟨start, ← boundaryBehind? source stop⟩

variable {source : String} {offset : Nat}

theorem boundaryBefore?_eq_some {found : Nat}
    (greatest : IsGreatest {place | String.Pos.Raw.IsValid source ⟨place⟩ ∧
      place ≤ offset} found) :
    boundaryBefore? source offset = some found := by
  obtain ⟨⟨isValid, inFront⟩, bound⟩ := greatest
  fun_induction boundaryBefore? source offset with
  | case1 offset here =>
    have atMost := bound ⟨here, Nat.le_refl _⟩
    rw [Nat.le_antisymm inFront atMost]
  | case2 notHere =>
    cases Nat.le_zero.mp inFront
    exact absurd isValid notHere
  | case3 before notHere induction =>
    have further : found ≠ before + 1 := by
      rintro rfl
      exact notHere isValid
    refine induction (fun place ⟨placeValid, placeInFront⟩ => ?_) (by omega)
    exact bound ⟨placeValid, Nat.le_succ_of_le placeInFront⟩

theorem boundaryBehind?_eq_some {found : Nat}
    (least : IsLeast {place | String.Pos.Raw.IsValid source ⟨place⟩ ∧
      offset ≤ place} found) :
    boundaryBehind? source offset = some found := by
  obtain ⟨⟨isValid, behind⟩, bound⟩ := least
  fun_induction boundaryBehind? source offset with
  | case1 offset here =>
    have atLeast := bound ⟨here, Nat.le_refl _⟩
    rw [Nat.le_antisymm behind atLeast]
  | case2 offset notHere inside induction =>
    have further : found ≠ offset := by
      rintro rfl
      exact notHere isValid
    refine induction (fun place ⟨placeValid, placeBehind⟩ => ?_) (by omega)
    exact bound ⟨placeValid, Nat.le_of_succ_le placeBehind⟩
  | case3 offset notHere beyond =>
    have atMost := isValid.le_utf8ByteSize
    have further : found ≠ offset := by
      rintro rfl
      exact notHere isValid
    dsimp only at atMost
    omega

/-! ## Offsets between characters -/

theorem isValid_iff_exists_split : String.Pos.Raw.IsValid source ⟨offset⟩ ↔
      ∃ before behind, source.toList = before ++ behind ∧ offset = utf8Length before := by
  constructor
  · intro isValid
    obtain ⟨before, behind, rfl, isEnd⟩ :=
      String.Pos.Raw.isValid_iff_exists_append.mp isValid
    refine ⟨before.toList, behind.toList, String.toList_append, ?_⟩
    rw [← utf8ByteSize_eq]
    exact congrArg String.Pos.Raw.byteIdx isEnd
  · rintro ⟨before, behind, whole, rfl⟩
    exact isValid_utf8Length ⟨behind, whole.symm⟩

/-- An offset between characters that is behind the start of a character is not in
front of its end. -/
theorem stop_le_of_start_lt {before behind : List Char} {character : Char}
    (whole : source.toList = before ++ character :: behind)
      (isValid : String.Pos.Raw.IsValid source ⟨offset⟩)
    (inside : utf8Length before < offset) :
      utf8Length before + character.utf8Size ≤ offset := by
  obtain ⟨front, rest, split, rfl⟩ := isValid_iff_exists_split.mp isValid
  have begins : before <+: front :=
    prefix_of_utf8Length_le ⟨_, whole.symm⟩ ⟨_, split.symm⟩ (Nat.le_of_lt inside)
  obtain ⟨more, rfl⟩ := begins
  cases more with
  | nil =>
    rw [append_nil] at inside
    exact absurd inside (Nat.lt_irrefl _)
  | cons first more =>
    have same : first = character := by
      rw [whole, append_assoc, append_cancel_left_eq] at split
      exact (List.cons.inj split).1.symm
    rw [utf8Length_append, utf8Length, same]
    omega

theorem exists_shows_of_within {span : Span} (within : span.Within source)
    (covers : span.start < span.stop) :
    ∃ text, span.Shows source text ∧ text ≠ "" := by
  obtain ⟨before, rest, whole, start⟩ := isValid_iff_exists_split.mp within.start_isValid
  obtain ⟨front, behind, split, stop⟩ := isValid_iff_exists_split.mp within.stop_isValid
  have begins : before <+: front :=
    prefix_of_utf8Length_le ⟨_, whole.symm⟩ ⟨_, split.symm⟩ (by omega)
  obtain ⟨text, rfl⟩ := begins
  have inside : source.toList = before ++ ((String.ofList text).toList ++ behind) := by
    rw [split, String.toList_ofList, append_assoc]
  have shows := Span.shows_of_split inside
  rw [String.toList_ofList, ← start, ← stop] at shows
  refine ⟨String.ofList text, shows, ?_⟩
  rintro isEmpty
  have none : text = [] := by simpa using isEmpty
  rw [none, append_nil] at stop
  omega

/-! ## The ends of a label -/

/-- The first character of a label: the last one that does not begin behind the offset. -/
theorem exists_characterAt {text : List Char} (nonempty : text ≠ [])
    (offset start : Nat) :
    ∃ before character behind, text = before ++ character :: behind ∧
        characterAt offset start text =
        ⟨start + utf8Length before, start + utf8Length before + character.utf8Size⟩ ∧
      (before = [] ∨ start + utf8Length before ≤ offset) ∧
      (behind = [] ∨ offset < start + utf8Length before + character.utf8Size) := by
  fun_induction characterAt offset start text with
  | case1 => exact absurd rfl nonempty
  | case2 start last => exact ⟨[], last, [], rfl, rfl, Or.inl rfl, Or.inl rfl⟩
  | case3 start character rest _ inside =>
      exact ⟨[], character, rest, rfl, rfl, Or.inl rfl, Or.inr inside⟩
  | case4 start character rest more beyond induction =>
    obtain ⟨before, found, behind, rfl, range, inFront, ends⟩ := induction more
    refine ⟨character :: before, found, behind, rfl, ?_, Or.inr ?_, ?_⟩
    · rw [range, utf8Length, Nat.add_assoc start]
    · rw [utf8Length]
      rcases inFront with rfl | inFront
      · simp only [utf8Length]
        omega
      · omega
    · rw [utf8Length]
      refine ends.imp_right fun inside => ?_
      omega

theorem boundaryFrom_spec (offset start : Nat) (text : List Char) :
    ∃ before behind, text = before ++ behind ∧ boundaryFrom offset start text =
      start + utf8Length before ∧
      min (start + utf8Length text) offset ≤ start + utf8Length before ∧
      ∀ front rest, text = front ++ rest → offset ≤ start + utf8Length front ∨ rest = [] →
        utf8Length before ≤ utf8Length front := by
  fun_induction boundaryFrom offset start text with
  | case1 start => exact ⟨[], [], rfl, rfl, Nat.min_le_left .., fun _ _ _ _ =>
      Nat.zero_le _⟩
  | case2 start character rest inFront =>
    refine ⟨[], character :: rest, rfl, rfl, ?_, fun _ _ _ _ => Nat.zero_le _⟩
    exact Nat.le_trans (Nat.min_le_right ..) inFront
  | case3 start character rest behind induction =>
    obtain ⟨before, behind, rfl, found, reached, least⟩ := induction
    refine ⟨character :: before, behind, rfl, ?_, ?_, ?_⟩
    · rw [found, utf8Length, Nat.add_assoc]
    · simp only [utf8Length] at reached ⊢
      omega
    · rintro front rest whole enough
      cases front with
      | nil =>
        simp only [utf8Length] at enough
        rcases enough with enough | rfl
        · omega
        · cases whole
      | cons first front =>
        obtain ⟨rfl, tails⟩ := List.cons.inj whole
        rw [utf8Length] at enough
        have further := least front rest tails (enough.imp_left (by omega))
        rw [utf8Length, utf8Length]
        omega

/-- The character that a label begins with. -/
structure Leads (source : String) (span : Span) (before : List Char) (character : Char)
    (behind : List Char) : Prop where
  whole : source.toList = before ++ character :: behind
  start_eq : (labelRange source.toList span).start = utf8Length before
  stop_eq : (labelRange source.toList span).stop =
    boundaryFrom (max span.stop (utf8Length before + character.utf8Size)) 0 source.toList
  start_le : utf8Length before ≤ span.start
  ends : behind = [] ∨ span.start < utf8Length before + character.utf8Size

theorem exists_leads (nonempty : source ≠ "") (span : Span) :
    ∃ before character behind, Leads source span before character behind := by
  have someText : source.toList ≠ [] := by
    rwa [ne_eq, String.toList_eq_nil_iff]
  obtain ⟨before, character, behind, whole, range, inFront, ends⟩ :=
    exists_characterAt someText span.start 0
  simp only [Nat.zero_add] at range inFront ends
  refine ⟨before, character, behind, whole, ?_, ?_, ?_, ends⟩
  · rw [labelRange, range]
  · rw [labelRange, range]
  · rcases inFront with rfl | inFront
    · exact Nat.zero_le _
    · exact inFront

variable {span : Span} {before behind : List Char} {character : Char}

theorem Leads.isGreatest_start (leads : Leads source span before character behind) :
    IsGreatest {place | String.Pos.Raw.IsValid source ⟨place⟩ ∧
      place ≤ min span.start (utf8Length source.toList.dropLast)}
        (labelRange source.toList span).start := by
  have lastStart : utf8Length source.toList.dropLast =
      utf8Length before + utf8Length (character :: behind).dropLast := by
    rw [leads.whole, dropLast_append_of_ne_nil (cons_ne_nil _ _), utf8Length_append]
  rw [leads.start_eq]
  refine ⟨⟨isValid_utf8Length ⟨_, leads.whole.symm⟩, ?_⟩,
    fun place ⟨isValid, inFront⟩ => ?_⟩
  · exact Nat.le_min.mpr ⟨leads.start_le, by omega⟩
  · apply Nat.le_of_not_lt
    intro further
    have covered := stop_le_of_start_lt leads.whole isValid further
    -- Behind the last character nothing begins, and behind another one the label
    -- would begin too late.
    rcases leads.ends with rfl | inside
    · have size := character.utf8Size_pos
      simp only [dropLast_singleton, utf8Length] at lastStart
      omega
    · omega

theorem Leads.isLeast_stop (leads : Leads source span before character behind) :
    IsLeast {place | String.Pos.Raw.IsValid source ⟨place⟩ ∧
      min source.utf8ByteSize (max span.stop (utf8Length before + character.utf8Size)) ≤
        place}
      (labelRange source.toList span).stop := by
  obtain ⟨front, rest, whole, found, reached, least⟩ :=
    boundaryFrom_spec (max span.stop (utf8Length before + character.utf8Size)) 0
      source.toList
  simp only [Nat.zero_add] at found reached least
  rw [leads.stop_eq, found]
  refine ⟨⟨isValid_utf8Length ⟨_, whole.symm⟩, ?_⟩, fun place ⟨isValid, enough⟩ => ?_⟩
  · rwa [utf8ByteSize_eq]
  · obtain ⟨other, others, split, rfl⟩ := isValid_iff_exists_split.mp isValid
    refine least other others split ?_
    rcases Nat.le_total (max span.stop (utf8Length before + character.utf8Size))
      source.utf8ByteSize with
      fits | beyond
    · rw [Nat.min_eq_right fits] at enough
      exact Or.inl enough
    · rw [Nat.min_eq_left beyond, utf8ByteSize_eq, split, utf8Length_append] at enough
      refine Or.inr (Decidable.byContradiction fun more => ?_)
      have size := utf8Length_pos more
      omega

theorem Leads.sizeAt?_eq (leads : Leads source span before character behind) :
    sizeAt? source (utf8Length before) = some character.utf8Size := by
  have rest : slice ⟨utf8Length before, source.utf8ByteSize⟩ 0 source.toList =
      character :: behind := by
    have size : source.utf8ByteSize =
        utf8Length before + utf8Length (character :: behind) := by
      rw [utf8ByteSize_eq, leads.whole, utf8Length_append]
    have found : slice ⟨utf8Length before, source.utf8ByteSize⟩ 0
        (before ++ (character :: behind ++ [])) =
        character :: behind := slice_append (Nat.zero_add _).symm size []
    rwa [append_nil, ← leads.whole] at found
  rw [sizeAt?, if_pos (isValid_utf8Length ⟨_, leads.whole.symm⟩), rest]
  rfl

theorem Leads.inside (leads : Leads source span before character behind) :
    utf8Length before + character.utf8Size ≤ source.utf8ByteSize := by
  rw [utf8ByteSize_eq, leads.whole, utf8Length_append, utf8Length]
  omega

/-- The search never fails, and it finds the range of the label. -/
theorem Leads.searchedRange?_eq (leads : Leads source span before character behind) :
    searchedRange? source span = some (labelRange source.toList span) := by
  have start := boundaryBefore?_eq_some leads.isGreatest_start
  have stop := boundaryBehind?_eq_some leads.isLeast_stop
  rw [Nat.min_comm] at stop
  rw [searchedRange?, start, leads.start_eq]
  simp only [Option.bind_eq_bind, Option.bind_some, leads.sizeAt?_eq, clamp?,
    if_pos leads.inside, stop, Option.pure_def]
  rw [← leads.start_eq]

theorem Leads.stop_le (leads : Leads source span before character behind) :
    (labelRange source.toList span).start + character.utf8Size ≤
      (labelRange source.toList span).stop := by
  have reached := leads.isLeast_stop.1.2
  have inside := leads.inside
  rw [leads.start_eq]
  omega

/-- A span between characters that covers some text is the range of its own label. -/
theorem labelRange_of_within (within : span.Within source)
    (covers : span.start < span.stop) :
    labelRange source.toList span = span := by
  have nonempty : source ≠ "" := by
    rintro rfl
    have atMost := within.stop_le
    rw [String.utf8ByteSize_empty] at atMost
    omega
  obtain ⟨before, character, behind, leads⟩ := exists_leads nonempty span
  have atMost := within.stop_le
  have start : utf8Length before = span.start := by
    apply Nat.le_antisymm leads.start_le
    apply Nat.le_of_not_lt
    intro further
    have covered := stop_le_of_start_lt leads.whole within.start_isValid further
    rcases leads.ends with rfl | inside
    · rw [utf8ByteSize_eq, leads.whole, utf8Length_append, utf8Length,
        utf8Length] at atMost
      omega
    · omega
  have covered := stop_le_of_start_lt leads.whole within.stop_isValid (start ▸ covers)
  have least := leads.isLeast_stop
  rw [Nat.max_eq_left covered, Nat.min_eq_right atMost] at least
  have stop :=
    least.unique ⟨⟨within.stop_isValid, Nat.le_refl _⟩, fun _ enough => enough.2⟩
  have begins : (labelRange source.toList span).start = span.start :=
    leads.start_eq.trans start
  generalize labelRange source.toList span = range at stop begins
  cases range
  cases begins
  cases stop
  rfl

/-- For every source with some text and every span, also one that is out of bounds, ends
before it starts or cuts through characters, the search for the range of a label succeeds.
The label begins as far behind as it can without passing the start of the span or of the
last character, and it ends as soon as it has covered its first character and the span as
far as the source goes. So it covers some text, and a span that covers some text between
characters is left as it is. -/
theorem labelRange_tight (nonempty : source ≠ "") (span : Span) :
    let range := labelRange source.toList span
    searchedRange? source span = some range ∧
        IsGreatest {place | String.Pos.Raw.IsValid source ⟨place⟩ ∧
        place ≤ min span.start (utf8Length source.toList.dropLast)} range.start ∧
      (∃ before character behind, source.toList = before ++ character :: behind ∧
        range.start = utf8Length before ∧
        IsLeast {place | String.Pos.Raw.IsValid source ⟨place⟩ ∧
          min source.utf8ByteSize (max span.stop (range.start + character.utf8Size)) ≤
            place} range.stop) ∧
      range.start < range.stop ∧ range.stop ≤ source.utf8ByteSize ∧
      (∃ text, range.Shows source text ∧ text ≠ "") ∧
      (span.Within source → span.start < span.stop → range = span) := by
  intro range
  obtain ⟨before, character, behind, leads⟩ := exists_leads nonempty span
  have covers : range.start < range.stop :=
    Nat.lt_of_lt_of_le (Nat.lt_add_of_pos_right character.utf8Size_pos) leads.stop_le
  have least := leads.isLeast_stop
  have within : range.Within source :=
    ⟨Nat.le_of_lt covers, least.1.1.le_utf8ByteSize,
      leads.isGreatest_start.1.1, least.1.1⟩
  rw [← leads.start_eq] at least
  exact ⟨leads.searchedRange?_eq, leads.isGreatest_start,
    ⟨before, character, behind, leads.whole, leads.start_eq, least⟩, covers,
      within.stop_le,
    exists_shows_of_within within covers, labelRange_of_within⟩

/-- A span behind the end that ends before it starts. Its label covers the
last character. -/
theorem labelRange_tight_inverted :
    String.ofList ['é', '😀'] ≠ "" ∧
      searchedRange? (String.ofList ['é', '😀']) ⟨7, 3⟩ = some ⟨2, 6⟩ := by
  have nonempty : String.ofList ['é', '😀'] ≠ "" := by decide
  have found := (labelRange_tight nonempty ⟨7, 3⟩).1
  rw [String.toList_ofList] at found
  exact ⟨nonempty, found⟩

end Text

end GrammarInspector
