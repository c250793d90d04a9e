import GrammarInspector.Proofs.Editor.RangeText
import GrammarInspector.Proofs.Token.Tiling

/-! # Slices of a source

Spans that lie in a source without cutting through a character, the text that the source
has there, and the positions of its ends.
-/

namespace GrammarInspector

namespace Span

/-- Whether a span lies in a source, and both its ends lie between characters. -/
structure Within (source : String) (span : Span) : Prop where
  start_le_stop : span.start ≤ span.stop
  stop_le : span.stop ≤ source.utf8ByteSize
  start_isValid : String.Pos.Raw.IsValid source ⟨span.start⟩
  stop_isValid : String.Pos.Raw.IsValid source ⟨span.stop⟩

/-- Whether a text is what a source has at a span. -/
def Shows (source : String) (span : Span) (text : String) : Prop :=
  ∃ before behind, source = before ++ text ++ behind ∧
    span = ⟨before.utf8ByteSize, (before ++ text).utf8ByteSize⟩

variable {source text : String} {span : Span}

theorem Within.merge {left right : Span} (first : left.Within source)
    (second : right.Within source) : (left.merge right).Within source := by
  have firstOrder := first.start_le_stop
  have secondOrder := second.start_le_stop
  constructor
  · dsimp only [Span.merge]
    omega
  · exact Nat.max_le.mpr ⟨first.stop_le, second.stop_le⟩
  · rcases Nat.le_total left.start right.start with less | greater
    · rw [Span.merge, Nat.min_eq_left less]
      exact first.start_isValid
    · rw [Span.merge, Nat.min_eq_right greater]
      exact second.start_isValid
  · rcases Nat.le_total left.stop right.stop with less | greater
    · rw [Span.merge, Nat.max_eq_right less]
      exact second.stop_isValid
    · rw [Span.merge, Nat.max_eq_left greater]
      exact first.stop_isValid

theorem Within.emptyAt {offset : Nat} (bound : offset ≤ source.utf8ByteSize)
    (valid : String.Pos.Raw.IsValid source ⟨offset⟩) :
      (Span.emptyAt offset).Within source :=
  ⟨Nat.le_refl _, bound, valid, valid⟩

/-- What stands in front of a text, the text and what stands behind it, as characters. -/
theorem Shows.exists_split (shows : span.Shows source text) :
    ∃ before behind, source.toList = before ++ (text.toList ++ behind) ∧
      span.start = Text.utf8Length before ∧
      span.stop = Text.utf8Length (before ++ text.toList) := by
  obtain ⟨before, behind, rfl, rfl⟩ := shows
  refine ⟨before.toList, behind.toList, ?_, Text.utf8ByteSize_eq before, ?_⟩
  · simp only [String.toList_append, List.append_assoc]
  · rw [← String.toList_append]
    exact Text.utf8ByteSize_eq _

theorem Shows.within (shows : span.Shows source text) : span.Within source := by
  obtain ⟨before, behind, whole, starts, stops⟩ := shows.exists_split
  constructor
  · rw [starts, stops, Text.utf8Length_append]
    omega
  · rw [stops, Text.utf8ByteSize_eq, whole]
    simp only [Text.utf8Length_append]
    omega
  · rw [starts]
    exact Text.isValid_utf8Length ⟨_, whole.symm⟩
  · rw [stops]
    exact Text.isValid_utf8Length ⟨behind, by rw [whole, List.append_assoc]⟩

theorem Within.one_le_line (within : span.Within source) :
    1 ≤ ((LineIndex.ofText source.toList).position span.start).line := by
  obtain ⟨before, behind, whole, start⟩ :=
    String.Pos.Raw.isValid_iff_exists_append.mp within.start_isValid
  have atStart := LineIndex.position_ofText before.toList behind.toList
  rw [← Text.utf8ByteSize_eq, ← String.toList_append, ← whole] at atStart
  have offset : span.start = before.utf8ByteSize := congrArg String.Pos.Raw.byteIdx start
  rw [offset, atStart]
  exact Position.one_le_line_after _

/-- A text in its source, from the characters around it. -/
theorem shows_of_split {before behind : List Char}
    (whole : source.toList = before ++ (text.toList ++ behind)) :
    (Span.mk (Text.utf8Length before) (Text.utf8Length (before ++ text.toList))).Shows
      source text := by
  refine ⟨String.ofList before, String.ofList behind, ?_, ?_⟩
  · rw [← String.toList_inj]
    simp [whole]
  · simp only [Text.utf8ByteSize_eq, String.toList_append, String.toList_ofList]

/-- The positions of both ends of a text without a line break. -/
theorem Shows.position_stop (shows : span.Shows source text)
    (oneLine : '\n' ∉ text.toList) :
    let lines := LineIndex.ofText source.toList
    lines.position span.stop = ⟨(lines.position span.start).line,
      (lines.position span.start).column + Text.utf16Length text.toList⟩ := by
  obtain ⟨before, behind, whole, starts, stops⟩ := shows.exists_split
  have atStart := LineIndex.position_ofText before (text.toList ++ behind)
  have atStop := LineIndex.position_ofText (before ++ text.toList) behind
  rw [List.append_assoc] at atStop
  intro lines
  simp only [lines, whole, starts, stops, atStart, atStop, Position.after_append]
  exact Position.foldl_advance oneLine _

end Span

open Editor (Place Range)

/-- The range of a text without a line break reaches from one end of its span
to the other. -/
theorem Span.Shows.range_eq {source text : String} {span : Span}
    (shows : span.Shows source text) (oneLine : '\n' ∉ text.toList) :
    let lines := LineIndex.ofText source.toList
    Range.ofLength (lines.position span.start) (Text.utf16Length text.toList) =
      ⟨.ofPosition (lines.position span.start),
        .ofPosition (lines.position span.stop)⟩ := by
  intro lines
  rw [shows.position_stop oneLine]
  rfl

theorem Token.shows_of_mem {source : String} {token : Token}
    (member : token ∈ ofText source.toList) :
    token.span.Shows source token.text := by
  obtain ⟨placed⟩ := nonempty_placed member
  have shows := Span.shows_of_split placed.source_eq
  rwa [← placed.start_eq, ← placed.stop_eq] at shows

end GrammarInspector
