import Mathlib.Data.List.Basic
import GrammarInspector.Check.Vocabulary
import GrammarInspector.Proofs.Text.Cutting

/-! # Lists of tokens

A list of tokens has a line `name=number` for every token, and the name may itself hold
equals signs. Reading such a list gives back the names that were written, whatever other
lines stand between them.
-/

namespace GrammarInspector.Vocabulary

open List

variable {line : List Char} {name : String} {number : Int}

/-- Whether a name and a number can be written as an entry of a list of tokens. -/
structure IsEntry (name : String) (number : Int) : Prop where
  nonempty : name.toList ≠ []
  visibleFirst : ∀ first, name.toList.head? = some first → Text.isWhiteSpace first = false
  oneLine : '\n' ∉ name.toList
  fits : Text.Fits32 number

/-- The line of an entry. -/
def entryLine (entry : String × Int) : List Char :=
  entry.1.toList ++ '=' :: (toString entry.2).toList

/-- Whether a line is no entry: it has no equals sign, or no number behind
the last one. -/
structure IsIdle (line : List Char) : Prop where
  oneLine : '\n' ∉ line
  noNumber : ∀ front behind, line = front ++ '=' :: behind → '=' ∉ behind →
    ∀ number, Text.Writes (Text.trim behind) number → ¬Text.Fits32 number

/-! ## One line -/

theorem entryName?_congr {other : List Char} (equal : Text.trim line = Text.trim other) :
    entryName? line = entryName? other := by
  rw [entryName?, equal, ← entryName?]

theorem trim_entryLine (isEntry : IsEntry name number) :
    Text.trim (entryLine (name, number)) = entryLine (name, number) := by
  have writes := Text.writes_toString number
  refine Text.trim_eq_self (fun first isFirst => ?_) fun final isFinal => ?_
  · apply isEntry.visibleFirst
    obtain ⟨character, rest, equal⟩ := exists_cons_of_ne_nil isEntry.nonempty
    rwa [entryLine, equal, cons_append, head?_cons, ← head?_cons, ← equal] at isFirst
  · rw [entryLine, getLast?_append_cons,
      getLast?_cons_of_ne_nil writes.nonempty] at isFinal
    exact writes.visible (mem_of_getLast? isFinal)

theorem entryName?_entryLine (isEntry : IsEntry name number) :
    entryName? (entryLine (name, number)) = some name.toList := by
  have writes := Text.writes_toString number
  have named : name.toList.isEmpty = false := isEmpty_eq_false_iff.mpr isEntry.nonempty
  have read := Text.integer32?_eq_some_iff.mpr ⟨writes, isEntry.fits⟩
  rw [entryName?, trim_entryLine isEntry, entryLine, Text.cutLast?_append writes.not_mem]
  dsimp only
  rw [named, writes.trim_eq_self, read]
  rfl

theorem oneLine_entryLine (isEntry : IsEntry name number) :
    '\n' ∉ entryLine (name, number) := by
  have visible : '\n' ∉ (toString number).toList := fun member =>
    absurd ((Text.writes_toString number).visible member) (by decide)
  rw [entryLine, mem_append, mem_cons]
  rintro (inName | isMark | inNumber)
  · exact isEntry.oneLine inName
  · exact absurd isMark (by decide)
  · exact visible inNumber

theorem isIdle_iff : IsIdle line ↔
    '\n' ∉ line ∧ ∀ cut ∈ Text.cutLast? '=' line,
      Text.integer32? (Text.trim cut.2) = none := by
  constructor
  · refine fun isIdle => ⟨isIdle.oneLine, fun cut isCut => ?_⟩
    obtain ⟨equal, notBehind⟩ := Text.eq_of_cutLast? isCut
    refine Option.eq_none_iff_forall_ne_some.mpr fun number read => ?_
    obtain ⟨writes, fits⟩ := Text.integer32?_eq_some_iff.mp read
    exact isIdle.noNumber _ _ equal notBehind number writes fits
  · rintro ⟨oneLine, unread⟩
    refine ⟨oneLine, fun front behind equal notBehind number writes fits => ?_⟩
    have none := unread (front, behind) (equal ▸ Text.cutLast?_append notBehind)
    rw [Text.integer32?_eq_some_iff.mpr ⟨writes, fits⟩] at none
    cases none

instance (line : List Char) : Decidable (IsIdle line) :=
  decidable_of_iff _ isIdle_iff.symm

theorem IsIdle.entryName?_eq_none (isIdle : IsIdle line) : entryName? line = none := by
  rw [entryName?]
  split
  · rfl
  · next front behind cut =>
    obtain ⟨trimmed, notBehind⟩ := Text.eq_of_cutLast? cut
    obtain ⟨lead, tail, equal, _, blank⟩ := Text.exists_trim line
    have notTail : '=' ∉ tail := fun member => absurd (blank '=' member) (by decide)
    have parts : line = (lead ++ front) ++ '=' :: (behind ++ tail) := by
      rw [trimmed] at equal
      simpa using equal
    have lineCut : Text.cutLast? '=' line = some (lead ++ front, behind ++ tail) := by
      rw [parts, Text.cutLast?_append (by simp [notBehind, notTail])]
    have unread := (isIdle_iff.mp isIdle).2 _ lineCut
    rw [Text.trim_append blank] at unread
    simp [unread]

/-! ## All lines -/

/-- The ends of the lines do not matter. -/
theorem filterMap_lines {text : List Char} {lines : List (List Char)}
    (consists : Text.Consists text lines) :
    (Text.lines text).filterMap entryName? = lines.filterMap entryName? := by
  obtain ⟨nameOf, equal⟩ : ∃ nameOf, entryName? = nameOf ∘ Text.trim :=
    (Function.factorsThrough_iff entryName?).mp fun _ _ => entryName?_congr
  rw [equal, ← filterMap_map, consists.map_trim_lines, filterMap_map]

variable {entries : List (String × Int)} {idle lines : List (List Char)} {text : String}

theorem filterMap_entryLines (areEntries : ∀ entry ∈ entries, IsEntry entry.1 entry.2) :
    (entries.map entryLine).filterMap entryName? = entries.map (·.1.toList) := by
  rw [filterMap_map, ← filterMap_eq_map]
  exact filterMap_congr fun entry member => entryName?_entryLine (areEntries entry member)

/-- In whatever order the lines stand, they give the names of the entries. -/
theorem perm_names (areEntries : ∀ entry ∈ entries, IsEntry entry.1 entry.2)
    (areIdle : ∀ line ∈ idle, IsIdle line)
    (mixed : lines.Perm (entries.map entryLine ++ idle))
    (consists : Text.Consists text.toList lines) :
    ((Text.lines text.toList).filterMap entryName?).Perm (entries.map (·.1.toList)) := by
  have noNames : idle.filterMap entryName? = [] :=
    filterMap_eq_nil_iff.mpr fun line member => (areIdle line member).entryName?_eq_none
  rw [filterMap_lines consists]
  calc lines.filterMap entryName?
    _ |>.Perm ((entries.map entryLine ++ idle).filterMap entryName?) :=
      mixed.filterMap entryName?
    _ = entries.map (·.1.toList) := by
      rw [filterMap_append, noNames, append_nil, filterMap_entryLines areEntries]

theorem mem_names_iff
    (names : ((Text.lines text.toList).filterMap entryName?).Perm
      (entries.map (·.1.toList)))
    (isKept : List Char → Bool) (name : String) :
    name ∈ (((Text.lines text.toList).filterMap entryName?).filter isKept).map
      String.ofList ↔
      name ∈ entries.map (·.1) ∧ isKept name.toList = true := by
  have written : name.toList ∈ entries.map (·.1.toList) ↔ name ∈ entries.map (·.1) := by
    change name.toList ∈ entries.map (String.toList ∘ (·.1)) ↔ _
    rw [← map_map, mem_map_of_injective fun _ _ => String.toList_injective]
  rw [← written, ← names.mem_iff, ← mem_filter]
  constructor
  · intro member
    obtain ⟨characters, member, rfl⟩ := mem_map.mp member
    rwa [String.toList_ofList]
  · intro member
    exact mem_map.mpr ⟨_, member, String.ofList_toList⟩

theorem oneLine_of_mem (areEntries : ∀ entry ∈ entries, IsEntry entry.1 entry.2)
    (areIdle : ∀ line ∈ idle, IsIdle line)
    (mixed : lines.Perm (entries.map entryLine ++ idle)) (member : line ∈ lines) :
    '\n' ∉ line := by
  rcases mem_append.mp (mixed.mem_iff.mp member) with written | isIdle
  · obtain ⟨entry, isEntry, rfl⟩ := mem_map.mp written
    exact oneLine_entryLine (areEntries entry isEntry)
  · exact (areIdle line isIdle).oneLine

/-- A list of tokens reads back as it was written. -/
theorem ofTokenList_reads_back (areEntries : ∀ entry ∈ entries, IsEntry entry.1 entry.2)
    (areIdle : ∀ line ∈ idle, IsIdle line)
    (mixed : lines.Perm (entries.map entryLine ++ idle)) :
    (∃ text : String, Text.Consists text.toList lines) ∧
      ∀ text : String, Text.Consists text.toList lines →
        (∀ name, name ∈ (ofTokenList text).tokens ↔
          name ∈ entries.map (·.1) ∧ name.toList.head? ≠ some '\'') ∧
        (∀ name, name ∈ (ofTokenList text).literals ↔
          name ∈ entries.map (·.1) ∧ name.toList.head? = some '\'') ∧
        (ofTokenList text).parserRules = [] := by
  constructor
  · refine ⟨String.ofList (lines.flatMap (· ++ ['\n'])), ?_⟩
    rw [String.toList_ofList]
    exact Text.consists_flatMap fun _ => oneLine_of_mem areEntries areIdle mixed
  · intro text consists
    have names := perm_names areEntries areIdle mixed consists
    refine ⟨fun name => (mem_names_iff names _ name).trans ?_, fun name =>
      (mem_names_iff names _ name).trans ?_, rfl⟩
    · simp [isQuoted]
    · simp [isQuoted]

/-- The names `'='` and `a = b `, between two lines that are no entries. -/
theorem ofTokenList_reads_back_equals : Text.Consists "=\r\n'='=1\nc=\na = b =-7".toList
      ["=".toList, "'='=1".toList, "c=".toList, "a = b =-7".toList] ∧
    (∀ name, name ∈ (ofTokenList "=\r\n'='=1\nc=\na = b =-7").literals ↔
      name ∈ ["'='", "a = b "] ∧ name.toList.head? = some '\'') := by
  have areEntries : ∀ entry ∈ [("'='", 1), ("a = b ", -7)], IsEntry entry.1 entry.2 := by
    rw [forall_mem_cons, forall_mem_singleton]
    exact ⟨⟨by decide, by rintro _ ⟨⟩; decide, by decide, by decide⟩,
      ⟨by decide, by rintro _ ⟨⟩; decide, by decide, by decide⟩⟩
  have areIdle : ∀ line ∈ ["=".toList, "c=".toList], IsIdle line := by
    rw [forall_mem_cons, forall_mem_singleton]
    exact ⟨by decide, by decide⟩
  have mixed : List.Perm ["=".toList, "'='=1".toList, "c=".toList, "a = b =-7".toList]
      ([("'='", 1), ("a = b ", -7)].map entryLine ++ ["=".toList, "c=".toList]) := by
    decide
  have firstLine : '\n' ∉ "=".toList := by decide
  have secondLine : '\n' ∉ "'='=1".toList := by decide
  have thirdLine : '\n' ∉ "c=".toList := by decide
  have lastLine : "a = b =-7".toList ≠ [] ∧ '\n' ∉ "a = b =-7".toList := by decide
  have consists : Text.Consists "=\r\n'='=1\nc=\na = b =-7".toList
      ["=".toList, "'='=1".toList, "c=".toList, "a = b =-7".toList] :=
    .returnFeed firstLine
      (.feed secondLine (.feed thirdLine (.unended lastLine.1 lastLine.2)))
  exact ⟨consists, ((ofTokenList_reads_back areEntries areIdle mixed).2 _ consists).2.1⟩

end GrammarInspector.Vocabulary
