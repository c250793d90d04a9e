import GrammarInspector.Proofs.Token.Names
import GrammarInspector.Text.Lines

/-! # Texts on one line

Names, literals and bracket blocks do not hold a line break. Of any text, the part in
front of its first line break is what it begins with.
-/

namespace GrammarInspector

open List

namespace Text

/-- The first piece of a text reaches up to its first line break. -/
theorem exists_first_piece (text : List Char) :
    ∃ first rest, pieces text = first :: rest ∧ first <+: text ∧ '\n' ∉ first := by
  induction text with
  | nil => exact ⟨[], [], rfl, prefix_rfl, not_mem_nil⟩
  | cons character text induction =>
    obtain ⟨first, rest, equal, begins, oneLine⟩ := induction
    rw [pieces, equal]
    dsimp only
    split
    · exact ⟨[], _, rfl, nil_prefix, not_mem_nil⟩
    · next other =>
      refine ⟨character :: first, rest, rfl, cons_prefix_cons.mpr ⟨rfl, begins⟩, ?_⟩
      rw [mem_cons, not_or]
      exact ⟨Ne.symm other, oneLine⟩

theorem dropReturn_prefix (text : List Char) : dropReturn text <+: text := by
  unfold dropReturn
  split
  · exact dropLast_prefix text
  · exact prefix_rfl

theorem firstLine_prefix (text : String) :
    (firstLine text).toList <+: text.toList ∧ '\n' ∉ (firstLine text).toList := by
  obtain ⟨first, rest, equal, begins, oneLine⟩ := exists_first_piece text.toList
  have part : (lines text.toList).head?.getD [] <+: first := by
    rw [lines, equal]
    cases rest with
    | nil =>
      rw [linesOfPieces]
      split
      · exact nil_prefix
      · exact prefix_rfl
    | cons => exact dropReturn_prefix first
  rw [firstLine, String.toList_ofList]
  exact ⟨part.trans begins, fun isBreak => oneLine (part.subset isBreak)⟩

end Text

namespace TokenKind

/-- The kinds of tokens that end on the line they begin on. -/
def isOneLine : TokenKind → Bool
  | .keyword _ | .tokenRef | .ruleRef | .literal | .bracket => true
  | _ => false

end TokenKind

namespace Token

variable {close first : Char} {breaks : Char → Bool} {rest : List Char}

/-- A token that is closed by a character ends before the next line break. -/
theorem not_break_of_closed {text : List Char} (visible : close ≠ '\n')
    (isBreak : breaks '\n' = true)
    (closed : (delimitedExtent close breaks text).closed = true) :
    '\n' ∉ text.take (delimitedExtent close breaks text).length := by
  fun_induction delimitedExtent close breaks text with
  | case1 => cases closed
  | case2 => cases closed
  | case3 => cases closed
  | case4 next rest stays induction =>
    have later := induction closed
    have other : '\n' ≠ next := by
      rintro rfl
      exact stays isBreak
    rw [Extent.after, Nat.add_comm 2, take_succ_cons, take_succ_cons]
    simp [other, later]
  | case5 => simpa using visible.symm
  | case6 => cases closed
  | case7 character rest _ _ open_ stays induction =>
    have later := induction closed
    have other : '\n' ≠ character := by
      rintro rfl
      exact stays isBreak
    rw [Extent.after, Nat.add_comm 1, take_succ_cons]
    simp [other, later]

theorem not_break_of_scanned {kind : TokenKind} {fault : LexFault}
    (visible : close ≠ '\n') (shown : first ≠ '\n') (isBreak : breaks '\n' = true)
    (isOneLine : ((delimitedExtent close breaks rest).scanned kind fault).1.isOneLine =
      true) :
    '\n' ∉ first :: rest.take
      ((delimitedExtent close breaks rest).scanned kind fault).2 := by
  unfold Extent.scanned at isOneLine ⊢
  dsimp only at isOneLine ⊢
  split at isOneLine
  · next closed =>
    rw [mem_cons, not_or]
    exact ⟨shown.symm, not_break_of_closed visible isBreak closed⟩
  · cases isOneLine

theorem not_break_of_word {word : List Char} (isStart : startsWord first = true)
    (areInner : ∀ character ∈ word, continuesWord character = true) :
    '\n' ∉ first :: word := by
  have noStart : startsWord '\n' = false := by decide
  have noInner : continuesWord '\n' = false := by decide
  intro isBreak
  rcases mem_cons.mp isBreak with rfl | inside
  · rw [noStart] at isStart
    cases isStart
  · have inner := areInner _ inside
    rw [noInner] at inner
    cases inner

theorem not_break_of_scan (isOneLine : (scan first rest).1.isOneLine = true) :
    '\n' ∉ first :: rest.take (scan first rest).2 := by
  by_cases isWord : (scan first rest).1.isWord = true
  · have noOpener (opener : Opener) : (scan first rest).1 ≠ .opener opener := by
      intro isOpener
      rw [isOpener] at isOneLine
      cases isOneLine
    obtain ⟨isStart, word, _⟩ := scan_word isWord noOpener
    rw [word]
    exact not_break_of_word isStart (all_eq_true.mp all_takeWhile)
  · -- Only literals and bracket blocks are left.
    have extent {extent : Extent} {kind : TokenKind} {fault : LexFault}
        (other : kind.isOneLine = false)
        (isOneLine : (extent.scanned kind fault).1.isOneLine = true) : False := by
      rw [Extent.scanned] at isOneLine
      split at isOneLine
      · exact Bool.false_ne_true (other.symm.trans isOneLine)
      · cases isOneLine
    have pair {second : Char} {long short : TokenKind} (longKind : long.isOneLine = false)
        (shortKind : short.isOneLine = false)
        (isOneLine : (scanPair second long short rest).1.isOneLine = true) : False := by
      rw [scanPair] at isOneLine
      split at isOneLine
      · exact Bool.false_ne_true (longKind.symm.trans isOneLine)
      · exact Bool.false_ne_true (shortKind.symm.trans isOneLine)
    generalize result : scan first rest = found at isOneLine isWord ⊢
    unfold scan at result
    split at result
    · exact (pair rfl rfl (result ▸ isOneLine)).elim
    · exact (pair rfl rfl (result ▸ isOneLine)).elim
    · exact (pair rfl rfl (result ▸ isOneLine)).elim
    · exact (pair rfl rfl (result ▸ isOneLine)).elim
    · unfold scanComment at result
      split at result
      · cases result
        cases isOneLine
      · exact (extent rfl (result ▸ isOneLine)).elim
      · cases result
        cases isOneLine
    · subst result
      exact not_break_of_scanned (by decide) (by decide) rfl isOneLine
    · unfold scanAction at result
      dsimp only at result
      split at result
      · cases result
        cases isOneLine
      · exact (extent rfl (result ▸ isOneLine)).elim
    · subst result
      exact not_break_of_scanned (by decide) (by decide) rfl isOneLine
    · split at result
      · cases result
        cases isOneLine
      · split at result
        · cases result
          cases isOneLine
        · split at result
          · subst result
            exact absurd (scanWord_isWord first rest) isWord
          · cases result
            cases isOneLine

theorem not_break_of_isOneLine {source : List Char} {token : Token}
    (member : token ∈ ofText source) (isOneLine : token.kind.isOneLine = true) :
    '\n' ∉ token.text.toList := by
  obtain ⟨placed⟩ := nonempty_placed member
  obtain ⟨before, behind, _, _, _, lexed⟩ := placed
  cases lexed with
  | ended => cases isOneLine
  | scanned solid =>
    rw [String.toList_ofList]
    exact not_break_of_scan isOneLine

end Token

end GrammarInspector
