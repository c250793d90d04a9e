import GrammarInspector.Proofs.Text.Position
import GrammarInspector.Proofs.Token.Placed

/-! # Places of tokens and the texts of names

On one line, columns of tokens grow by the texts between them. Names never touch: a name
ends where its word does, so something stands between it and a name that comes later.
-/

namespace GrammarInspector.Token

open List

/-- The position of a token in its source. -/
def positionIn (source : List Char) (token : Token) : Position :=
  (LineIndex.ofText source).position token.span.start

namespace Placed

variable {source : List Char} {token left right : Token}

theorem position_eq (placed : Placed source token) :
    token.positionIn source = Position.after placed.before := by
  have lines : LineIndex.ofText source =
      LineIndex.ofText (placed.before ++ (token.text.toList ++ placed.behind)) :=
    congrArg LineIndex.ofText placed.source_eq
  rw [positionIn, placed.start_eq, lines, LineIndex.position_ofText]

theorem text_ne_nil (placed : Placed source token) (notEnd : token.kind ≠ .eof) :
    token.text.toList ≠ [] := by
  obtain ⟨_, _, _, _, _, lexed⟩ := placed
  cases lexed with
  | ended => exact absurd rfl notEnd
  | scanned solid => simp

/-- Between two tokens there is some text, perhaps none. -/
theorem exists_gap (first : Placed source left) (second : Placed source right)
    (earlier : left.span.stop ≤ right.span.start) :
    ∃ gap, second.before = first.before ++ (left.text.toList ++ gap) := by
  have firstPrefix : first.before ++ left.text.toList <+: source :=
    ⟨first.behind, by rw [append_assoc]; exact first.source_eq.symm⟩
  have secondPrefix : second.before <+: source := ⟨_, second.source_eq.symm⟩
  rw [first.stop_eq, second.start_eq] at earlier
  obtain ⟨gap, equal⟩ := Text.prefix_of_utf8Length_le firstPrefix secondPrefix earlier
  exact ⟨gap, by rw [← equal, append_assoc]⟩

/-- Names and keywords are words, and the word alone tells which of them it is. -/
theorem exists_word (placed : Placed source token) (isWord : token.kind.isWord = true)
    (noOpener : ∀ opener, token.kind ≠ .opener opener) :
    ∃ first word, token.text = String.ofList (first :: word) ∧ startsWord first = true ∧
      (∀ character ∈ word, continuesWord character = true) ∧
      (∀ next ∈ placed.behind.head?, continuesWord next = false) ∧
      token.kind = wordKind first token.text := by
  obtain ⟨before, behind, _, _, _, lexed⟩ := placed
  cases lexed with
  | ended => cases isWord
  | @scanned first rest span solid =>
    obtain ⟨isStart, word, after, kind⟩ := scan_word isWord noOpener
    refine ⟨first, _, rfl, isStart, ?_, ?_, kind⟩
    · rw [word]
      exact all_eq_true.mp all_takeWhile
    · intro next isNext
      have stops := head?_dropWhile_not continuesWord rest
      dsimp only at isNext
      rw [after] at isNext
      rwa [Option.mem_def.mp isNext] at stops

theorem text_of_keyword (placed : Placed source token) {word : Keyword}
    (isKeyword : token.kind = .keyword word) : token.text = word.text := by
  have isWord : token.kind.isWord = true := by rw [isKeyword]; rfl
  have noOpener (opener : Opener) : token.kind ≠ .opener opener := by rw [isKeyword]; simp
  obtain ⟨first, rest, _, _, _, _, kind⟩ := placed.exists_word isWord noOpener
  exact text_of_wordKind (kind.symm.trans isKeyword)

theorem exists_name (placed : Placed source token)
    (isName : token.kind.isIdentifier = true) :
    ∃ first word, token.text = String.ofList (first :: word) ∧ startsWord first = true ∧
      (∀ character ∈ word, continuesWord character = true) ∧
      (∀ next ∈ placed.behind.head?, continuesWord next = false) ∧
      token.kind = wordKind first token.text := by
  refine placed.exists_word ?_ ?_
  · generalize token.kind = kind at isName
    cases kind <;> cases isName <;> rfl
  · rintro opener isOpener
    rw [isOpener] at isName
    cases isName

/-- A name does not end where another one begins. -/
theorem gap_ne_nil (first : Placed source left) (second : Placed source right)
    (leftName : left.kind.isIdentifier = true)
    (rightName : right.kind.isIdentifier = true) {gap : List Char}
    (equal : second.before = first.before ++ (left.text.toList ++ gap)) : gap ≠ [] := by
  rintro rfl
  obtain ⟨_, _, _, _, _, ends, _⟩ := first.exists_name leftName
  obtain ⟨initial, word, text, isStart, _⟩ := second.exists_name rightName
  have same := first.source_eq.symm.trans second.source_eq
  rw [equal, append_nil, append_assoc] at same
  have behind := append_cancel_left (append_cancel_left same)
  have continues : continuesWord initial = false := by
    refine ends initial ?_
    rw [behind, text, String.toList_ofList]
    rfl
  rw [startsWord, Bool.or_eq_true] at isStart
  rw [continuesWord, Bool.or_eq_false_iff, Bool.or_eq_false_iff] at continues
  rcases isStart with isLetter | isUnderscore
  · rw [continues.1.1] at isLetter
    cases isLetter
  · rw [continues.2] at isUnderscore
    cases isUnderscore

end Placed

variable {source : List Char} {token left right : Token}

theorem not_break_of_isIdentifier (member : token ∈ ofText source)
    (isName : token.kind.isIdentifier = true) : '\n' ∉ token.text.toList := by
  obtain ⟨placed⟩ := nonempty_placed member
  obtain ⟨first, word, text, isStart, areInner, _⟩ := placed.exists_name isName
  have noStart : startsWord '\n' = false := by decide
  have noInner : continuesWord '\n' = false := by decide
  rw [text, String.toList_ofList]
  intro isBreak
  rcases mem_cons.mp isBreak with rfl | inside
  · rw [noStart] at isStart
    cases isStart
  · have inner := areInner _ inside
    rw [noInner] at inner
    cases inner

/-- The text of a name tells whether it names a token or a rule. -/
theorem kind_eq_of_text_eq (leftMember : left ∈ ofText source)
    (rightMember : right ∈ ofText source) (leftName : left.kind.isIdentifier = true)
    (rightName : right.kind.isIdentifier = true) (same : left.text = right.text) :
    left.kind = right.kind := by
  obtain ⟨leftPlaced⟩ := nonempty_placed leftMember
  obtain ⟨rightPlaced⟩ := nonempty_placed rightMember
  obtain ⟨first, word, leftText, _, _, _, leftKind⟩ := leftPlaced.exists_name leftName
  obtain ⟨other, rest, rightText, _, _, _, rightKind⟩ := rightPlaced.exists_name rightName
  have characters : first :: word = other :: rest := by
    rw [← String.toList_ofList (l := first :: word), ← leftText, same, rightText,
      String.toList_ofList]
  rw [leftKind, rightKind, same, (List.cons.inj characters).1]

theorem text_of_keyword (member : token ∈ ofText source) {word : Keyword}
    (isKeyword : token.kind = .keyword word) : token.text = word.text := by
  obtain ⟨placed⟩ := nonempty_placed member
  exact placed.text_of_keyword isKeyword

theorem utf16Length_text_pos (member : token ∈ ofText source)
    (notEnd : token.kind ≠ .eof) : 0 < Text.utf16Length token.text.toList := by
  obtain ⟨placed⟩ := nonempty_placed member
  exact Text.utf16Length_pos (placed.text_ne_nil notEnd)

/-! ## Columns -/

theorem line_le (leftMember : left ∈ ofText source) (rightMember : right ∈ ofText source)
    (earlier : left.span.stop ≤ right.span.start) :
    (left.positionIn source).line ≤ (right.positionIn source).line := by
  obtain ⟨first⟩ := nonempty_placed leftMember
  obtain ⟨second⟩ := nonempty_placed rightMember
  obtain ⟨gap, equal⟩ := first.exists_gap second earlier
  rw [first.position_eq, second.position_eq, equal, Position.after_append]
  exact Position.line_le_foldl_advance _ _

/-- On one line, a token begins behind the text of each token before it. -/
theorem column_le (leftMember : left ∈ ofText source)
    (rightMember : right ∈ ofText source) (earlier : left.span.stop ≤ right.span.start)
    (sameLine : (right.positionIn source).line = (left.positionIn source).line) :
    (left.positionIn source).column + Text.utf16Length left.text.toList ≤
      (right.positionIn source).column := by
  obtain ⟨first⟩ := nonempty_placed leftMember
  obtain ⟨second⟩ := nonempty_placed rightMember
  obtain ⟨gap, equal⟩ := first.exists_gap second earlier
  rw [first.position_eq, second.position_eq, equal] at sameLine ⊢
  rw [(Position.after_append_of_line_eq sameLine).2, Text.utf16Length_append]
  omega

/-- Between two names of one line there is at least one unit. -/
theorem column_lt_of_names (leftMember : left ∈ ofText source)
    (rightMember : right ∈ ofText source) (leftName : left.kind.isIdentifier = true)
    (rightName : right.kind.isIdentifier = true)
    (earlier : left.span.stop ≤ right.span.start)
    (sameLine : (right.positionIn source).line = (left.positionIn source).line) :
    (left.positionIn source).column + Text.utf16Length left.text.toList <
      (right.positionIn source).column := by
  obtain ⟨first⟩ := nonempty_placed leftMember
  obtain ⟨second⟩ := nonempty_placed rightMember
  obtain ⟨gap, equal⟩ := first.exists_gap second earlier
  have apart := Text.utf16Length_pos (first.gap_ne_nil second leftName rightName equal)
  rw [first.position_eq, second.position_eq, equal] at sameLine ⊢
  rw [(Position.after_append_of_line_eq sameLine).2, Text.utf16Length_append]
  omega

end GrammarInspector.Token
