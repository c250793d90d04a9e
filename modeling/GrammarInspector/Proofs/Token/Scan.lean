import GrammarInspector.Token.Scan

/-! # What scanning finds

The kind that scanning gives to a token and what is known of its text then. Names and
keywords are words that end where the word does, and the word alone tells which of them it
is.
-/

namespace GrammarInspector

namespace TokenKind

/-- The kinds of tokens that begin like a name. -/
def isWord : TokenKind → Bool
  | .keyword _ | .opener _ | .tokenRef | .ruleRef => true
  | _ => false

end TokenKind

namespace Token

/-- A token that scanning finds is a word, or neither a word nor the end. -/
theorem scan_cases (first : Char) (rest : List Char) :
    (startsWord first = true ∧ scan first rest = scanWord first rest) ∨
      ((scan first rest).1.isWord = false ∧ (scan first rest).1 ≠ .eof) := by
  have pair (second : Char) (long short : TokenKind)
      (longKind : long.isWord = false ∧ long ≠ .eof)
      (shortKind : short.isWord = false ∧ short ≠ .eof) :
      (scanPair second long short rest).1.isWord = false ∧
      (scanPair second long short rest).1 ≠ .eof := by
    rw [scanPair]
    split
    · exact longKind
    · exact shortKind
  have extent (extent : Extent) (kind : TokenKind) (fault : LexFault)
      (closed : kind.isWord = false ∧ kind ≠ .eof) :
      (extent.scanned kind fault).1.isWord = false ∧
      (extent.scanned kind fault).1 ≠ .eof := by
    rw [Extent.scanned]
    split
    · exact closed
    · exact ⟨rfl, TokenKind.noConfusion⟩
  unfold scan
  split
  · exact Or.inr (pair _ _ _ (by decide) (by decide))
  · exact Or.inr (pair _ _ _ (by decide) (by decide))
  · exact Or.inr (pair _ _ _ (by decide) (by decide))
  · exact Or.inr (pair _ _ _ (by decide) (by decide))
  · right
    unfold scanComment
    split
    · exact ⟨rfl, TokenKind.noConfusion⟩
    · exact extent _ _ _ ⟨rfl, TokenKind.noConfusion⟩
    · exact ⟨rfl, TokenKind.noConfusion⟩
  · exact Or.inr (extent _ _ _ (by decide))
  · right
    unfold scanAction
    dsimp only
    split
    · exact ⟨rfl, TokenKind.noConfusion⟩
    · exact extent _ _ _ (by decide)
  · exact Or.inr (extent _ _ _ (by decide))
  · split
    · exact Or.inr ⟨rfl, TokenKind.noConfusion⟩
    · split
      · exact Or.inr ⟨rfl, TokenKind.noConfusion⟩
      · split
        · rename_i isStart
          exact Or.inl ⟨isStart, rfl⟩
        · exact Or.inr ⟨rfl, TokenKind.noConfusion⟩

theorem wordKind_isWord (first : Char) (word : String) :
    (wordKind first word).isWord = true := by
  unfold wordKind
  split
  · rfl
  · split
    · rfl
    · rfl

theorem scanWord_isWord (first : Char) (rest : List Char) :
    (scanWord first rest).1.isWord = true := by
  rw [scanWord]
  split
  · rfl
  · exact wordKind_isWord _ _

theorem scan_ne_eof (first : Char) (rest : List Char) : (scan first rest).1 ≠ .eof := by
  rcases scan_cases first rest with ⟨_, equal⟩ | ⟨_, other⟩
  · intro isEnd
    have isWord := scanWord_isWord first rest
    rw [← equal, isEnd] at isWord
    cases isWord
  · exact other

/-- Names and keywords go as far as characters of words do, and their text
tells their kind. -/
theorem scan_word {first : Char} {rest : List Char}
    (isWord : (scan first rest).1.isWord = true)
    (noOpener : ∀ opener, (scan first rest).1 ≠ .opener opener) :
    startsWord first = true ∧ rest.take (scan first rest).2 =
      rest.takeWhile continuesWord ∧
      rest.drop (scan first rest).2 = rest.dropWhile continuesWord ∧
      (scan first rest).1 =
        wordKind first (String.ofList (first :: rest.take (scan first rest).2)) := by
  rcases scan_cases first rest with ⟨isStart, equal⟩ | ⟨noWord, _⟩
  · have word : rest.take (rest.takeWhile continuesWord).length =
        rest.takeWhile continuesWord :=
      (List.prefix_iff_eq_take.mp (List.takeWhile_prefix _)).symm
    have behind : rest.drop (rest.takeWhile continuesWord).length =
        rest.dropWhile continuesWord := by
      have cut := congrArg (List.drop (rest.takeWhile continuesWord).length)
        (List.takeWhile_append_dropWhile (p := continuesWord) (l := rest))
      rwa [List.drop_left, eq_comm] at cut
    rw [equal] at noOpener ⊢
    refine ⟨isStart, ?_⟩
    unfold scanWord at noOpener ⊢
    dsimp only at noOpener ⊢
    split
    · rename_i opener distance isOpener isBrace
      rw [isOpener, isBrace] at noOpener
      exact absurd rfl (noOpener opener)
    · exact ⟨word, behind, rfl⟩
  · rw [noWord] at isWord
    cases isWord

/-- A text that does not begin with a blank begins with a token. -/
theorem ofTextAt_of_solid {first : Char} (solid : isBlank first = false) (offset : Nat)
    (rest : List Char) : let lexeme := first :: rest.take (scan first rest).2
    let stop := offset + Text.utf8Length lexeme
    ofTextAt offset (first :: rest) = ⟨(scan first rest).1, ⟨offset, stop⟩,
        String.ofList lexeme⟩ :: ofTextAt stop (rest.drop (scan first rest).2) := by
  rw [ofTextAt, if_neg (Bool.eq_false_iff.mp solid)]

theorem text_of_wordKind {first : Char} {word : String} {keyword : Keyword}
    (equal : wordKind first word = .keyword keyword) : word = keyword.text := by
  unfold wordKind at equal
  split at equal
  · rename_i found
    cases equal
    rw [Keyword.ofText?] at found
    have same := List.find?_some found
    exact (eq_of_beq same).symm
  · split at equal
    · cases equal
    · cases equal

end Token

end GrammarInspector
