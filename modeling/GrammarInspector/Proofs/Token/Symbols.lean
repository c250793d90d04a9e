import Mathlib.Data.List.Infix
import GrammarInspector.Proofs.Token.OneLine

/-! # The symbols of a delimited text

Literals and bracket blocks are written with symbols: characters that stand for
themselves, and escapes. Scanning ends such a token at its first closing delimiter that no
backslash protects, so splitting the text of the token into symbols finds that delimiter
again, at the end and nowhere before.
-/

namespace GrammarInspector

open List

/-- A character that stands for itself, or a backslash with the character
that it escapes. -/
inductive Symbol where
  | plain (character : Char)
  | escape (escaped : Char)
deriving DecidableEq, Repr

namespace Symbol

def text : Symbol → List Char
  | .plain character => [character]
  | .escape escaped => ['\\', escaped]

/-- The symbols of a text from left to right. A backslash at the end stands for itself. -/
def ofText : List Char → List Symbol
  | [] => []
  | ['\\'] => [.plain '\\']
  | '\\' :: escaped :: rest => .escape escaped :: ofText rest
  | character :: rest => .plain character :: ofText rest

theorem flatMap_text_ofText (characters : List Char) :
    (ofText characters).flatMap text = characters := by
  fun_induction ofText characters with
  | case1 => rfl
  | case2 => rfl
  | case3 escaped rest induction => simp [text, induction]
  | case4 character rest _ _ induction => simp [text, induction]

theorem ofText_cons_of_ne {character : Char} (rest : List Char)
    (other : character ≠ '\\') :
    ofText (character :: rest) = .plain character :: ofText rest := by
  rw [ofText]
  · exact fun isEscape _ => other isEscape
  · exact fun _ _ isEscape _ => other isEscape

/-! ## Escapes among symbols -/

/-- An escape and the symbols in front of it. -/
structure Occurrence where
  front : List Symbol
  escaped : Char

/-- The characters in front of an escape. -/
def Occurrence.before (occurrence : Occurrence) : List Char :=
  occurrence.front.flatMap text

/-- The same escape, with one more symbol in front. -/
def Occurrence.behind (symbol : Symbol) (occurrence : Occurrence) : Occurrence :=
  ⟨symbol :: occurrence.front, occurrence.escaped⟩

theorem Occurrence.before_behind (symbol : Symbol) (occurrence : Occurrence) :
    (occurrence.behind symbol).before = symbol.text ++ occurrence.before := rfl

def occurrence? (front : List Symbol) : Symbol → Option Occurrence
  | .plain _ => none
  | .escape escaped => some ⟨front, escaped⟩

/-- All escapes of some symbols. -/
def escapes (symbols : List Symbol) : List Occurrence :=
  (symbols.inits.zip symbols).filterMap fun entry => entry.2.occurrence? entry.1

theorem escapes_cons (symbol : Symbol) (rest : List Symbol) :
    escapes (symbol :: rest) = (symbol.occurrence? []).toList ++ (escapes rest).map
      (Occurrence.behind symbol) := by
  have moved (entry : List Symbol × Symbol) : entry.2.occurrence? (symbol :: entry.1) =
      (entry.2.occurrence? entry.1).map (Occurrence.behind symbol) := by
    obtain ⟨front, found⟩ := entry
    cases found <;> rfl
  have later : ((rest.inits.map (symbol :: ·)).zip rest).filterMap (fun entry =>
      entry.2.occurrence? entry.1) =
      (escapes rest).map (Occurrence.behind symbol) := by
    rw [zip_map_left, filterMap_map, escapes, map_filterMap]
    exact congrArg (List.filterMap · _) (funext moved)
  rw [escapes, inits_cons, zip_cons_cons, filterMap_cons, later]
  cases symbol <;> rfl

end Symbol

/-! ## Delimited tokens -/

namespace TokenKind

/-- The opening and closing delimiter of literals and bracket blocks. -/
def delimiters? : TokenKind → Option (Char × Char)
  | .literal => some ('\'', '\'')
  | .bracket => some ('[', ']')
  | _ => none

theorem ne_of_delimiters? {kind : TokenKind} {opening close : Char}
    (delimiters : kind.delimiters? = some (opening, close)) :
    opening ≠ '\\' ∧ close ≠ '\\' := by
  cases kind <;> cases delimiters <;> decide

theorem isOneLine_of_delimiters? {kind : TokenKind} {found : Char × Char}
    (delimiters : kind.delimiters? = some found) : kind.isOneLine = true := by
  cases kind <;> first | rfl | cases delimiters

end TokenKind

namespace Token

/-- The end of a delimited token is its first closing delimiter that is not escaped. -/
theorem symbols_of_closed {close : Char} {breaks : Char → Bool} {text : List Char}
    (unlike : close ≠ '\\') (closed : (delimitedExtent close breaks text).closed = true) :
    ∃ inner, Symbol.ofText (text.take (delimitedExtent close breaks text).length) =
      inner ++ [.plain close] ∧
      .plain '\\' ∉ inner ∧ .plain close ∉ inner := by
  fun_induction delimitedExtent close breaks text with
  | case1 => cases closed
  | case2 => cases closed
  | case3 => cases closed
  | case4 next rest stays induction =>
    obtain ⟨inner, equal, noBackslash, noClose⟩ := induction closed
    refine ⟨.escape next :: inner, ?_, by simp [noBackslash], by simp [noClose]⟩
    rw [Extent.after, Nat.add_comm 2, take_succ_cons, take_succ_cons,
      Symbol.ofText, equal]
    rfl
  | case5 rest =>
    refine ⟨[], ?_, not_mem_nil, not_mem_nil⟩
    rw [take_succ_cons, take_zero, Symbol.ofText_cons_of_ne _ unlike]
    rfl
  | case6 => cases closed
  | case7 character rest noEnd noEscape open_ stays induction =>
    obtain ⟨inner, equal, noBackslash, noClose⟩ := induction closed
    have other : character ≠ '\\' := by
      rintro rfl
      cases rest with
      | nil => exact noEnd rfl rfl
      | cons next rest => exact noEscape next rest rfl rfl
    refine ⟨.plain character :: inner, ?_, ?_, ?_⟩
    · rw [Extent.after, Nat.add_comm 1, take_succ_cons,
        Symbol.ofText_cons_of_ne _ other, equal]
      rfl
    · simp [noBackslash, Ne.symm other]
    · simp [noClose, Ne.symm open_]

/-- Literals begin with a quote, bracket blocks with a bracket, and no other token
has delimiters. -/
theorem scan_delimited (first : Char) (rest : List Char) :
    (first = '\'' ∧ scan first rest = (literalExtent rest).scanned .literal
      .unterminatedLiteral) ∨
      (first = '[' ∧ scan first rest = (bracketExtent rest).scanned .bracket
        .unterminatedBracket) ∨
      (scan first rest).1.delimiters? = none := by
  have pair (second : Char) {long short : TokenKind} (longKind : long.delimiters? = none)
      (shortKind : short.delimiters? = none) :
        (scanPair second long short rest).1.delimiters? = none := by
    rw [scanPair]
    split
    · exact longKind
    · exact shortKind
  have extent (extent : Extent) {kind : TokenKind} (fault : LexFault)
      (closed : kind.delimiters? = none) :
      (extent.scanned kind fault).1.delimiters? = none := by
    rw [Extent.scanned]
    split
    · exact closed
    · rfl
  unfold scan
  split
  · exact .inr (.inr (pair _ rfl rfl))
  · exact .inr (.inr (pair _ rfl rfl))
  · exact .inr (.inr (pair _ rfl rfl))
  · exact .inr (.inr (pair _ rfl rfl))
  · right
    right
    unfold scanComment
    split
    · rfl
    · exact extent _ _ rfl
    · rfl
  · exact .inl ⟨rfl, rfl⟩
  · right
    right
    unfold scanAction
    dsimp only
    split
    · rfl
    · exact extent _ _ rfl
  · exact .inr (.inl ⟨rfl, rfl⟩)
  · right
    right
    split
    · rfl
    · split
      · rfl
      · split
        · have isWord := scanWord_isWord first rest
          generalize (scanWord first rest).1 = kind at isWord
          cases kind <;> first | rfl | cases isWord
        · rfl

theorem symbols_of_scanned {opening close first last : Char} {breaks : Char → Bool}
    {kind : TokenKind} {fault : LexFault} {rest : List Char}
    (ofKind : kind.delimiters? = some (opening, close))
    (delimiters : ((delimitedExtent close breaks rest).scanned kind fault).1.delimiters? =
      some (first, last)) :
    ∃ inner, Symbol.ofText
      (opening :: rest.take ((delimitedExtent close breaks rest).scanned kind fault).2) =
      .plain first :: (inner ++ [.plain last]) ∧ .plain '\\' ∉ inner ∧
      .plain last ∉ inner := by
  obtain ⟨noOpening, noClose⟩ := TokenKind.ne_of_delimiters? ofKind
  rw [Extent.scanned] at delimiters ⊢
  dsimp only at delimiters ⊢
  split at delimiters
  · next closed =>
    cases ofKind.symm.trans delimiters
    obtain ⟨inner, equal, apart⟩ := symbols_of_closed noClose closed
    exact ⟨inner, by rw [Symbol.ofText_cons_of_ne _ noOpening, equal], apart⟩
  · cases delimiters

/-- The symbols of a literal or bracket block. -/
theorem symbols_of_delimited {source : List Char} {token : Token}
    (member : token ∈ ofText source) {opening close : Char}
    (delimiters : token.kind.delimiters? = some (opening, close)) :
    ∃ inner, Symbol.ofText token.text.toList =
      .plain opening :: (inner ++ [.plain close]) ∧
      .plain '\\' ∉ inner ∧ .plain close ∉ inner := by
  obtain ⟨placed⟩ := nonempty_placed member
  obtain ⟨_, _, _, _, _, lexed⟩ := placed
  cases lexed with
  | ended => cases delimiters
  | @scanned first rest _ solid =>
    dsimp only at delimiters ⊢
    rw [String.toList_ofList]
    rcases scan_delimited first rest with ⟨rfl, literal⟩ | ⟨rfl, bracket⟩ | none
    · rw [literal] at delimiters ⊢
      exact symbols_of_scanned rfl delimiters
    · rw [bracket] at delimiters ⊢
      exact symbols_of_scanned rfl delimiters
    · cases none.symm.trans delimiters

end Token

end GrammarInspector
