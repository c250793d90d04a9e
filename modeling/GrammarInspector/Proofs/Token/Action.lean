import GrammarInspector.Proofs.Token.Extent
import GrammarInspector.Proofs.Token.Scan

/-! # Actions end where their nesting ends

Code whose strings, character literals and comments are complete and whose braces nest.
Between braces, it is an action that ends with the closing brace, whatever stands behind
it: braces inside a string, a character literal or a comment do not count.
-/

namespace GrammarInspector.Token

open List

variable {comment tail text : List Char} {first : Char}

/-! ## Code -/

/-- The inside of quoted text on one line. A backslash and the next character
belong together. -/
inductive Quoted (quote : Char) : List Char → Prop
  | empty : Quoted quote []
  | plain {character : Char} {rest : List Char} (stays : character ≠ quote)
      (unescaped : character ≠ '\\') (sameLine : character ≠ '\n')
        (more : Quoted quote rest) :
      Quoted quote (character :: rest)
  | escaped (character : Char) {rest : List Char} (more : Quoted quote rest) :
      Quoted quote ('\\' :: character :: rest)

/-- A piece of code without braces that count. -/
inductive Piece : List Char → Prop
  | plain {character : Char}
      (isPlain : character ∉ ['\x7b', '\x7d', '\\', '"', '\'', '/']) :
      Piece [character]
  | escaped (character : Char) : Piece ['\\', character]
  | string {inside : List Char} (isInside : Quoted '"' inside) :
      Piece ('"' :: (inside ++ ['"']))
  | literal {character : Char} (sameLine : character ≠ '\n')
      (unescaped : character ≠ '\\') :
      Piece ['\'', character, '\'']
  | escapedLiteral (character : Char) {inside : List Char}
      (isInside : Quoted '\'' inside) :
      Piece ('\'' :: '\\' :: character :: (inside ++ ['\'']))
  | lineComment {comment : List Char} (sameLine : '\n' ∉ comment) :
      Piece ('/' :: '/' :: (comment ++ ['\n']))
  | blockComment {comment : List Char} (stays : ¬ ['*', '/'] <:+: comment) :
      Piece ('/' :: '*' :: (comment ++ ['*', '/']))

/-- Pieces one behind the other, and code in braces between them. -/
inductive Code : List Char → Prop
  | empty : Code []
  | piece {first rest : List Char} (isPiece : Piece first) (more : Code rest) :
      Code (first ++ rest)
  | nested {inner rest : List Char} (isCode : Code inner) (more : Code rest) :
      Code ('\x7b' :: (inner ++ '\x7d' :: rest))

/-! ## Pieces are passed over as a whole -/

theorem Extent.after_after (extent : Extent) (near far : Nat) :
    (extent.after near).after far = extent.after (far + near) := by
  simp only [Extent.after, Nat.add_assoc]

theorem Quoted.quotedLength_eq {quote : Char} {inside : List Char}
    (isInside : Quoted quote inside) (visible : quote ≠ '\\') (rest : List Char) :
    quotedLength quote (inside ++ quote :: rest) = inside.length + 1 := by
  induction isInside with
  | empty =>
    rw [nil_append, quotedLength_cons visible, if_pos (by simp)]
    rfl
  | plain stays unescaped sameLine more induction =>
    rw [cons_append, quotedLength_cons unescaped,
      if_neg (by simp [stays, sameLine]), induction,
      length_cons]
  | escaped character more induction =>
    rw [cons_append, cons_append, quotedLength, induction, length_cons, length_cons]

theorem lineExtent_append (sameLine : '\n' ∉ comment) (rest : List Char) :
    lineExtent (comment ++ '\n' :: rest) = comment.length := by
  induction comment with
  | nil => rfl
  | cons character comment induction =>
    rw [mem_cons, not_or] at sameLine
    rw [cons_append, lineExtent, if_neg (Ne.symm sameLine.1),
      induction sameLine.2, length_cons]

theorem blockExtent_append (stays : ¬ ['*', '/'] <:+: comment) (rest : List Char) :
    blockExtent (comment ++ '*' :: '/' :: rest) = ⟨comment.length + 2, true⟩ := by
  induction comment with
  | nil => rfl
  | cons character comment induction =>
    have shorter : ¬ ['*', '/'] <:+: comment := fun inside => stays (infix_cons inside)
    rw [cons_append, blockExtent_cons, induction shorter, Extent.after, length_cons]
    · simp only [Extent.mk.injEq, and_true]
      omega
    · rintro behind rfl isSlash
      cases comment with
      | nil => cases isSlash
      | cons second comment =>
        cases isSlash
        exact stays (prefix_append ['*', '/'] comment).isInfix

theorem actionExtent_append (depth : Nat) (skipped rest : List Char) :
    actionExtent skipped.length depth (skipped ++ rest) =
      (actionExtent 0 depth rest).after skipped.length := by
  induction skipped with
  | nil =>
    rw [length_nil, nil_append, Extent.after, Nat.zero_add]
  | cons character skipped induction =>
    rw [length_cons, cons_append, actionExtent, induction, Extent.after_after,
      Nat.add_comm]

/-- A piece is passed over if its first character says how long it is. -/
theorem actionExtent_piece {depth : Nat} {rest : List Char} (noOpening : first ≠ '\x7b')
    (noClosing : first ≠ '\x7d')
    (length_eq : pieceTail first (tail ++ rest) = tail.length) :
    actionExtent 0 depth (first :: tail ++ rest) =
      (actionExtent 0 depth rest).after (first :: tail).length := by
  rw [cons_append, actionExtent_cons noOpening noClosing, length_eq, actionExtent_append,
    Extent.after_after, length_cons, Nat.add_comm]

theorem pieceTail_plain {character : Char} (isPlain : character ∉ ['\\', '"', '\'', '/'])
    (rest : List Char) : pieceTail character rest = 0 := by
  simp only [mem_cons, not_mem_nil, or_false, not_or] at isPlain
  obtain ⟨noEscape, noString, noLiteral, noComment⟩ := isPlain
  rw [pieceTail]
  · exact noEscape
  · exact noString
  · exact fun _ isQuote => absurd isQuote noLiteral
  · exact fun _ _ isQuote => absurd isQuote noLiteral
  · exact fun _ isSlash => absurd isSlash noComment
  · exact fun _ isSlash => absurd isSlash noComment

theorem Piece.actionExtent_eq (isPiece : Piece text) (depth : Nat) (rest : List Char) :
    actionExtent 0 depth (text ++ rest) =
      (actionExtent 0 depth rest).after text.length := by
  cases isPiece with
  | @plain character isPlain =>
    simp only [mem_cons, not_mem_nil, or_false, not_or] at isPlain
    obtain ⟨noOpening, noClosing, isPlain⟩ := isPlain
    exact actionExtent_piece noOpening noClosing
      (pieceTail_plain (by simpa using isPlain) rest)
  | escaped character => exact actionExtent_piece (by decide) (by decide) rfl
  | @string inside isInside =>
    apply actionExtent_piece (by decide) (by decide)
    rw [pieceTail, append_assoc, singleton_append,
      isInside.quotedLength_eq (by decide), length_append, length_singleton]
  | literal sameLine unescaped =>
    apply actionExtent_piece (by decide) (by decide)
    rw [cons_append, cons_append, pieceTail_literal unescaped, if_neg sameLine]
    rfl
  | @escapedLiteral character inside isInside =>
    apply actionExtent_piece (by decide) (by decide)
    have inner := (Quoted.escaped character isInside).quotedLength_eq (by decide) rest
    rw [cons_append, pieceTail, ← cons_append, ← cons_append, ← cons_append,
      append_assoc, singleton_append, inner]
    simp
  | @lineComment comment sameLine =>
    -- The line break behind the comment is a piece of its own.
    have passed : actionExtent 0 depth ('/' :: '/' :: comment ++ (['\n'] ++ rest)) =
        (actionExtent 0 depth (['\n'] ++ rest)).after ('/' :: '/' :: comment).length := by
      apply actionExtent_piece (by decide) (by decide)
      exact congrArg (· + 1) (lineExtent_append sameLine rest)
    have breakPassed :
        actionExtent 0 depth (['\n'] ++ rest) = (actionExtent 0 depth rest).after
        ['\n'].length :=
      actionExtent_piece (by decide) (by decide) rfl
    rw [← cons_append, ← cons_append, append_assoc, passed, breakPassed,
      Extent.after_after, length_append]
  | @blockComment comment stays =>
    apply actionExtent_piece (by decide) (by decide)
    rw [cons_append, pieceTail, append_assoc, cons_append, singleton_append,
      blockExtent_append stays rest]
    simp

/-- Behind code, an action goes on at the depth it had in front of the code. -/
theorem Code.actionExtent_eq (isCode : Code text) (depth : Nat) (rest : List Char) :
    actionExtent 0 depth (text ++ rest) =
      (actionExtent 0 depth rest).after text.length := by
  induction isCode generalizing depth rest with
  | empty => exact actionExtent_append depth [] rest
  | @piece first more isPiece isMore induction =>
    rw [append_assoc, isPiece.actionExtent_eq, induction, Extent.after_after,
      length_append]
  | @nested inner more isCode isMore within behind =>
    rw [cons_append, append_assoc, actionExtent, within, cons_append, actionExtent,
      behind, Extent.after_after, Extent.after_after, Extent.after_after, length_cons,
      length_append, length_cons]
    exact congrArg (Extent.after · _) (by omega)

theorem Code.scanAction_eq {body : List Char} (isCode : Code body) (behind : List Char) :
    scanAction (body ++ '\x7d' :: behind) =
      if behind.head? = some '?' then (.predicate, body.length + 2)
      else (.action, body.length + 1) := by
  have extent_eq : actionExtent 0 0 (body ++ '\x7d' :: behind) =
      ⟨body.length + 1, true⟩ := by
    rw [isCode.actionExtent_eq, actionExtent, Extent.after]
  have rest_eq : (body ++ '\x7d' :: behind).drop (body.length + 1) = behind := by
    rw [append_cons, drop_left']
    simp
  rw [scanAction, extent_eq]
  dsimp only
  rw [rest_eq, Bool.true_and, Extent.scanned]
  simp only [decide_eq_true_eq, if_true]

/-- The first token of a text, when scanning counts the characters of `tail` to it. -/
theorem ofText_append {behind : List Char} {kind : TokenKind}
    (solid : isBlank first = false)
    (scanned : scan first (tail ++ behind) = (kind, tail.length)) :
    ofText (first :: tail ++ behind) = ⟨kind, ⟨0, Text.utf8Length (first :: tail)⟩,
        String.ofList (first :: tail)⟩ ::
        ofTextAt (Text.utf8Length (first :: tail)) behind := by
  rw [ofText, cons_append, ofTextAt_of_solid solid, scanned]
  dsimp only
  rw [take_left, drop_left, Nat.zero_add]

/-- Code in braces is an action, and with a question mark behind it a predicate. It
is the first token of any text that begins with it, and the text behind it is
scanned on its own. -/
theorem ofText_action {body : List Char} (isCode : Code body) (behind : List Char) :
    let action := '\x7b' :: (body ++ ['\x7d'])
    let predicate := action ++ ['?']
    (behind.head? ≠ some '?' → ofText (action ++ behind) =
      ⟨.action, ⟨0, Text.utf8Length action⟩, String.ofList action⟩ :: ofTextAt
        (Text.utf8Length action) behind) ∧
    ofText (predicate ++ behind) = ⟨.predicate, ⟨0, Text.utf8Length predicate⟩,
        String.ofList predicate⟩ :: ofTextAt (Text.utf8Length predicate) behind := by
  intro action predicate
  constructor
  · intro noQuestion
    apply ofText_append (by decide)
    rw [scan, append_assoc, singleton_append, isCode.scanAction_eq, if_neg noQuestion,
      length_append, length_singleton]
  · have split : body ++ ['\x7d'] ++ ['?'] ++ behind = body ++ '\x7d' :: '?' ::
        behind := by simp
    have scanned := isCode.scanAction_eq ('?' :: behind)
    rw [head?_cons, if_pos rfl, ← split] at scanned
    exact ofText_append (by decide) (scanned.trans (by simp))

/-- None of the braces in the string, the character literal and the comment counts. -/
theorem ofText_action_braces : let body :=
  ['"', '\x7d', '"', '\x7b', '\'', '\x7b', '\'', '\x7d', '/', '*', '\x7d', '*', '/']
    Code body ∧ ofText ('\x7b' :: (body ++ ['\x7d', '?', ';'])) =
      ⟨.predicate, ⟨0, 16⟩, String.ofList ('\x7b' :: (body ++ ['\x7d', '?']))⟩ :: ofTextAt
        16 [';'] := by
  intro body
  have comment : Piece ['/', '*', '\x7d', '*', '/'] :=
    @Piece.blockComment ['\x7d'] (by decide)
  have isCode : Code body :=
    .piece (.string (.plain (by decide) (by decide) (by decide) .empty))
      (.nested (.piece (.literal (by decide) (by decide)) .empty) (.piece comment .empty))
  exact ⟨isCode, (ofText_action isCode [';']).2⟩

end GrammarInspector.Token
