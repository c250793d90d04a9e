import GrammarInspector.Proofs.Token.Scan

/-! # Tokens in their source

Every token covers the bytes of its own text, at one place of the source. The tokens stand
one behind the other, and the last one alone marks the end.
-/

namespace GrammarInspector.Token

open List

/-- A token and the text behind it: the end of the source, or what scanning gives. -/
inductive Lexed : Token → List Char → Prop
  | ended {offset : Nat} : Lexed ⟨.eof, .emptyAt offset, ""⟩ []
  | scanned {first : Char} {rest : List Char} {span : Span}
      (solid : isBlank first = false) :
      Lexed ⟨(scan first rest).1, span,
        String.ofList (first :: rest.take (scan first rest).2)⟩
        (rest.drop (scan first rest).2)

/-- The place of a token in a source. -/
structure Placed (source : List Char) (token : Token) where
  before : List Char
  behind : List Char
  source_eq : source = before ++ (token.text.toList ++ behind)
  start_eq : token.span.start = Text.utf8Length before
  stop_eq : token.span.stop = Text.utf8Length (before ++ token.text.toList)
  lexed : Lexed token behind

theorem nonempty_placedAt {front text : List Char} {token : Token}
    (member : token ∈ ofTextAt (Text.utf8Length front) text) :
    Nonempty (Placed (front ++ text) token) := by
  generalize equal : Text.utf8Length front = offset at member
  fun_induction ofTextAt offset text generalizing front with
  | case1 offset =>
    subst equal
    cases mem_singleton.mp member
    exact ⟨⟨front, [], by simp, rfl, by simp [Span.emptyAt], .ended⟩⟩
  | case2 offset first rest blank induction =>
    have longer : Text.utf8Length (front ++ [first]) = offset + first.utf8Size := by
      simp [Text.utf8Length, equal]
    rw [← singleton_append, ← append_assoc]
    exact induction longer member
  | case3 offset first rest solid kind count scanned lexeme stop =>
    rename_i induction
    subst equal
    have whole : first :: rest = lexeme ++ rest.drop count := by
      rw [cons_append, take_append_drop]
    rcases mem_cons.mp member with rfl | later
    · have lexed : Lexed ⟨kind, ⟨Text.utf8Length front, stop⟩, String.ofList lexeme⟩
          (rest.drop count) := by
        have found : Lexed ⟨(scan first rest).1, ⟨Text.utf8Length front, stop⟩,
            String.ofList (first :: rest.take (scan first rest).2)⟩
            (rest.drop (scan first rest).2) := .scanned (Bool.eq_false_iff.mpr solid)
        rwa [scanned] at found
      exact ⟨⟨front, rest.drop count, by simp [whole], rfl, by simp [stop], lexed⟩⟩
    · have longer : Text.utf8Length (front ++ lexeme) = stop := Text.utf8Length_append _ _
      rw [whole, ← append_assoc]
      exact induction longer later

theorem nonempty_placed {source : List Char} {token : Token}
    (member : token ∈ ofText source) : Nonempty (Placed source token) := by
  have front : token ∈ ofTextAt (Text.utf8Length []) source := member
  exact nonempty_placedAt front

/-! ## Order -/

/-- Tokens one behind the other. -/
def Ordered (tokens : List Token) : Prop :=
  tokens.Pairwise fun left right => left.span.stop ≤ right.span.start

theorem le_start_of_mem {offset : Nat} {text : List Char} {token : Token}
    (member : token ∈ ofTextAt offset text) : offset ≤ token.span.start := by
  fun_induction ofTextAt offset text with
  | case1 offset =>
    cases mem_singleton.mp member
    exact Nat.le_refl offset
  | case2 offset first rest blank induction =>
      exact Nat.le_of_add_right_le (induction member)
  | case3 offset first rest solid kind count scanned lexeme stop =>
    rename_i induction
    rcases mem_cons.mp member with rfl | later
    · exact Nat.le_refl offset
    · exact Nat.le_of_add_right_le (induction later)

theorem ordered_ofTextAt (offset : Nat) (text : List Char) :
    Ordered (ofTextAt offset text) := by
  fun_induction ofTextAt offset text with
  | case1 offset => exact pairwise_singleton _ _
  | case2 offset first rest blank induction => exact induction
  | case3 offset first rest solid kind count scanned lexeme stop =>
    rename_i induction
    exact pairwise_cons.mpr ⟨fun token member => le_start_of_mem member, induction⟩

theorem ordered_ofText (source : List Char) : Ordered (ofText source) :=
  ordered_ofTextAt 0 source

/-- The end is marked once, behind all other tokens. -/
theorem ofTextAt_ends (offset : Nat) (text : List Char) :
    ∃ tokens final, ofTextAt offset text = tokens ++ [final] ∧ final.kind = .eof ∧
      ∀ token ∈ tokens, token.kind ≠ .eof := by
  fun_induction ofTextAt offset text with
  | case1 offset => exact ⟨[], _, rfl, rfl, fun token member => by cases member⟩
  | case2 offset first rest blank induction => exact induction
  | case3 offset first rest solid kind count scanned lexeme stop =>
    rename_i induction
    obtain ⟨tokens, final, equal, isEnd, others⟩ := induction
    rw [equal]
    refine ⟨_ :: tokens, final, rfl, isEnd, forall_mem_cons.mpr ⟨?_, others⟩⟩
    have notEnd := scan_ne_eof first rest
    rwa [scanned] at notEnd

theorem ofText_ends (source : List Char) :
    ∃ tokens final, ofText source = tokens ++ [final] ∧ final.kind = .eof ∧
    ∀ token ∈ tokens, token.kind ≠ .eof :=
  ofTextAt_ends 0 source

end GrammarInspector.Token
