import GrammarInspector.Grammar.Basic
import GrammarInspector.Proofs.Grammar.Complete.Reading
import GrammarInspector.Proofs.Token.Placed

/-! # The language that is read without errors

A source has no syntax errors exactly if all its text is made of tokens and these tokens,
apart from comments, are a phrase of the grammar language.
-/

namespace GrammarInspector

open List

namespace Token

theorem isSignificant_of_kind {token : Token}
    (noFault : ∀ fault, token.kind ≠ .error fault) (notEnd : token.kind ≠ .eof) :
    token.isSignificant = !token.kind.isComment := by
  unfold isSignificant
  split
  · rename_i flavour isComment
    rw [isComment]
    rfl
  · rename_i fault isFault
    exact absurd isFault (noFault fault)
  · rename_i isEnd
    exact absurd isEnd notEnd
  · rename_i noComment _ _
    cases kind : token.kind with
    | comment flavour => exact absurd kind (noComment flavour)
    | _ => rfl

/-- Without faulty text, the tokens other than comments are those the grammar is read from
and the end. -/
theorem kinds_of_ofText {source : List Char}
    (noFaults : ∀ token ∈ ofText source, ∀ fault, token.kind ≠ .error fault) :
    ((ofText source).filter (!·.kind.isComment)).map Token.kind =
      ((ofText source).filter (·.isSignificant)).map Token.kind ++ [.eof] := by
  obtain ⟨tokens, final, equal, isEnd, others⟩ := ofText_ends source
  rw [equal] at noFaults ⊢
  have same : tokens.filter (·.isSignificant) = tokens.filter (!·.kind.isComment) := by
    refine filter_congr fun token member => ?_
    exact isSignificant_of_kind (noFaults token (mem_append_left _ member))
      (others token member)
  have finalKept : [final].filter (!·.kind.isComment) = [final] :=
    filter_cons_of_pos (by rw [isEnd]; rfl)
  have finalDropped : [final].filter (·.isSignificant) = [] :=
    filter_cons_of_neg (by rw [isSignificant, isEnd]; exact Bool.false_ne_true)
  rw [filter_append, filter_append, same, finalKept, finalDropped, map_append,
    append_nil, map_singleton, isEnd]

end Token

namespace SyntaxError

theorem ofToken?_eq_none_iff {token : Token} :
    ofToken? token = none ↔ ∀ fault, token.kind ≠ .error fault := by
  unfold ofToken?
  split
  · rename_i fault isFault
    simp [isFault]
  · rename_i noFault
    simpa using noFault

end SyntaxError

namespace Reading

theorem faults_eq_nil_iff (tokens : List Token) :
    (ofTokens tokens).faults = [] ↔
    (Ebnf.construct .grammarSpec).Derives (tokens.map Token.kind ++ [.eof]) :=
  ⟨derives_of_faults_nil, faults_nil_of_derives⟩

end Reading

namespace Grammar

/-- Errors are faulty text and faults of reading, in some order. -/
theorem errors_eq_nil_iff (source : String) : (ofSource source).errors = [] ↔
      (∀ token ∈ Token.ofText source.toList, ∀ fault, token.kind ≠ .error fault) ∧
        (Reading.ofTokens ((Token.ofText source.toList).filter
          (·.isSignificant))).faults = [] := by
  rw [ofSource]
  dsimp only
  rw [← length_eq_zero_iff, length_mergeSort, length_eq_zero_iff,
    append_eq_nil_iff, filterMap_eq_nil_iff, map_eq_nil_iff]
  simp only [SyntaxError.ofToken?_eq_none_iff]

/-- A source is read without errors if and only if it has no faulty text and its tokens,
comments apart, can be derived from the productions of the grammar language. -/
theorem errors_eq_nil_iff_derives (source : String) :
    (ofSource source).errors = [] ↔
      (∀ token ∈ Token.ofText source.toList, ∀ fault, token.kind ≠ .error fault) ∧
        (Ebnf.construct .grammarSpec).Derives
          (((Token.ofText source.toList).filter (!·.kind.isComment)).map Token.kind) := by
  rw [errors_eq_nil_iff]
  refine and_congr_right fun noFaults => ?_
  rw [Reading.faults_eq_nil_iff, Token.kinds_of_ofText noFaults]

end Grammar

end GrammarInspector
