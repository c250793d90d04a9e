import GrammarInspector.Proofs.Grammar.Alike.Labels
import GrammarInspector.Proofs.Grammar.Alike.Reading
import GrammarInspector.Proofs.Grammar.Texts

/-! # Layout

Blanks, comments, line breaks and faulty text between the tokens of a grammar have no
influence on how it is read. Sources with the same kinds and texts of tokens, in the same
order, give the same flavour, trees that differ in places only, the same labels and the
same errors of constructs.
-/

namespace GrammarInspector

open List

variable {tokens others : List Token} {pairs : List (Token × Token)}
  {size otherSize : Nat}

/-! ## Tokens -/

/-- What a token is, wherever it stands. -/
def Token.lexeme (token : Token) : TokenKind × String := (token.kind, token.text)

theorem Token.kinds_of_lexemes (same : tokens.map lexeme = others.map lexeme) :
    tokens.map Token.kind = others.map Token.kind := by
  have firsts := congrArg (List.map Prod.fst) same
  rwa [map_map, map_map] at firsts

theorem Token.alike_of_lexemes (same : tokens.map lexeme = others.map lexeme) :
    Forall₂ (Token.Alike .anywhere) tokens others := by
  rw [← forall₂_eq_eq_eq, forall₂_map_left_iff, forall₂_map_right_iff] at same
  exact same.imp fun token other equal =>
    ⟨congrArg Prod.fst equal, congrArg Prod.snd equal, trivial⟩

/-! ## Errors -/

/-- Whether an error is one of a single token, not of a construct. -/
def SyntaxCause.isLexical : SyntaxCause → Bool
  | .lexical _ => true
  | _ => false

/-- The ends of two sources with tokens in front of them, which go together in pairs. -/
structure Span.Ends (pairs : List (Token × Token)) (size otherSize : Nat) : Prop where
  inStep : Token.InStep pairs
  first : ∀ pair ∈ pairs, pair.1.span.start < size
  second : ∀ pair ∈ pairs, pair.2.span.start < otherSize

/-- Places where two tokens of a pair begin, or the ends of the sources. -/
def Span.BeginTogether (pairs : List (Token × Token)) (size otherSize : Nat)
    (span other : Span) : Prop :=
  span.BeginWith pairs other ∨ span.start = size ∧ other.start = otherSize

theorem Span.BeginTogether.inOrder {left right first second : Span}
    (lefts : left.BeginTogether pairs size otherSize first)
    (ends : Ends pairs size otherSize)
    (rights : right.BeginTogether pairs size otherSize second) :
    left.start ≤ right.start ↔ first.start ≤ second.start := by
  rcases lefts with ⟨pair, member, start, otherStart⟩ | ⟨start, otherStart⟩
  · rcases rights with ⟨next, nextMember, nextStart, nextOther⟩ | ⟨nextStart, nextOther⟩
    · rw [← start, ← otherStart, ← nextStart, ← nextOther]
      exact ends.inStep pair member next nextMember
    · have before := ends.first pair member
      have otherBefore := ends.second pair member
      omega
  · rcases rights with ⟨next, nextMember, nextStart, nextOther⟩ | ⟨nextStart, nextOther⟩
    · have before := ends.first next nextMember
      have otherBefore := ends.second next nextMember
      omega
    · omega

/-- Errors with one cause and one text, at places that go together. -/
structure SyntaxError.Alike (together : Span → Span → Prop)
    (error other : SyntaxError) : Prop where
  cause : error.cause = other.cause
  offending : error.offending = other.offending
  span : together error.span other.span

theorem SyntaxError.Alike.message {together : Span → Span → Prop}
    {error other : SyntaxError} (alike : error.Alike together other) :
    error.message = other.message := by
  rw [SyntaxError.message, SyntaxError.message, alike.cause, alike.offending]

theorem SyntaxError.alike_ofFault {inStep : Token.InStep pairs}
    {fault other : SyntaxFault}
    (alike : fault.Alike (Option.Rel (Token.Alike (.beginning pairs inStep))) other) :
    (ofFault size fault).Alike (Span.BeginTogether pairs size otherSize)
      (ofFault otherSize other) := by
  obtain ⟨extraneous, expected, found⟩ := fault
  obtain ⟨_, _, otherFound⟩ := other
  obtain ⟨rfl, rfl, meets⟩ := alike
  cases meets with
  | none => exact ⟨rfl, rfl, Or.inr ⟨rfl, rfl⟩⟩
  | some same => exact ⟨rfl, congrArg Text.firstLine same.text, Or.inl same.span⟩

namespace Grammar

variable {source : String}

/-- The errors of constructs, in source order. -/
def parserErrors (grammar : Grammar) : List SyntaxError :=
  grammar.errors.filter (!·.cause.isLexical)

/-- The errors of constructs come from the faults that were met, sorted by place. -/
theorem parserErrors_eq (source : String) :
    (ofSource source).parserErrors =
      ((Reading.ofTokens (significantTokens source)).faults.map
      (SyntaxError.ofFault (LineIndex.ofText source.toList).size)).mergeSort
        fun first second => first.span.start ≤ second.span.start := by
  have ofTokens : ∀ error ∈ (Token.ofText source.toList).filterMap SyntaxError.ofToken?,
      ¬(!error.cause.isLexical) = true := by
    intro error member
    obtain ⟨token, _, isError⟩ := mem_filterMap.mp member
    unfold SyntaxError.ofToken? at isError
    split at isError
    · cases isError
      simp [SyntaxCause.isLexical]
    · cases isError
  have ofFaults : ∀ error ∈ (Reading.ofTokens (significantTokens source)).faults.map
      (SyntaxError.ofFault (LineIndex.ofText source.toList).size),
        (!error.cause.isLexical) = true := by
    intro error member
    obtain ⟨⟨extraneous, expected, found⟩, _, rfl⟩ := mem_map.mp member
    cases extraneous <;> cases found <;> rfl
  refine (filter_mergeSort (ranks_of_key fun error : SyntaxError => error.span.start)
    _ _).trans ?_
  rw [filter_append, filter_eq_nil_iff.mpr ofTokens, nil_append]
  exact congrArg (List.mergeSort · _) (filter_eq_self.mpr ofFaults)

theorem parserErrors_perm (source : String) :
    (ofSource source).parserErrors.Perm
      ((Reading.ofTokens (significantTokens source)).faults.map
      (SyntaxError.ofFault (LineIndex.ofText source.toList).size)) := by
  rw [parserErrors_eq]
  exact mergeSort_perm ..

theorem stop_le_size {token : Token} (member : token ∈ significantTokens source) :
    token.span.stop ≤ (LineIndex.ofText source.toList).size := by
  obtain ⟨placed⟩ := Token.nonempty_placed (mem_ofText member)
  have whole : (LineIndex.ofText source.toList).size = Text.utf8Length source.toList :=
    rfl
  rw [whole, placed.source_eq, placed.stop_eq, ← append_assoc,
    Text.utf8Length_append (placed.before ++ token.text.toList)]
  omega

/-- The tokens of two sources and their ends are in the same order. -/
theorem ends_of_tokens (source other : String) : Span.Ends
    ((significantTokens source).zip (significantTokens other))
      (LineIndex.ofText source.toList).size (LineIndex.ofText other.toList).size where
  inStep :=
    Token.inStep_zip (ordered_significantTokens source) (ordered_significantTokens other)
    (fun _ member => start_lt_stop member) fun _ member => start_lt_stop member
  first pair member := by
    have inSource := (of_mem_zip member).1
    exact Nat.lt_of_lt_of_le (start_lt_stop inSource) (stop_le_size inSource)
  second pair member := by
    have inOther := (of_mem_zip member).2
    exact Nat.lt_of_lt_of_le (start_lt_stop inOther) (stop_le_size inOther)

/-- The errors of constructs are alike if the tokens are. -/
theorem parserErrors_alike {other : String}
    (alike : Forall₂ (Token.Alike .anywhere) (significantTokens source)
      (significantTokens other)) :
    Forall₂ (SyntaxError.Alike (Span.BeginTogether
        ((significantTokens source).zip (significantTokens other))
        (LineIndex.ofText source.toList).size (LineIndex.ofText other.toList).size))
      (ofSource source).parserErrors (ofSource other).parserErrors := by
  have ends := ends_of_tokens source other
  have faults := (Reading.ofTokens_alike (Token.alike_beginning ends.inStep alike)).faults
  rw [parserErrors_eq, parserErrors_eq]
  refine forall₂_mergeSort (fun _ _ _ _ same sameToo =>
    same.span.inOrder ends sameToo.span) ?_
  rw [forall₂_map_left_iff, forall₂_map_right_iff]
  exact faults.imp fun _ _ => SyntaxError.alike_ofFault

/-- The labels are the same if the tokens are, also where others stand between them. -/
theorem labels_alike_of_sublist {changed : String} {others : List Token}
    (alike : Forall₂ (Token.Alike .anywhere) (significantTokens source) others)
    (part : others.Sublist (significantTokens changed))
    (sameTree : (ofSource changed).tree = (Reading.ofTokens others).tree) :
    Forall₂ (Labelled.Alike .anywhere) (ofSource source).labels
      (ofSource changed).labels := by
  have inStep : Token.InStep ((significantTokens source).zip others) :=
    Token.inStep_zip (ordered_significantTokens source)
      ((ordered_significantTokens changed).sublist part)
      (fun token member => start_lt_stop member) fun token member =>
        start_lt_stop (part.subset member)
  have trees := (Reading.ofTokens_alike (Token.alike_beginning inStep alike)).tree
  rw [← sameTree] at trees
  exact (labels_alike (Span.Pairing.inOrder_beginning inStep) trees).imp fun _ _ same =>
    same.anywhere

/-- Sources with the same tokens, wherever they stand, are read alike: with the same
flavour, trees that differ in places only, the same labels at the same alternatives, and
the same messages of constructs. -/
theorem layout_irrelevant (source other : String)
    (same : (significantTokens source).map Token.lexeme =
      (significantTokens other).map Token.lexeme) :
    (ofSource source).flavour = (ofSource other).flavour ∧
      (ofSource source).tree.Alike .anywhere (ofSource other).tree ∧
      Forall₂ (Labelled.Alike .anywhere) (ofSource source).labels
        (ofSource other).labels ∧
      (ofSource source).parserErrors.map (·.message) =
        (ofSource other).parserErrors.map (·.message) := by
  have alike := Token.alike_of_lexemes same
  have reading := Reading.ofTokens_alike alike
  refine ⟨reading.flavour, reading.tree, labels_alike_of_sublist alike (.refl _) rfl, ?_⟩
  rw [← forall₂_eq_eq_eq, forall₂_map_left_iff, forall₂_map_right_iff]
  exact (parserErrors_alike alike).imp fun _ _ errors => errors.message

/-- A rule with a label and two faulty rules, on one line. -/
def onOneLine : String := "grammar G; s : B # X ; t ( ; u C ;"

/-- The same with comments, line breaks and a character that is no token. -/
def onManyLines : String := "grammar /* c */ G;\ns : B\n  # X\n  ;\nt ( ; // d\nu ^ C ;\n"

theorem layout_irrelevant_commented :
    ((ofSource onOneLine).labels.length = 1 ∧
      (ofSource onOneLine).parserErrors.length = 2) ∧
      (ofSource onOneLine).tree.Alike .anywhere (ofSource onManyLines).tree ∧
      Forall₂ (Labelled.Alike .anywhere) (ofSource onOneLine).labels
        (ofSource onManyLines).labels ∧
      (ofSource onOneLine).parserErrors.map (·.message) =
        (ofSource onManyLines).parserErrors.map (·.message) := by
  have same : (significantTokens onOneLine).map Token.lexeme =
      (significantTokens onManyLines).map Token.lexeme := by decide +kernel
  refine ⟨⟨?_, ?_⟩, (layout_irrelevant onOneLine onManyLines same).2⟩
  · rw [labels, length_mergeSort]
    decide +kernel
  · rw [(parserErrors_perm onOneLine).length_eq]
    decide +kernel

end Grammar

end GrammarInspector
