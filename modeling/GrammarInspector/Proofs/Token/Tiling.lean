import GrammarInspector.Proofs.Token.Names

/-! # Tokens and blanks make up the source

Every character of a source belongs to one token, or it is a blank between tokens. So the
gaps between the tokens and the texts of the tokens, one behind the other, are the source
again.
-/

namespace GrammarInspector

open List

namespace Text

theorem utf8ByteSize_ofList (text : List Char) :
    (String.ofList text).utf8ByteSize = utf8Length text := by
  induction text with
  | nil => rfl
  | cons character rest induction =>
    rw [String.ofList_cons, String.utf8ByteSize_append, String.utf8ByteSize_singleton,
      induction, utf8Length]

theorem utf8ByteSize_eq (source : String) :
    source.utf8ByteSize = utf8Length source.toList := by
  rw [← utf8ByteSize_ofList, String.ofList_toList]

/-- The end of a text that a source begins with does not lie inside a character. -/
theorem isValid_utf8Length {source : String} {before : List Char}
    (begins : before <+: source.toList) :
    String.Pos.Raw.IsValid source ⟨utf8Length before⟩ := by
  obtain ⟨behind, whole⟩ := begins
  apply String.Pos.Raw.isValid_iff_exists_append.mpr
  refine ⟨String.ofList before, String.ofList behind, ?_, ?_⟩
  · rw [← String.ofList_append, whole, String.ofList_toList]
  · rw [← utf8ByteSize_ofList]
    rfl

/-- Where a character of two texts stands: in the first one or in the second one. -/
theorem cases_of_append_eq {left right before behind : List Char} {character : Char}
    (whole : left ++ right = before ++ character :: behind) :
    (∃ inner, left = before ++ character :: inner) ∨
      ∃ inner, before = left ++ inner ∧ right = inner ++ character :: behind := by
  rcases append_eq_append_iff.mp whole with
    ⟨inner, before_eq, right_eq⟩ | ⟨inner, left_eq, rest⟩
  · exact Or.inr ⟨inner, before_eq, right_eq⟩
  · cases inner with
    | nil =>
      refine Or.inr ⟨[], ?_, rest.symm⟩
      rw [left_eq, append_nil, append_nil]
    | cons first inner =>
      cases rest
      exact Or.inl ⟨inner, left_eq⟩

end Text

namespace Token

/-- Gaps and tokens one behind the other, from an offset to the end of a text. The
gaps are blank. -/
inductive Tiles : Nat → List Token → List Char → Prop
  | ended {offset : Nat} {gap : List Char} (blank : ∀ character ∈ gap,
      isBlank character = true) :
      Tiles offset [⟨.eof, .emptyAt (offset + Text.utf8Length gap), ""⟩] gap
  | token {offset : Nat} {gap rest : List Char} {token : Token} {tokens : List Token}
      (blank : ∀ character ∈ gap, isBlank character = true)
      (start_eq : token.span.start = offset + Text.utf8Length gap)
      (stop_eq : token.span.stop = token.span.start + Text.utf8Length token.text.toList)
      (later : Tiles token.span.stop tokens rest) :
      Tiles offset (token :: tokens) (gap ++ (token.text.toList ++ rest))

namespace Tiles

variable {offset : Nat} {tokens : List Token} {text : List Char}

theorem blank {first : Char} (isBlank : isBlank first = true)
    (tiles : Tiles (offset + first.utf8Size) tokens text) :
    Tiles offset tokens (first :: text) := by
  cases tiles with
  | ended blank =>
    have longer := @Tiles.ended offset _ (forall_mem_cons.mpr ⟨isBlank, blank⟩)
    rwa [Text.utf8Length, ← Nat.add_assoc] at longer
  | token blank start_eq stop_eq later =>
    refine Tiles.token (forall_mem_cons.mpr ⟨isBlank, blank⟩) ?_ stop_eq later
    rw [start_eq, Text.utf8Length, Nat.add_assoc]

/-- A character is blank, or some token covers all its bytes. -/
theorem covers (tiles : Tiles offset tokens text) {before behind : List Char}
    {character : Char} (whole : text = before ++ character :: behind) :
    isBlank character = true ∨ ∃ token ∈ tokens, token.span.start ≤
        offset + Text.utf8Length before ∧
        offset + Text.utf8Length before + character.utf8Size ≤ token.span.stop := by
  induction tiles generalizing before with
  | ended blank =>
    apply Or.inl
    apply blank
    simp [whole]
  | @token offset gap rest token tokens blank start_eq stop_eq later induction =>
    -- The character stands in the gap, in the text of the token, or behind the token.
    rcases Text.cases_of_append_eq whole with ⟨inner, inGap⟩ | ⟨inner, rfl, behindGap⟩
    · apply Or.inl
      apply blank
      simp [inGap]
    rcases Text.cases_of_append_eq behindGap with
      ⟨further, inToken⟩ | ⟨further, rfl, behindToken⟩
    · refine Or.inr ⟨token, mem_cons_self .., ?_⟩
      rw [stop_eq, start_eq, inToken]
      simp only [Text.utf8Length_append, Text.utf8Length]
      omega
    · have place : offset + Text.utf8Length (gap ++ (token.text.toList ++ further)) =
          token.span.stop + Text.utf8Length further := by
        simp only [Text.utf8Length_append, stop_eq, start_eq, Nat.add_assoc]
      rw [place]
      rcases induction behindToken with isBlank | ⟨other, member, covered⟩
      · exact Or.inl isBlank
      · exact Or.inr ⟨other, mem_cons_of_mem _ member, covered⟩

/-- Every token has a gap in front of it, perhaps an empty one, and nothing stands
behind the last. -/
theorem exists_gaps (tiles : Tiles offset tokens text) :
    ∃ gaps : List (List Char), gaps.length = tokens.length ∧
      (∀ gap ∈ gaps, ∀ character ∈ gap, isBlank character = true) ∧
      text = (List.zipWith (fun gap token => gap ++ token.text.toList) gaps
        tokens).flatten := by
  induction tiles with
  | @ended offset gap blank =>
    refine ⟨[gap], rfl, by simpa using blank, ?_⟩
    simp
  | @token offset gap rest token tokens blank start_eq stop_eq later induction =>
    obtain ⟨gaps, length_eq, areBlank, rest_eq⟩ := induction
    refine ⟨gap :: gaps, ?_, forall_mem_cons.mpr ⟨blank, areBlank⟩, ?_⟩
    · rw [length_cons, length_cons, length_eq]
    · rw [zipWith_cons_cons, flatten_cons, ← rest_eq, append_assoc]

end Tiles

theorem tiles_ofTextAt (offset : Nat) (text : List Char) :
    Tiles offset (ofTextAt offset text) text := by
  fun_induction ofTextAt offset text with
  | case1 offset =>
    exact @Tiles.ended offset [] fun character member => by cases member
  | case2 offset first rest isBlank induction => exact induction.blank isBlank
  | case3 offset first rest solid kind count scanned lexeme stop =>
    rename_i induction
    have tiles := @Tiles.token offset [] _ ⟨kind, ⟨offset, stop⟩, String.ofList lexeme⟩ _
      (fun character member => by cases member) rfl (by simp [stop]) induction
    rwa [String.toList_ofList, nil_append, cons_append, take_append_drop] at tiles

theorem mem_blanks {character : Char} (blank : isBlank character = true) :
    character ∈ [' ', '\t', '\r', '\n', '\x0c'] := by
  simpa [isBlank, or_assoc] using blank

/-- A token covers the bytes of its own text, at least one, and both its ends lie
between characters. -/
structure CutFrom (source : String) (token : Token) : Prop where
  isText : ∃ before behind, source = before ++ token.text ++ behind ∧
    token.span = ⟨before.utf8ByteSize, (before ++ token.text).utf8ByteSize⟩
  start_lt_stop : token.span.start < token.span.stop
  stop_le : token.span.stop ≤ source.utf8ByteSize
  start_isValid : String.Pos.Raw.IsValid source ⟨token.span.start⟩
  stop_isValid : String.Pos.Raw.IsValid source ⟨token.span.stop⟩

theorem Placed.cutFrom {source : String} {token : Token}
    (placed : Placed source.toList token)
    (notEnd : token.kind ≠ .eof) : CutFrom source token where
  isText := by
    refine ⟨String.ofList placed.before, String.ofList placed.behind, ?_, ?_⟩
    · rw [← String.toList_inj]
      simp [placed.source_eq]
    · have start_eq := placed.start_eq
      have stop_eq := placed.stop_eq
      simp only [Text.utf8ByteSize_eq, String.toList_append, String.toList_ofList]
      rw [← start_eq, ← stop_eq]
  start_lt_stop := by
    have positive := Text.utf8Length_pos (placed.text_ne_nil notEnd)
    rw [placed.start_eq, placed.stop_eq, Text.utf8Length_append]
    omega
  stop_le := by
    rw [placed.stop_eq, Text.utf8ByteSize_eq]
    conv => rhs; rw [placed.source_eq, ← append_assoc, Text.utf8Length_append]
    omega
  start_isValid := by
    rw [placed.start_eq]
    exact Text.isValid_utf8Length ⟨_, placed.source_eq.symm⟩
  stop_isValid := by
    rw [placed.stop_eq]
    refine Text.isValid_utf8Length ⟨placed.behind, ?_⟩
    rw [append_assoc, ← placed.source_eq]

theorem Placed.eq_of_eof {source : String} {token : Token}
    (placed : Placed source.toList token) (isEnd : token.kind = .eof) :
    token = ⟨.eof, ⟨source.utf8ByteSize, source.utf8ByteSize⟩, ""⟩ := by
  obtain ⟨before, behind, source_eq, start_eq, stop_eq, lexed⟩ := placed
  cases lexed with
  | ended =>
    simp only [String.toList_empty, append_nil] at source_eq
    rw [Text.utf8ByteSize_eq, source_eq, ← start_eq]
    rfl
  | scanned solid => exact absurd isEnd (scan_ne_eof _ _)

/-- The tokens of a source end with one mark of the end, and each other token cuts a text
out of the source. They stand one behind the other. A character that no token covers is a
blank, so blank gaps and the texts of the tokens, by turns, are the source. -/
theorem ofText_tiles (source : String) :
    ∃ tokens, ofText source.toList =
        tokens ++ [⟨.eof, ⟨source.utf8ByteSize, source.utf8ByteSize⟩, ""⟩] ∧
      (∀ token ∈ tokens, token.kind ≠ .eof ∧ CutFrom source token) ∧
      tokens.Pairwise (fun left right => left.span.stop ≤ right.span.start) ∧
      (∀ before character behind, source.toList = before ++ character :: behind →
        (¬ ∃ token ∈ tokens, token.span.start ≤ Text.utf8Length before ∧
          Text.utf8Length before < token.span.stop) →
        character ∈ [' ', '\t', '\r', '\n', '\x0c']) ∧
      ∃ gaps : List (List Char), gaps.length = tokens.length + 1 ∧
        (∀ gap ∈ gaps, ∀ character ∈ gap, character ∈ [' ', '\t', '\r', '\n', '\x0c']) ∧
        source.toList = (List.zipWith (fun gap lexeme => gap ++ lexeme) gaps
          (tokens.map (·.text.toList) ++ [[]])).flatten := by
  obtain ⟨tokens, final, tokens_eq, isEnd, notEnd⟩ := ofText_ends source.toList
  have placed {token : Token} (member : token ∈ tokens ++ [final]) :
      Nonempty (Placed source.toList token) := nonempty_placed (tokens_eq ▸ member)
  have tiles : Tiles 0 (tokens ++ [final]) source.toList :=
    tokens_eq ▸ tiles_ofTextAt 0 source.toList
  have final_eq : final = ⟨.eof, ⟨source.utf8ByteSize, source.utf8ByteSize⟩, ""⟩ := by
    obtain ⟨lastPlaced⟩ := placed (mem_append_right tokens (mem_singleton_self final))
    exact lastPlaced.eq_of_eof isEnd
  refine ⟨tokens, tokens_eq.trans (by rw [final_eq]), ?_, ?_, ?_, ?_⟩
  · intro token member
    obtain ⟨place⟩ := placed (mem_append_left [final] member)
    exact ⟨notEnd token member, place.cutFrom (notEnd token member)⟩
  · have ordered := ordered_ofText source.toList
    rw [tokens_eq] at ordered
    exact (pairwise_append.mp ordered).1
  · intro before character behind whole outside
    rcases tiles.covers whole with blank | ⟨token, member, starts, stops⟩
    · exact mem_blanks blank
    · have positive := character.utf8Size_pos
      rcases mem_append.mp member with inside | isFinal
      · exact absurd ⟨token, inside, by omega, by omega⟩ outside
      · -- The mark of the end covers no bytes.
        rw [mem_singleton.mp isFinal, final_eq] at starts stops
        dsimp only at starts stops
        omega
  · obtain ⟨gaps, length_eq, blank, whole⟩ := tiles.exists_gaps
    refine ⟨gaps, by simpa using length_eq, ?_, ?_⟩
    · intro gap member character inside
      exact mem_blanks (blank gap member character inside)
    · rw [final_eq] at whole
      conv => lhs; rw [whole]
      rw [← zipWith_map_right]
      simp

/-- A literal that the source ends inside of, with a letter of two bytes, is a token of
its own; the space in front of it belongs to no token. -/
theorem ofText_tiles_unterminated :
    ∃ tokens, ofText "x 'é".toList = tokens ++ [⟨.eof, ⟨5, 5⟩, ""⟩] ∧
      CutFrom "x 'é" ⟨.error .unterminatedLiteral, ⟨2, 5⟩, "'é"⟩ ∧
      (¬ ∃ token ∈ tokens, token.span.start ≤ 1 ∧ 1 < token.span.stop) ∧
      ' ' ∈ [' ', '\t', '\r', '\n', '\x0c'] := by
  obtain ⟨tokens, tokens_eq, cuts, _, blank, _⟩ := ofText_tiles "x 'é"
  have found : ofText "x 'é".toList = [⟨.ruleRef, ⟨0, 1⟩, "x"⟩,
      ⟨.error .unterminatedLiteral, ⟨2, 5⟩, "'é"⟩] ++ [⟨.eof, ⟨5, 5⟩, ""⟩] := by
    decide +kernel
  have same := (append_inj_left' (tokens_eq.symm.trans found) rfl)
  have outside : ¬ ∃ token ∈ tokens, token.span.start ≤ 1 ∧ 1 < token.span.stop := by
    rw [same]
    decide
  refine ⟨tokens, by rw [found, same], ?_, outside,
    blank ['x'] ' ' ['\'', 'é'] rfl outside⟩
  exact (cuts _ (by rw [same]; decide)).2

end Token

end GrammarInspector
