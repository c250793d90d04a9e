import GrammarInspector.Proofs.Grammar.Accepts

/-! # All sections are read

Options, name sections, imports and named actions: whatever their productions describe is
taken. Most of these constructs end with a mark of their own, so nothing is asked of the
tokens behind them.
-/

namespace GrammarInspector.Parse

open List

variable {bound : Nat} {follow : Option TokenKind → Bool}
  {kind : NodeKind} {tokens rest : List Token} {token name : Token}

theorem accepts_leaf {shown : TokenKind} :
    Accepts bound (do return Tree.leaf kind (← expect shown)) (.terminal shown) follow :=
  Accepts.expect.always.returns

theorem accepts_identifierLeaf :
    Accepts bound (do return Tree.leaf .identifier (← identifier)) .identifier follow :=
  Accepts.identifier.always.returns

/-! ## Options -/

theorem ne_nil_of_separated {α : Type} {separator : Mark} {item : Parse α}
    {values : List α} (outcome : separated separator item tokens = .done values rest) :
    values ≠ [] := by
  obtain ⟨_, _, _, behind⟩ := exists_of_bind_done outcome
  obtain ⟨_, _, _, returned⟩ := exists_of_bind_done behind
  cases returned
  exact cons_ne_nil _ _

theorem accepts_dottedName :
    Accepts bound dottedName .dottedName (excluding [.punctuation .dot]) := by
  have names : Accepts bound (separated .dot identifier) (.separated .dot .identifier)
      (excluding [.punctuation .dot]) :=
    Accepts.identifier.separated rfl fun _ holds => ⟨rfl, ne_of_excluding holds (by simp)⟩
  refine Accepts.only (names.bindWith (fun _ _ _ outcome =>
    ne_nil_of_separated outcome) ?_
    (by decide) fun _ _ holds => holds)
  intro names _ nonempty _
  cases names with
  | nil => exact absurd rfl nonempty
  | cons first rest => exact .pure

theorem accepts_optionValue :
    Accepts bound optionValue .optionValue (excluding [.punctuation .dot]) := by
  refine .peek ?_
  simp only [forall_mem_cons, not_mem_nil, false_implies, implies_true, and_true]
  refine ⟨?_, ?_, ?_, ?_⟩
  · exact .one rfl rfl accepts_leaf
  · exact .one rfl rfl accepts_leaf
  · exact .one rfl rfl accepts_leaf
  · exact .two rfl rfl accepts_dottedName accepts_dottedName

theorem accepts_option : Accepts bound option .option anything :=
  Accepts.identifier.andThen fun _ => Accepts.mark.andThen fun _ =>
    accepts_optionValue.bind (fun _ => Accepts.mark.andThen fun _ => .pure) (by decide)
      fun solid => by cases solid

theorem accepts_options : Accepts bound options (.construct .options) anything := by
  have entries : Accepts bound (many (· != .punctuation .rightBrace) option)
      (.many .option) (among [.punctuation .rightBrace]) := by
    refine accepts_option.many rfl (by decide) fun next holds => ⟨rfl, ?_⟩
    rintro kind rfl
    simpa [among] using holds
  exact .construct (Accepts.expect.andThen fun _ =>
    entries.bind (fun _ => Accepts.mark.andThen fun _ => .pure) (by decide)
      fun solid => by cases solid)

/-! ## Names -/

theorem namesFrom_of_not_name (noName : token.kind.isIdentifier = false) :
    namesFrom (token :: rest) = ([], token :: rest) := by
  unfold namesFrom
  rw [noName]
  rfl

theorem namesFrom_last (isName : name.kind.isIdentifier = true)
    (noComma : token.kind ≠ .punctuation .comma) :
    namesFrom (name :: token :: rest) = ([.leaf .identifier name], token :: rest) := by
  unfold namesFrom
  simp only [isName, noComma, if_true, if_false]

theorem namesFrom_comma {comma : Token} (isName : name.kind.isIdentifier = true)
    (isComma : comma.kind = .punctuation .comma) :
    (namesFrom (name :: comma :: rest)).2 = (namesFrom rest).2 := by
  rw [namesFrom]
  simp only [isName, isComma, if_true]

theorem exists_of_derives_listed
    (derives : (Ebnf.sequence [.identifier, .mark .comma]).Derives
      (tokens.map Token.kind)) :
    ∃ name comma, tokens = [name, comma] ∧ name.kind.isIdentifier = true ∧
    comma.kind = .punctuation .comma := by
  obtain ⟨front, behind, rfl, firstDerives, othersDerive⟩ := Ebnf.tokens_of_cons derives
  obtain ⟨kind, equal, isName⟩ := Accepts.single_of_identifier _ firstDerives
  obtain ⟨name, rfl, rfl⟩ := exists_of_map_kind equal
  obtain ⟨comma, nothing, rfl, isComma, isEmpty⟩ := Ebnf.tokens_of_terminal othersDerive
  obtain rfl := map_eq_nil_iff.mp (Ebnf.derives_nil.mp isEmpty)
  exact ⟨name, comma, rfl, isName, isComma⟩

/-- Names are taken up to the brace that ends them. -/
theorem names_append {listed last : List Token} {brace : Token}
    (many : (Ebnf.many (.sequence [.identifier, .mark .comma])).Derives
      (listed.map Token.kind))
    (final : (Ebnf.optional .identifier).Derives (last.map Token.kind))
    (isBrace : brace.kind = .punctuation .rightBrace) :
    ∃ trees, names (listed ++ (last ++ brace :: rest)) = .done trees (brace :: rest) := by
  suffices left : (namesFrom (listed ++ (last ++ brace :: rest))).2 = brace :: rest from
    ⟨_, congrArg (Outcome.done _) left⟩
  induction many using Ebnf.many_induction with
  | nothing =>
    rcases Ebnf.derives_optional.mp final with lastEmpty | single
    · rw [map_eq_nil_iff.mp lastEmpty]
      exact congrArg Prod.snd (namesFrom_of_not_name (by rw [isBrace]; rfl))
    · obtain ⟨kind, equal, isName⟩ := Accepts.single_of_identifier _ single
      obtain ⟨name, rfl, rfl⟩ := exists_of_map_kind equal
      exact congrArg Prod.snd (namesFrom_last isName (by rw [isBrace]; decide))
  | phrase front back head _ induction =>
    obtain ⟨name, comma, rfl, isName, isComma⟩ := exists_of_derives_listed head
    rw [append_assoc, cons_append, cons_append, namesFrom_comma isName isComma]
    exact induction

theorem accepts_nameSection {opener : Opener} :
    Accepts bound (nameSection opener kind) (.sequence [.opener opener, .nameList])
      anything := by
  refine Accepts.expect.andThen fun opening => Accepts.last ?_
  intro taken rest short derives behind
  obtain ⟨listed, others, rfl, many, tailDerives⟩ := Ebnf.tokens_of_cons derives
  obtain ⟨last, braces, rfl, final, endingDerives⟩ := Ebnf.tokens_of_cons tailDerives
  obtain ⟨brace, left, rfl, isBrace⟩ := Ebnf.exists_cons_of_derives endingDerives rfl
  obtain ⟨trees, outcome⟩ := names_append many final (mem_singleton.mp isBrace)
  have closing : Accepts bound (do
      let _ ← mark .rightBrace
      return Tree.builtAt kind opening.span trees)
        (.sequence [.mark .rightBrace]) anything :=
    Accepts.mark.andThen fun _ => .pure
  have shorter : (brace :: left ++ rest).length < bound := by
    refine Nat.lt_of_le_of_lt ?_ short
    rw [append_assoc, append_assoc]
    exact ((suffix_append ..).trans (suffix_append ..)).length_le
  obtain ⟨value, done⟩ := closing _ rest shorter endingDerives behind
  refine ⟨value, ?_⟩
  rw [append_assoc, append_assoc, bind_apply, cons_append, outcome]
  exact done

/-! ## Imports -/

theorem accepts_delegate :
    Accepts bound delegate .delegate (excluding [.punctuation .equals]) :=
  Accepts.identifier.andThen fun _ =>
    .eat (fun _ => Accepts.identifier.andThen fun _ => .pure) .pure
      (by decide) fun _ _ holds => ne_of_excluding holds (by simp)

theorem accepts_imports : Accepts bound imports .imports anything := by
  have delegates : Accepts bound (separated .comma delegate) (.separated .comma .delegate)
      (among [.punctuation .semicolon]) :=
    accepts_delegate.separatedBefore (by decide) (by decide)
  exact Accepts.expect.andThen fun _ =>
    delegates.bind (fun _ => Accepts.mark.andThen fun _ => .pure) (by decide)
      fun solid => by cases solid

/-! ## Named actions -/

theorem accepts_actionName {expected : Expected} :
    Accepts bound (take namesAction expected) .actionName anything := by
  refine .take fun phrase derives => ?_
  obtain ⟨chosen, member, body⟩ := Ebnf.derives_oneOf.mp derives
  simp only [mem_cons, not_mem_nil, or_false] at member
  rcases member with rfl | rfl | rfl
  · obtain ⟨kind, rfl, isName⟩ := Accepts.single_of_identifier _ body
    rcases TokenKind.isIdentifier_iff.mp isName with rfl | rfl
    · exact ⟨_, rfl, rfl⟩
    · exact ⟨_, rfl, rfl⟩
  · exact ⟨_, Ebnf.derives_terminal.mp body, rfl⟩
  · exact ⟨_, Ebnf.derives_terminal.mp body, rfl⟩

theorem accepts_namedAction :
    Accepts bound namedAction (.construct .namedAction) anything := by
  refine .construct (Accepts.mark.andThen fun _ => accepts_actionName.andThen fun _ => ?_)
  refine .eat (fun _ => ?_) ?_ (by decide) fun solid => by cases solid
  · exact Accepts.identifier.andThen fun _ => Accepts.expect.andThen fun _ => .pure
  · exact Accepts.expect.andThen fun _ => .pure

/-! ## Sections of a rule or block -/

theorem startsPrequel_of_excluding {next : Option TokenKind}
    (holds : excluding [.opener .options, .punctuation .at] next = true) :
    ∀ kind, next = some kind → startsPrequel kind = false := by
  rintro kind rfl
  have other : kind ∉ [TokenKind.opener .options, .punctuation .at] :=
    of_decide_eq_true holds
  unfold startsPrequel
  split
  · exact absurd (by simp) other
  · exact absurd (by simp) other
  · rfl

theorem accepts_prequels :
    Accepts bound prequels (.many .rulePrequel)
      (excluding [.opener .options, .punctuation .at]) := by
  refine Accepts.many (?_ : Accepts bound _ .rulePrequel anything) rfl (by decide)
    fun next holds => ⟨rfl, startsPrequel_of_excluding holds⟩
  refine .peek ?_
  simp only [forall_mem_cons, not_mem_nil, false_implies, implies_true, and_true]
  exact ⟨.one rfl rfl accepts_options, .one rfl rfl accepts_namedAction⟩

end GrammarInspector.Parse
