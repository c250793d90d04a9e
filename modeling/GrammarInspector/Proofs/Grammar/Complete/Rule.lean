import GrammarInspector.Proofs.Grammar.Complete.Element
import GrammarInspector.Proofs.Grammar.Sound.Rule

/-! # All rules are read

Whatever the productions of rules describe is taken as a rule without a fault, unless
another handler follows.
-/

namespace GrammarInspector.Parse

open List

variable {bound : Nat} {follow : Option TokenKind → Bool} {flavour : RuleFlavour}
  {alternative : Ebnf} {α : Type} {taken rest tokens : List Token} {tree : Tree}

/-! ## Head of a rule -/

theorem isModifier_iff {kind : TokenKind} :
    isModifier kind = true ↔ kind ∈ Construct.modifierStarts := by
  constructor
  · intro holds
    unfold isModifier at holds
    split at holds
    · decide
    · decide
    · decide
    · decide
    · cases holds
  · have all : ∀ kind ∈ Construct.modifierStarts, isModifier kind = true := by decide
    exact all kind

theorem single_of_modifier (phrase : List TokenKind)
    (derives : Ebnf.modifier.Derives phrase) :
    ∃ kind, phrase = [kind] ∧ isModifier kind = true :=
  Accepts.single_of_oneOf Construct.modifierStarts (by decide) phrase derives

theorem accepts_modifiers :
    Accepts bound modifiers (.many .modifier) (excluding Construct.modifierStarts) := by
  have tokens : Accepts bound (many isModifier (take isModifier .ruleName))
      (.many .modifier) (excluding Construct.modifierStarts) := by
    refine (Accepts.take single_of_modifier).many rfl (by decide) fun next holds =>
      ⟨rfl, ?_⟩
    rintro kind rfl
    rw [← Bool.not_eq_true, isModifier_iff]
    exact of_decide_eq_true holds
  refine .only (tokens.bind (fun found => ?_) (by decide) fun _ _ holds => holds)
  split
  · exact .pure
  · exact .pure

/-- What a signature would go on with. -/
def signatureGoesOn : List TokenKind :=
  [.bracket, .keyword .returns, .keyword .throws, .keyword .locals, .punctuation .comma]

theorem accepts_bracketed? {word : Keyword} {kind : NodeKind} :
    Accepts bound (bracketed? word kind) (.bracketed word)
      (excluding [.keyword word]) := by
  refine .only (.eat (fun _ => ?_) .pure (by simp [Ebnf.starts, Ebnf.sequenceStarts]) ?_)
  · exact Accepts.expect.andThen fun _ => .pure
  · exact fun _ _ holds => ne_of_excluding holds (mem_singleton_self _)

theorem accepts_throws? :
    Accepts bound throws? .throws
      (excluding [.keyword .throws, .punctuation .comma]) := by
  have names : Accepts bound (separated .comma identifier) (.separated .comma .identifier)
      (excluding [.keyword .throws, .punctuation .comma]) :=
    Accepts.identifier.separated rfl fun _ holds => ⟨rfl, ne_of_excluding holds (by simp)⟩
  refine .only (.eat (fun _ => names.returns.last) .pure (by decide) ?_)
  exact fun _ _ holds => ne_of_excluding holds (by simp)

theorem accepts_signature :
    Accepts bound (signature .parser) .signature (excluding signatureGoesOn) := by
  refine accepts_arguments?.bind (fun _ => accepts_bracketed?.bind (fun _ =>
    accepts_throws?.bind (fun _ => ?_) (by decide) ?_) (by decide) ?_) (by decide) ?_
  · exact (accepts_bracketed?.weaken fun _ holds =>
      excluding_mono holds (by decide)).returns.last
  · exact fun _ _ holds => excluding_mono holds (by decide)
  · exact fun _ _ holds => excluding_mono holds (by decide)
  · exact fun _ _ holds => excluding_mono holds (by decide)

/-! ## Body of a rule -/

/-- What can stand behind an alternative of a rule. -/
def ruleAlternativeEnds : List TokenKind := [.punctuation .bar, .punctuation .semicolon]

theorem accepts_lexerAlternative :
    Accepts bound (ruleAlternative .lexer) (.construct (.alternative .lexer))
      (among ruleAlternativeEnds) :=
  ((accepts_alternative accepts_block).weaken fun _ holds =>
    among_mono holds (by decide)).returns

theorem accepts_parserAlternative :
    Accepts bound (ruleAlternative .parser) .labelledAlternative
      (among ruleAlternativeEnds) := by
  refine (accepts_alternative accepts_block).bind (fun _ => ?_) (by decide)
    fun _ _ holds => among_mono holds (by decide)
  refine .eat (fun _ => Accepts.identifier.andThen fun _ => .pure) .pure (by decide) ?_
  exact fun _ _ holds => ne_of_excluding (excluding_of_among holds
    (by decide : ∀ kind ∈ ruleAlternativeEnds, kind ∉ [TokenKind.punctuation .hash]))
    (mem_singleton_self _)

theorem accepts_ruleBody
    (each : Accepts bound (ruleAlternative flavour) alternative
      (among ruleAlternativeEnds)) :
    Accepts bound (ruleBody flavour)
      (.sequence [.mark .colon, .separated .bar alternative])
      (among [.punctuation .semicolon]) := by
  refine Accepts.mark.andThen fun _ =>
    (each.separated (by decide) fun _ holds => ⟨?_, ?_⟩).returns.last
  · exact among_mono holds (by decide)
  · rw [eq_of_among holds]
    decide

/-- What stands behind the name and signature of a rule. -/
theorem accepts_sectionsAndBody {make : List Tree → Tree → α}
    (each : Accepts bound (ruleAlternative flavour) alternative
      (among ruleAlternativeEnds)) :
    Accepts bound (do
      let sections ← prequels
      let body ← ruleBody flavour
      let _ ← mark .semicolon
      return make sections body)
      (.sequence [.many .rulePrequel, .mark .colon, .separated .bar alternative,
        .mark .semicolon])
      anything := by
  refine accepts_prequels.bind (fun _ => .ungroup ((accepts_ruleBody each).bind
    (fun _ => ?_) (by decide) fun solid => by cases solid)) ?_ fun solid => by cases solid
  · exact Accepts.mark.andThen fun _ => .pure
  · intro kind isStart
    rw [mem_singleton.mp isStart]
    rfl

theorem accepts_behindName {make : List Tree → List Tree → Tree → α}
    (flavour : RuleFlavour) :
    Accepts bound (do
      let signature ← signature flavour
      let sections ← prequels
      let body ← ruleBody flavour
      let _ ← mark .semicolon
      return make signature sections body) (.sequence flavour.behindName) anything := by
  cases flavour with
  | parser =>
    refine accepts_signature.bind (fun _ => ?_) (by decide) fun solid => by cases solid
    exact accepts_sectionsAndBody accepts_parserAlternative
  | lexer => exact accepts_sectionsAndBody accepts_lexerAlternative

/-! ## Whole rules -/

theorem accepts_ruleName :
    Accepts bound ruleName (.terminal flavour.nameToken) anything := by
  have name : Accepts bound (take (·.isIdentifier) .ruleName)
      (.terminal flavour.nameToken) anything := by
    refine .take fun phrase derives => ⟨_, Ebnf.derives_terminal.mp derives, ?_⟩
    cases flavour <;> rfl
  refine .only (name.andThen fun _ => ?_)
  split
  · exact .pure
  · exact .pure

theorem eq_of_nameToken {left right : RuleFlavour}
    (equal : left.nameToken = right.nameToken) : left = right := by
  cases left <;> cases right <;> first | rfl | cases equal

theorem isModifier_nameToken (flavour : RuleFlavour) :
    isModifier flavour.nameToken = false := by
  cases flavour <;> rfl

theorem accepts_ruleDeclaration : Accepts bound ruleDeclaration
      (.sequence (.many .modifier :: .terminal flavour.nameToken :: flavour.behindName))
      anything := by
  refine accepts_modifiers.bind (fun modifiers => ?_) ?_ fun solid => by cases solid
  · refine accepts_ruleName.bindWith (fun _ _ _ outcome =>
      ensures_ruleName.of_append outcome) ?_
      (fun _ _ => rfl) fun _ _ _ => rfl
    rintro _ _ ⟨name, other, rfl, isName, rfl⟩ derives
    have same : other.nameToken = flavour.nameToken := by
      rw [← isName]
      exact (List.cons.inj (Ebnf.derives_terminal.mp derives)).1
    obtain rfl := eq_of_nameToken same
    exact accepts_behindName other
  · cases flavour <;> decide

/-- The first token that is no modifier tells the flavour of a rule. -/
theorem flavour_of_ruleDeclaration {found : RuleFlavour} {parts : List Ebnf}
    (outcome : ruleDeclaration (taken ++ rest) = .done (tree, found) rest)
    (derives :
        (Ebnf.sequence (.many .modifier :: .terminal flavour.nameToken :: parts)).Derives
      (taken.map Token.kind)) :
    found = flavour := by
  obtain ⟨modifiers, name, behind, children, other, rfl, equal, areModifiers, _,
      isName, _⟩ :=
    ensures_ruleDeclaration.of_append outcome
  cases equal
  obtain ⟨front, tail, kindsEqual, frontDerives, tailDerives⟩ :=
    Ebnf.derives_cons.mp derives
  obtain ⟨first, more, rfl, firstDerives, _⟩ := Ebnf.derives_cons.mp tailDerives
  have frontModifiers : ∀ kind ∈ front, isModifier kind = true := by
    refine Ebnf.forall_of_derives_many (fun phrase derives kind member => ?_) frontDerives
    obtain ⟨only, rfl, isModifier⟩ := single_of_modifier phrase derives
    rw [mem_singleton.mp member]
    exact isModifier
  have ownModifiers : ∀ kind ∈ modifiers.map Token.kind, isModifier kind = true := by
    intro kind member
    obtain ⟨token, included, rfl⟩ := mem_map.mp member
    exact areModifiers token included
  rw [Ebnf.derives_terminal.mp firstDerives, map_append, map_cons, isName] at kindsEqual
  have dropped := congrArg (List.dropWhile isModifier) kindsEqual
  rw [dropWhile_append_of_pos ownModifiers, dropWhile_append_of_pos frontModifiers,
    singleton_append, dropWhile_cons_of_neg, dropWhile_cons_of_neg] at dropped
  · exact eq_of_nameToken (List.cons.inj dropped).1
  · rw [isModifier_nameToken]
    exact Bool.false_ne_true
  · rw [isModifier_nameToken]
    exact Bool.false_ne_true

/-! ## Exception handlers -/

theorem accepts_handler : Accepts bound handler .handler anything :=
  Accepts.expect.andThen fun _ => Accepts.expect.andThen fun _ =>
    Accepts.expect.andThen fun _ => .pure

theorem accepts_cleanup : Accepts bound cleanup .cleanup anything :=
  Accepts.expect.andThen fun _ => Accepts.expect.andThen fun _ => .pure

theorem handlers_of_neither
    (neither : excluding [.keyword .catchWord, .keyword .finallyWord]
      (headKind? tokens) = true) :
    handlers tokens = ⟨[], [], tokens⟩ := by
  rw [handlers]
  split
  · rename_i isCatch
    exact absurd isCatch (ne_of_excluding neither (by simp))
  · rename_i isFinally
    exact absurd isFinally (ne_of_excluding neither (by simp))
  · rfl

theorem handlers_of_cleanup (isFinally : headKind? tokens = some (.keyword .finallyWord))
    (outcome : cleanup tokens = .done tree rest) :
    handlers tokens = ⟨[tree], [], rest⟩ := by
  rw [handlers]
  simp only [isFinally, outcome]

theorem handlers_of_handler (isCatch : headKind? tokens = some (.keyword .catchWord))
    (outcome : handler tokens = .done tree rest) (shorter : rest.length < tokens.length) :
    handlers tokens = ⟨tree :: (handlers rest).trees, (handlers rest).faults,
      (handlers rest).rest⟩ := by
  rw [handlers]
  simp only [isCatch, outcome, if_pos shorter]

/-- Handlers and a last action are taken without a fault. -/
theorem handlers_append {caught last : List Token}
    (many : (Ebnf.many .handler).Derives (caught.map Token.kind))
    (final : (Ebnf.optional .cleanup).Derives (last.map Token.kind))
    (behind : excluding [.keyword .catchWord, .keyword .finallyWord]
      (headKind? rest) = true) :
    ∃ trees, handlers (caught ++ (last ++ rest)) = ⟨trees, [], rest⟩ := by
  induction many using Ebnf.many_induction with
  | nothing =>
    rw [nil_append]
    rcases Ebnf.derives_optional.mp final with lastEmpty | body
    · rw [map_eq_nil_iff.mp lastEmpty, nil_append]
      exact ⟨[], handlers_of_neither behind⟩
    · obtain ⟨tree, outcome⟩ := accepts_cleanup last rest (Nat.lt_succ_self _) body rfl
      obtain ⟨token, others, rfl, isStart⟩ := Ebnf.exists_cons_of_derives body rfl
      exact ⟨[tree], handlers_of_cleanup
        (congrArg some (mem_singleton.mp isStart)) outcome⟩
  | phrase front back head tail induction =>
    obtain ⟨token, others, rfl, isStart⟩ := Ebnf.exists_cons_of_derives head rfl
    obtain ⟨tree, outcome⟩ :=
      accepts_handler (token :: others) (back ++ (last ++ rest))
        (Nat.lt_succ_self _) head rfl
    obtain ⟨trees, further⟩ := induction
    have shorter : (back ++ (last ++ rest)).length <
        (token :: others ++ (back ++ (last ++ rest))).length := by
      simp only [length_append, length_cons]
      omega
    have isCatch : headKind? (token :: others ++ (back ++ (last ++ rest))) =
        some (.keyword .catchWord) := congrArg some (mem_singleton.mp isStart)
    rw [append_assoc, handlers_of_handler isCatch outcome shorter, further]
    exact ⟨_, rfl⟩

/-- A rule is read without a fault where no handler follows it. -/
theorem rule_append (derives : (Ebnf.construct .rule).Derives (taken.map Token.kind))
    (behind : excluding [.keyword .catchWord, .keyword .finallyWord]
      (headKind? rest) = true) :
    ∃ tree, rule (taken ++ rest) = .done (tree, []) rest := by
  obtain ⟨chosen, member, body⟩ :=
    Ebnf.derives_oneOf.mp (Ebnf.derives_construct.mp derives)
  simp only [mem_cons, not_mem_nil, or_false] at member
  rcases member with rfl | rfl
  · have production :
        (Ebnf.sequence ((.many .modifier :: .terminal RuleFlavour.parser.nameToken ::
        RuleFlavour.parser.behindName) ++ [.many .handler, .optional .cleanup])).Derives
        (taken.map Token.kind) := Ebnf.derives_construct.mp body
    obtain ⟨declared, others, rfl, declaration, ending⟩ :=
      Ebnf.tokens_of_append production
    obtain ⟨caught, last, rfl, many, finalDerives⟩ := Ebnf.tokens_of_cons ending
    obtain ⟨⟨tree, flavour⟩, outcome⟩ := accepts_ruleDeclaration declared
      (caught ++ (last ++ rest)) (Nat.lt_succ_self _) declaration rfl
    obtain rfl := flavour_of_ruleDeclaration outcome declaration
    obtain ⟨trees, further⟩ :=
      handlers_append many (Ebnf.derives_single.mp finalDerives) behind
    refine ⟨tree.append trees, ?_⟩
    rw [append_assoc, append_assoc, rule, outcome]
    simp only [further]
  · have production :
        (Ebnf.sequence (.many .modifier :: .terminal RuleFlavour.lexer.nameToken ::
        RuleFlavour.lexer.behindName)).Derives (taken.map Token.kind) :=
      Ebnf.derives_construct.mp body
    obtain ⟨⟨tree, flavour⟩, outcome⟩ :=
      accepts_ruleDeclaration taken rest (Nat.lt_succ_self _) production rfl
    obtain rfl := flavour_of_ruleDeclaration outcome production
    refine ⟨tree, ?_⟩
    rw [rule, outcome]

end GrammarInspector.Parse
