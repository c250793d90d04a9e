import GrammarInspector.Proofs.Check.Answers
import GrammarInspector.Proofs.Check.Kinds
import GrammarInspector.Proofs.Grammar.Shape.Reading

/-! # Reports of empty matches

A grammar should have no token and no repeated block that matches the empty string. Every
report of one is right.
-/

namespace GrammarInspector

open List

open Nullability

theorem Node.name_of_isLexerRule {rule : Node} (inLexer : rule.tree.isLexerRule = true) :
    ∃ name, rule.firstChild? = some name ∧ rule.tree.ruleName? = some name.text := by
  simp only [Tree.isLexerRule, Bool.and_eq_true, decide_eq_true_eq] at inLexer
  obtain ⟨isRule, hasName⟩ := inLexer
  obtain ⟨name, found, _⟩ := (Option.any_eq_true _ _).mp hasName
  simp [firstChild?_eq, found, Tree.ruleName?, isRule, Node.text]

/-- The messages that are due for a grammar: one for each token and for each block under a
suffix that match the empty string. -/
inductive GrammarFile.EmptyMatch (file : GrammarFile) : Message → Prop
  | token {rule name} (member : rule ∈ file.grammar.tree.rules)
    (inLexer : rule.tree.isLexerRule = true) (isToken : rule.tree.isFragment = false)
    (hasName : rule.firstChild? = some name)
    (ofRule : MatchesEmpty (firstRule? file.grammar.tree.rules) rule.tree) :
    EmptyMatch file (file.messageAtNode .epsilonToken name [name.text])
  | suffix {rule suffix block alternative} (member : rule ∈ file.grammar.tree.rules)
    (inside : suffix ∈ rule.descendants) (isSuffix : suffix.kind.isSuffix = true)
    (hasBlock : suffix.firstChild? = some block)
      (ofBlock : alternative ∈ block.tree.children)
    (kind : alternative.kind ∈ [.alternative, .lexerAlternative])
    (ofAlternative : MatchesEmpty (firstRule? file.grammar.tree.rules) alternative) :
    EmptyMatch file (file.messageAtNode
      (if suffix.kind = .optional then .epsilonOptional else .epsilonClosure) block
      [rule.tree.ruleName?.getD ""])

namespace Check

variable {file : GrammarFile} {message : Message} {rule suffix : Node}
  {progress : Progress}

/-! ## Steps

Each check hands on progress that is sound, and reports only what is due. -/

/-- Whether a check reports messages of a sort only, and hands on progress of a sort. -/
def Delivers (holds : Progress → Prop) (due : Message → Prop) (result : WithProgress) :
    Prop :=
  (∀ message ∈ result.1, due message) ∧ holds result.2

theorem delivers_inTurn {check : Progress → Node → WithProgress} {holds : Progress → Prop}
    {due : Message → Prop} {nodes : List Node}
    (each : ∀ node ∈ nodes, ∀ progress, holds progress →
      Delivers holds due (check progress node))
    (start : holds progress) : Delivers holds due (inTurn check progress nodes) := by
  induction nodes generalizing progress with
  | nil => exact ⟨by simp [inTurn], start⟩
  | cons node rest induction =>
    have first := each node (.head _) progress start
    have later := induction (fun node member => each node (.tail _ member)) first.2
    constructor
    · intro message reported
      exact (mem_append.mp reported).elim (first.1 message) (later.1 message)
    · exact later.2

theorem delivers_tokenNotEmpty (external : Vocabulary)
    (member : rule ∈ file.grammar.tree.rules)
    (sound : progress.Sound file.grammar.tree.rules) :
    Delivers (·.Sound file.grammar.tree.rules) file.EmptyMatch
      (tokenNotEmpty (file.scope external) progress rule) := by
  unfold tokenNotEmpty
  split
  · next isToken =>
    simp only [Bool.and_eq_true, Bool.not_eq_true'] at isToken
    have answers : Asked .. := rule_answers member progress
    have spec := answers.sound (declared_rules file.grammar.tree) sound
    constructor
    · intro message reported
      obtain ⟨name, hasName, named⟩ := Node.name_of_isLexerRule isToken.1
      simp only [hasName, named, Option.getD_some, mem_ite_nil_right,
        mem_singleton] at reported
      rw [reported.2]
      apply GrammarFile.EmptyMatch.token member isToken.1 isToken.2 hasName
      simpa using (spec.2 reported.1).2
    · exact spec.1
  · exact ⟨by simp, sound⟩

theorem delivers_suffixNotEmpty (external : Vocabulary)
    (member : rule ∈ file.grammar.tree.rules)
    (inside : suffix ∈ rule.descendants.filter (·.kind.isSuffix))
    (sound : progress.Sound file.grammar.tree.rules) :
    Delivers (·.Sound file.grammar.tree.rules) file.EmptyMatch
      (suffixNotEmpty (file.scope external) (rule.tree.ruleName?.getD "") progress
        suffix) := by
  unfold suffixNotEmpty
  split
  · exact ⟨by simp, sound⟩
  · next block hasBlock =>
    have answers : Asked .. :=
      anyAlternative_answers file.grammar.tree.rules progress block.tree.children
    have spec := answers.sound (declared_rules file.grammar.tree) sound
    constructor
    · intro message reported
      simp only [mem_ite_nil_right, mem_singleton] at reported
      rw [reported.2]
      obtain ⟨alternative, ofBlock, kind, ofAlternative⟩ := spec.2 reported.1
      rw [barring_nil] at ofAlternative
      have parts := mem_filter.mp inside
      exact .suffix member parts.1 parts.2 hasBlock ofBlock kind ofAlternative
    · exact spec.1

theorem delivers_ruleNotEmpty (external : Vocabulary)
    (member : rule ∈ file.grammar.tree.rules)
    (sound : progress.Sound file.grammar.tree.rules) :
    Delivers (·.Sound file.grammar.tree.rules) file.EmptyMatch
      (ruleNotEmpty (file.scope external) progress rule) := by
  have ofToken := delivers_tokenNotEmpty external member sound
  have ofSuffixes := delivers_inTurn
    (fun _ inside _ => delivers_suffixNotEmpty external member inside) ofToken.2
  constructor
  · intro message reported
    exact (mem_append.mp reported).elim (ofToken.1 message) (ofSuffixes.1 message)
  · exact ofSuffixes.2

theorem emptyMatch_of_mem_emptyMatches {external : Vocabulary}
    (reported : message ∈ emptyMatches (file.scope external)) : file.EmptyMatch message :=
  (delivers_inTurn (fun _ member _ => delivers_ruleNotEmpty external member)
    (sound_start file.grammar.tree.rules)).1 message reported

end Check

/-- Names from elsewhere have no part in empty matches. -/
theorem Check.emptyMatches_scope (file : GrammarFile) (external : Vocabulary) :
    emptyMatches (file.scope external) = emptyMatches (file.scope .empty) := rfl

/-- Only the check of empty matches reports empty matches. -/
theorem GrammarFile.mem_inspect_iff_emptyMatches {file : GrammarFile} {files : Files}
    {library : Option String} {message : Message}
    (ofKind : message.kind ∈ Check.emptinessKinds) :
    message ∈ (file.inspect files library).messages ↔
      file.grammar.isWellFormed = true ∧
      message ∈ Check.emptyMatches (file.scope .empty) := by
  have syntaxMessages := (Check.reports_syntaxMessages file).not_mem (by decide) ofKind
  have fileName := (Check.reports_fileName file).not_mem (by decide) ofKind
  have prequels := (Check.reports_prequels file).not_mem (by decide) ofKind
  have options := (Check.reports_options file).not_mem (by decide) ofKind
  have vocabularies :=
    (Check.reports_vocabularies files library file).not_mem (by decide) ofKind
  have imports := (Check.reports_imports files library file).not_mem (by decide) ofKind
  have declarations := fun scope =>
    (Check.reports_declarations scope).not_mem (by decide) ofKind
  have references :=
    fun scope => (Check.reports_references scope).not_mem (by decide) ofKind
  have labels := fun scope => (Check.reports_labels scope).not_mem (by decide) ofKind
  have commands := (Check.reports_commands file).not_mem (by decide) ofKind
  cases wellFormed : file.grammar.isWellFormed with
  | true =>
    simp [inspect, check, wellFormed, syntaxMessages, fileName, prequels, options,
      vocabularies, imports,
      declarations, references, labels, commands, Check.emptyMatches_scope file]
  | false => simp [inspect, check, wellFormed, syntaxMessages]

/-- Questions about a grammar, asked in any order, are answered with `true` only for rules
and nodes that match the empty string. Between them no rule is being worked out, and no
answer that is known changes. So every report of an empty match is right. -/
theorem GrammarFile.emptyMatch_sound (file : GrammarFile) (queries : List Query)
    (about : ∀ query ∈ queries, query.IsAbout file.grammar.tree) :
    (∀ (position : Nat) (query : Query), queries[position]? = some query →
      ∃ answer after, (Query.askAll file.grammar.tree.rules .start queries)[position]? =
          some (answer, after) ∧
        (answer = true →
          MatchesEmpty (firstRule? file.grammar.tree.rules) query.subject.tree) ∧
        after.active = []) ∧
      ((Query.askAll file.grammar.tree.rules .start queries).Pairwise fun earlier later =>
        ∀ rule answer, earlier.2.answer? rule = some answer →
          later.2.answer? rule = some answer) ∧
      ∀ files library, ∀ message ∈ (file.inspect files library).messages,
        message.kind ∈ Check.emptinessKinds → file.EmptyMatch message := by
  have start := sound_start file.grammar.tree.rules
  refine ⟨?_, ?_, ?_⟩
  · intro position query asked
    obtain ⟨answer, after, replied, matched⟩ :=
      Query.matchesEmpty_of_askAll about start asked
    have extension := Query.extends_of_mem_askAll about start _ (mem_of_getElem? replied)
    exact ⟨answer, after, replied, matched, extension.active⟩
  · apply (Query.pairwise_extends_askAll about start).imp
    intro earlier later extension
    exact extension.answer?
  · intro files library message reported ofKind
    exact Check.emptyMatch_of_mem_emptyMatches
      ((mem_inspect_iff_emptyMatches ofKind).mp reported).2

/-- A rule that refers to itself is asked about. -/
theorem GrammarFile.emptyMatch_sound_recursive :
    ∃ rule ∈ (Grammar.ofSource "lexer grammar A; B : B 'b' | ;").tree.rules,
      (Nullability.rule (Grammar.ofSource "lexer grammar A; B : B 'b' | ;").tree.rules
        .start rule).answer = true ∧
      MatchesEmpty
        (firstRule? (Grammar.ofSource "lexer grammar A; B : B 'b' | ;").tree.rules)
        rule.tree := by
  have isEmpty :
      ((Grammar.ofSource "lexer grammar A; B : B 'b' | ;").tree.rules.any fun rule =>
      hasEmptyAlternative rule.tree) = true := by decide +kernel
  obtain ⟨rule, member, byItself⟩ := any_eq_true.mp isEmpty
  have about : ∀ query ∈ [Query.rule rule],
      query.IsAbout (Grammar.ofSource "lexer grammar A; B : B 'b' | ;").tree :=
    forall_mem_singleton.mpr member
  obtain ⟨answer, after, replied, matched, _⟩ :=
    (emptyMatch_sound (.ofSource "A.g4" "lexer grammar A; B : B 'b' | ;") _ about).1 0 _
      rfl
  -- The rule needs no reference to a rule, so all rules can be cut.
  have isTrue :=
    (rule_settled (Reading.stands_tree _) (cuts_all _) member (settled_start _ _)).2
    (.of_hasEmptyAlternative ((declared_rules _).isRule rule member) byItself)
  have same := congrArg Prod.fst (Option.some.inj replied)
  exact ⟨rule, member, isTrue, matched (same.symm.trans isTrue)⟩

end GrammarInspector
