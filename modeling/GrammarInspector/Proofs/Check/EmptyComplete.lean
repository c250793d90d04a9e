import Mathlib
import GrammarInspector.Proofs.Check.EmptyReports

/-! # Empty matches that are reported

A token or repeated block that matches the empty string is reported, unless it matches
only by way of tangled rules. Of two rules that lead to each other one may go unreported.
-/

namespace GrammarInspector

open List

open Nullability

variable {known : Token → Prop} {tree : Tree} {cut : List Nat}

theorem Tree.Stands.ruleFree_suffix (stands : tree.Stands known []) {suffix block : Node}
    (member : suffix ∈ tree.nodes) (isSuffix : suffix.kind.isSuffix = true)
    (hasBlock : suffix.firstChild? = some block) :
    ∀ child ∈ block.tree.children, child.RuleFree := by
  have here := stands.of_mem member
  have inRule := (here.allowed.suffixed isSuffix).1
  rw [Node.firstChild?_eq] at hasBlock
  obtain ⟨first, isFirst, rfl⟩ := Option.map_eq_some_iff.mp hasBlock
  intro child isChild
  have below := (here.child (mem_of_mem_head? isFirst)).child isChild
  exact below.ruleFree (.tail _ (.tail _ inRule))

namespace Check

variable {file : GrammarFile} {message : Message} {rule suffix : Node}
  {progress : Progress}

/-- Whether a check hands on progress of a sort, and reports the messages that are due. -/
def Meets (holds : Progress → Prop) (due : Message → Prop) (result : WithProgress) :
    Prop :=
  holds result.2 ∧ ∀ message, due message → message ∈ result.1

theorem meets_inTurn {check : Progress → Node → WithProgress} {holds : Progress → Prop}
    {due : Node → Message → Prop} {nodes : List Node}
    (each : ∀ node ∈ nodes, ∀ progress, holds progress →
      Meets holds (due node) (check progress node))
    (start : holds progress) :
    Meets holds (fun message => ∃ node ∈ nodes, due node message)
      (inTurn check progress nodes) := by
  induction nodes generalizing progress with
  | nil => exact ⟨start, by simp⟩
  | cons node rest induction =>
    have first := each node (.head _) progress start
    have later := induction (fun node member => each node (.tail _ member)) first.1
    constructor
    · exact later.1
    · intro message ⟨other, member, isDue⟩
      cases member with
      | head => exact mem_append_left _ (first.2 message isDue)
      | tail _ member => exact mem_append_right _ (later.2 message ⟨other, member, isDue⟩)

/-- The message that is due for a token. -/
inductive TokenDue (file : GrammarFile) (cut : List Nat) (rule : Node) : Message → Prop
  | token {name} (inLexer : rule.tree.isLexerRule = true)
      (isToken : rule.tree.isFragment = false)
    (hasName : rule.firstChild? = some name)
    (holds : MatchesEmpty (barring (firstRule? file.grammar.tree.rules) cut) rule.tree) :
    TokenDue file cut rule (file.messageAtNode .epsilonToken name [name.text])

/-- The message that is due for a suffix of a rule. -/
inductive SuffixDue (file : GrammarFile) (cut : List Nat) (rule suffix : Node) :
    Message → Prop
  | suffix {block : Node} (hasBlock : suffix.firstChild? = some block)
    (holds : (Question.anyOf block.tree.children).Holds file.grammar.tree.rules cut) :
    SuffixDue file cut rule suffix (file.messageAtNode
      (if suffix.kind = .optional then .epsilonOptional else .epsilonClosure) block
      [rule.tree.ruleName?.getD ""])

section

variable (stands : file.grammar.tree.Stands known [])
  (cuts : Cuts file.grammar.tree.rules cut)
  (external : Vocabulary)

include stands cuts

theorem meets_tokenNotEmpty (member : rule ∈ file.grammar.tree.rules)
    (start : progress.Settled file.grammar.tree.rules cut) :
    Meets (·.Settled file.grammar.tree.rules cut) (TokenDue file cut rule)
      (tokenNotEmpty (file.scope external) progress rule) := by
  unfold tokenNotEmpty
  split
  · have spec := rule_settled stands cuts member start
    constructor
    · exact spec.1
    · intro message isDue
      cases isDue with
      | token inLexer isToken hasName holds =>
        obtain ⟨found, hasFound, named⟩ := Node.name_of_isLexerRule inLexer
        cases hasName.symm.trans hasFound
        simp [GrammarFile.scope, hasName, named, spec.2 holds]
  · next notToken =>
    constructor
    · exact start
    · intro message isDue
      cases isDue with
      | token inLexer isToken => simp [inLexer, isToken] at notToken

theorem meets_suffixNotEmpty (rule : Node) (member : suffix ∈ file.grammar.tree.nodes)
    (isSuffix : suffix.kind.isSuffix = true)
    (start : progress.Settled file.grammar.tree.rules cut) :
    Meets (·.Settled file.grammar.tree.rules cut) (SuffixDue file cut rule suffix)
      (suffixNotEmpty (file.scope external) (rule.tree.ruleName?.getD "") progress
        suffix) := by
  unfold suffixNotEmpty
  split
  · next noBlock =>
    constructor
    · exact start
    · intro message isDue
      cases isDue with
      | suffix hasBlock => cases noBlock.symm.trans hasBlock
  · next block hasBlock =>
    have answers : Asked .. :=
      anyAlternative_answers file.grammar.tree.rules progress block.tree.children
    have spec :=
      answers.settled stands cuts start (stands.ruleFree_suffix member isSuffix hasBlock)
    constructor
    · exact spec.1
    · intro message isDue
      cases isDue with
      | suffix hasOther holds =>
        cases hasBlock.symm.trans hasOther
        simp [GrammarFile.scope, spec.2 holds]

theorem meets_ruleNotEmpty (member : rule ∈ file.grammar.tree.rules)
    (start : progress.Settled file.grammar.tree.rules cut) :
    Meets (·.Settled file.grammar.tree.rules cut)
      (fun message => TokenDue file cut rule message ∨
        ∃ suffix ∈ rule.descendants.filter (·.kind.isSuffix),
          SuffixDue file cut rule suffix message)
      (ruleNotEmpty (file.scope external) progress rule) := by
  have ofToken := meets_tokenNotEmpty stands cuts external member start
  have ofSuffixes := meets_inTurn (fun suffix inside progress settled => by
    obtain ⟨below, isSuffix⟩ := mem_filter.mp inside
    have inTree := Tree.mem_nodes_of_mem_descendants (mem_filter.mp member).1 below
    exact meets_suffixNotEmpty stands cuts external rule inTree isSuffix
      settled) ofToken.1
  constructor
  · exact ofSuffixes.1
  · intro message isDue
    rcases isDue with isDue | isDue
    · exact mem_append_left _ (ofToken.2 message isDue)
    · exact mem_append_right _ (ofSuffixes.2 message isDue)

theorem meets_emptyMatches {message : Message} (member : rule ∈ file.grammar.tree.rules)
    (isDue : TokenDue file cut rule message ∨
      ∃ suffix ∈ rule.descendants.filter (·.kind.isSuffix),
      SuffixDue file cut rule suffix message) :
    message ∈ emptyMatches (file.scope external) :=
  (meets_inTurn (fun _ member _ => meets_ruleNotEmpty stands cuts external member)
    (settled_start file.grammar.tree.rules cut)).2 message ⟨rule, member, isDue⟩

end

end Check

/-- The tokens and repeated blocks of a grammar without syntax errors that match the empty
string are reported, whatever the order of the rules and however they refer to each other,
if they match it without references to the rules cut. These need not be more than the
tangled rules. A token that is cut itself is reported like any other. -/
theorem GrammarFile.emptyMatch_complete (file : GrammarFile) (source : String)
    (files : Files) (library : Option String) (cut : List Nat)
    (read : file.grammar = .ofSource source) (wellFormed : file.grammar.errors = [])
    (cuts : Cuts file.grammar.tree.rules cut) :
    (∀ rule ∈ file.grammar.tree.rules,
      rule.tree.isLexerRule = true → rule.tree.isFragment = false →
      MatchesEmpty (barring (firstRule? file.grammar.tree.rules) cut) rule.tree →
      ∃ name, rule.firstChild? = some name ∧
        file.messageAtNode .epsilonToken name [name.text] ∈
          (file.inspect files library).messages) ∧
      ∀ suffix ∈ file.grammar.tree.nodes, suffix.kind.isSuffix = true →
        ∃ rule ∈ file.grammar.tree.rules, suffix ∈ rule.descendants ∧
          ∃ block, suffix.firstChild? = some block ∧ block.kind = .block ∧
            ∀ alternative ∈ block.tree.children,
              alternative.kind ∈ [.alternative, .lexerAlternative] →
              MatchesEmpty (barring (firstRule? file.grammar.tree.rules) cut)
                alternative →
              file.messageAtNode
                (if suffix.kind = .optional then .epsilonOptional else .epsilonClosure)
                block [rule.tree.ruleName?.getD ""] ∈
                  (file.inspect files library).messages := by
  have stands : file.grammar.tree.Stands
      (· ∈ (Token.ofText source.toList).filter (·.isSignificant)) [] := by
    rw [read]
    exact Reading.stands_tree _
  have isWellFormed :
      file.grammar.isWellFormed = true := by simp [Grammar.isWellFormed, wellFormed]
  constructor
  · intro rule member inLexer isToken holds
    obtain ⟨name, hasName, _⟩ := Node.name_of_isLexerRule inLexer
    refine ⟨name, hasName, (mem_inspect_iff_emptyMatches (.head _)).mpr
      ⟨isWellFormed, ?_⟩⟩
    exact Check.meets_emptyMatches stands cuts .empty member
      (.inl (.token inLexer isToken hasName holds))
  · intro suffix member isSuffix
    obtain ⟨rule, ruleMember, inside, block, hasBlock, isBlock⟩ :=
      stands.rule_of_suffix member isSuffix
    refine ⟨rule, ruleMember, inside, block, hasBlock, isBlock, ?_⟩
    intro alternative isChild isAlternative holds
    have ofKind : (file.messageAtNode
        (if suffix.kind = .optional then .epsilonOptional else .epsilonClosure) block
        [rule.tree.ruleName?.getD ""]).kind ∈ Check.emptinessKinds := by
      simp only [messageAtNode, messageAt]
      split <;> simp [Check.emptinessKinds]
    refine (mem_inspect_iff_emptyMatches ofKind).mpr ⟨isWellFormed, ?_⟩
    exact Check.meets_emptyMatches stands cuts .empty ruleMember (.inr ⟨suffix,
      mem_filter.mpr ⟨inside, isSuffix⟩,
        .suffix hasBlock ⟨alternative, isChild, isAlternative, holds⟩⟩)

/-- Two tokens that refer to each other. -/
def GrammarFile.mutuallyRecursive : GrammarFile :=
  .ofSource "G.g4" "lexer grammar G;\nA : B 'x' | ;\nB : A ;\n"

/-- Asked about first, both tokens are answered rightly. -/
theorem GrammarFile.matchesEmpty_mutuallyRecursive {rule : Node}
    (member : rule ∈ mutuallyRecursive.grammar.tree.rules) :
    rule.tree.isLexerRule = true ∧ rule.tree.isFragment = false ∧
      MatchesEmpty (firstRule? mutuallyRecursive.grammar.tree.rules) rule.tree := by
  have facts : (mutuallyRecursive.grammar.tree.rules.all fun rule =>
      rule.tree.isLexerRule && !rule.tree.isFragment &&
        (Nullability.rule mutuallyRecursive.grammar.tree.rules .start rule).answer) =
          true := by
    cbv
  have ofRule := all_eq_true.mp facts rule member
  simp only [Bool.and_eq_true, Bool.not_eq_true'] at ofRule
  obtain ⟨⟨inLexer, isToken⟩, isTrue⟩ := ofRule
  have answers : Asked .. := rule_answers member .start
  have holds := ((answers.sound (declared_rules _) (sound_start _)).2 isTrue).2
  rw [barring_nil] at holds
  exact ⟨inLexer, isToken, holds⟩

/-- Both tokens are cut, and the first one is reported. -/
theorem GrammarFile.emptyMatch_complete_tangled : mutuallyRecursive.grammar.errors = [] ∧
    ∃ cut, Cuts mutuallyRecursive.grammar.tree.rules cut ∧
      ∃ rule ∈ mutuallyRecursive.grammar.tree.rules, rule.index ∈ cut ∧
        Tangled mutuallyRecursive.grammar.tree.rules rule ∧
        MatchesEmpty (barring (firstRule? mutuallyRecursive.grammar.tree.rules) cut)
          rule.tree ∧
        ∃ name, rule.firstChild? = some name ∧
          mutuallyRecursive.messageAtNode .epsilonToken name [name.text] ∈
            (mutuallyRecursive.inspect Check.noFiles none).messages := by
  have noErrors : mutuallyRecursive.grammar.errors = [] := by decide +kernel
  have facts : ((firstRule? mutuallyRecursive.grammar.tree.rules "A").any fun first =>
      hasEmptyAlternative first.tree && hasReference first.tree "B" &&
        (firstRule? mutuallyRecursive.grammar.tree.rules "B").any fun second =>
          hasReference second.tree "A" && second.index != first.index) =
            true := by decide +kernel
  obtain ⟨first, isFirst, ofFirst⟩ := (Option.any_eq_true ..).mp facts
  simp only [Bool.and_eq_true] at ofFirst
  obtain ⟨⟨byItself, toSecond⟩, ofSecond⟩ := ofFirst
  obtain ⟨second, isSecond, ofSecond⟩ := (Option.any_eq_true ..).mp ofSecond
  simp only [Bool.and_eq_true, bne_iff_ne] at ofSecond
  have member := mem_of_find?_eq_some isFirst
  have otherMember := mem_of_find?_eq_some isSecond
  obtain ⟨inLexer, isToken, matched⟩ := matchesEmpty_mutuallyRecursive member
  have tangled : Tangled mutuallyRecursive.grammar.tree.rules first :=
    ⟨matched, second, otherMember, fun same => ofSecond.2 (congrArg Node.index same),
      .single (Mentions.of_hasReference isSecond toSecond),
      .single (Mentions.of_hasReference isFirst ofSecond.1),
      (matchesEmpty_mutuallyRecursive otherMember).2.2⟩
  have cuts := cuts_all mutuallyRecursive.grammar.tree.rules
  have holds : MatchesEmpty (barring (firstRule? mutuallyRecursive.grammar.tree.rules)
      (mutuallyRecursive.grammar.tree.rules.map (·.index))) first.tree :=
    .of_hasEmptyAlternative ((declared_rules _).isRule first member) byItself
  have complete :=
    emptyMatch_complete mutuallyRecursive _ Check.noFiles none _ rfl noErrors cuts
  exact ⟨noErrors, _, cuts, first, member, mem_map_of_mem member, tangled, holds,
    complete.1 first member inLexer isToken holds⟩

set_option maxRecDepth 4000 in
/-- The second of these tokens matches the empty string and is not reported: while the
first one is worked out, it counts as not matching, and the answer that this gives for the
second is kept. -/
theorem GrammarFile.emptyMatch_unreported :
    mutuallyRecursive.grammar.errors = [] ∧
      ∃ message, mutuallyRecursive.EmptyMatch message ∧
      message.kind = .epsilonToken ∧ message.arguments = ["B"] ∧
      ∀ files library, message ∉ (mutuallyRecursive.inspect files library).messages := by
  have reports : (Check.emptyMatches (mutuallyRecursive.scope .empty)).map (·.arguments) =
      [["A"]] := by
    cbv
  have hasSecond : (firstRule? mutuallyRecursive.grammar.tree.rules "B").isSome =
      true := by
    decide +kernel
  obtain ⟨rule, isSecond⟩ := Option.isSome_iff_exists.mp hasSecond
  have member := mem_of_find?_eq_some isSecond
  obtain ⟨inLexer, isToken, holds⟩ := matchesEmpty_mutuallyRecursive member
  obtain ⟨name, hasName, named⟩ := Node.name_of_isLexerRule inLexer
  have text : name.text = "B" := by simpa [named] using find?_some isSecond
  refine ⟨by decide +kernel, _, .token member inLexer isToken hasName holds, rfl,
    by rw [text]; rfl, ?_⟩
  intro files library isReported
  have inMatches := ((mem_inspect_iff_emptyMatches (.head _)).mp isReported).2
  have inArguments := mem_map_of_mem (f := (·.arguments)) inMatches
  rw [reports, mem_singleton] at inArguments
  have isFirst : name.text = "A" := by simpa [messageAtNode, messageAt] using inArguments
  simp [text] at isFirst

end GrammarInspector
