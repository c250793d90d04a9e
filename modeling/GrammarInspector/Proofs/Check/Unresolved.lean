import GrammarInspector.Proofs.Check.Kinds
import GrammarInspector.Proofs.Editor.Definition

/-! # Names that lead to nothing

The checks report a reference exactly if an editor finds no definition from it. This holds
for grammars that take no names from other files.
-/

namespace GrammarInspector

open List

namespace Check

variable {scope : Scope} {rule node : Node} {message : Message}

/-! ## What is said about a name -/

/-- The kinds of messages about names that lead to nothing. -/
def unresolvedKinds : List MessageKind := [.undefinedRuleRef, .implicitTokenDefinition]

/-- Why a name in a rule leads to nothing, by the kind of the message about it. -/
inductive Unresolved (scope : Scope) (rule node : Node) : MessageKind → Prop
  | ruleInParser (inParser : rule.tree.isLexerRule = false)
      (isRule : node.kind = .ruleRef)
      (undefined : scope.definesParserRule node.text = false) :
      Unresolved scope rule node .undefinedRuleRef
  | tokenInLexer (inLexer : rule.tree.isLexerRule = true)
      (isToken : node.kind = .tokenRef)
      (notEnd : node.text ≠ "EOF") (undefined : scope.definesLexerRule node.text = false)
      (unknown : scope.external.tokens.contains node.text = false) :
      Unresolved scope rule node .undefinedRuleRef
  | tokenInParser (inParser : rule.tree.isLexerRule = false)
      (isToken : node.kind = .tokenRef)
      (undefined : scope.definesToken node.text = false) :
      Unresolved scope rule node .implicitTokenDefinition

theorem Unresolved.isName {kind : MessageKind}
    (unresolved : Unresolved scope rule node kind) : node.kind.isName = true := by
  cases unresolved with
  | ruleInParser _ isRule => rw [isRule]; rfl
  | tokenInLexer _ isToken => rw [isToken]; rfl
  | tokenInParser _ isToken => rw [isToken]; rfl

theorem Unresolved.kind_mem {kind : MessageKind}
    (unresolved : Unresolved scope rule node kind) : kind ∈ unresolvedKinds := by
  cases unresolved <;> decide

/-- What is said about a name depends on the rule that it stands in only. -/
theorem element_of_name (inRule : node.enclosingRule? = some rule)
    (isName : node.kind = .tokenRef ∨ node.kind = .ruleRef) :
    element scope node =
      if rule.tree.isLexerRule then lexerElement scope rule node
      else parserElement scope node := by
  rw [element, inRule]
  rcases isName with isToken | isRule
  · rw [isToken]
    rfl
  · rw [isRule]
    rfl

theorem mem_element {kind : MessageKind} (inRule : node.enclosingRule? = some rule)
    (unresolved : Unresolved scope rule node kind) :
    scope.file.messageAtNode kind node [node.text] ∈ element scope node := by
  cases unresolved with
  | ruleInParser inParser isRule undefined =>
    rw [element_of_name inRule (Or.inr isRule), inParser, parserElement, isRule]
    simp [undefined]
  | tokenInLexer inLexer isToken notEnd undefined unknown =>
    rw [element_of_name inRule (Or.inl isToken), inLexer, lexerElement, isToken]
    simp only [contains_eq_mem] at unknown
    simp [notEnd, undefined, unknown]
  | tokenInParser inParser isToken undefined =>
    rw [element_of_name inRule (Or.inl isToken), inParser, parserElement, isToken]
    simp [undefined]

/-- Messages of these kinds about elements of lexer rules are about unresolved names. -/
theorem unresolved_of_mem_lexerElement (inLexer : rule.tree.isLexerRule = true)
    (found : message ∈ lexerElement scope rule node)
    (ofKind : message.kind ∈ unresolvedKinds) :
    Unresolved scope rule node message.kind ∧
    message = scope.file.messageAtNode message.kind node [node.text] := by
  unfold lexerElement at found
  dsimp only at found
  split at found
  · rename_i isToken
    split at found
    · cases found
    · rename_i unlisted
      rw [Bool.or_eq_true, Bool.or_eq_true, not_or, not_or, decide_eq_true_eq,
        Bool.not_eq_true, Bool.not_eq_true] at unlisted
      cases mem_singleton.mp found
      exact ⟨.tokenInLexer inLexer isToken unlisted.1.1 unlisted.1.2 unlisted.2, rfl⟩
  · cases mem_singleton.mp found
    exact absurd ofKind (show MessageKind.parserRuleRefInLexerRule ∉
      unresolvedKinds by decide)
  · cases found

/-- Messages of these kinds about elements of parser rules are about unresolved names. -/
theorem unresolved_of_mem_parserElement (inParser : rule.tree.isLexerRule = false)
    (found : message ∈ parserElement scope node)
      (ofKind : message.kind ∈ unresolvedKinds) :
    Unresolved scope rule node message.kind ∧
    message = scope.file.messageAtNode message.kind node [node.text] := by
  unfold parserElement at found
  dsimp only at found
  split at found
  · rename_i isToken
    split at found
    · cases found
    · rename_i undefined
      rw [Bool.not_eq_true] at undefined
      cases mem_singleton.mp found
      exact ⟨.tokenInParser inParser isToken undefined, rfl⟩
  · rename_i isRule
    split at found
    · cases found
    · rename_i undefined
      rw [Bool.not_eq_true] at undefined
      cases mem_singleton.mp found
      exact ⟨.ruleInParser inParser isRule undefined, rfl⟩
  · split at found
    · cases mem_singleton.mp found
      exact absurd ofKind (show MessageKind.implicitStringDefinition ∉
        unresolvedKinds by decide)
    · cases found
  · cases found

theorem unresolved_of_mem_element (found : message ∈ element scope node)
    (ofKind : message.kind ∈ unresolvedKinds) :
    ∃ rule, node.enclosingRule? = some rule ∧ Unresolved scope rule node message.kind ∧
      message = scope.file.messageAtNode message.kind node [node.text] := by
  unfold element at found
  split at found
  · cases found
  · rename_i rule inRule
    refine ⟨rule, inRule, ?_⟩
    split at found
    · cases mem_singleton.mp found
      exact absurd ofKind (show MessageKind.emptyStringsAndSetsNotAllowed ∉
        unresolvedKinds by decide)
    · rcases mem_append.mp found with written | referring
      · split at written
        · exact absurd written ((reports_escapes scope.file _ node).not_mem
            (by decide) ofKind)
        · cases written
      · split at referring
        · rename_i inLexer
          exact unresolved_of_mem_lexerElement inLexer referring ofKind
        · rename_i inParser
          rw [Bool.not_eq_true] at inParser
          exact unresolved_of_mem_parserElement inParser referring ofKind

theorem mem_references_iff : message ∈ references scope ∧ message.kind ∈ unresolvedKinds ↔
    ∃ node ∈ scope.grammar.tree.elements, ∃ rule, node.enclosingRule? = some rule ∧
      Unresolved scope rule node message.kind ∧
      message = scope.file.messageAtNode message.kind node [node.text] := by
  constructor
  · rintro ⟨found, ofKind⟩
    obtain ⟨node, isElement, reported⟩ := mem_flatMap.mp found
    exact ⟨node, isElement, unresolved_of_mem_element reported ofKind⟩
  · rintro ⟨node, isElement, rule, inRule, unresolved, equal⟩
    refine ⟨mem_flatMap.mpr ⟨node, isElement, ?_⟩, unresolved.kind_mem⟩
    rw [equal]
    exact mem_element inRule unresolved

end Check

/-- Whether a section of token names that stands directly in a grammar lists a name. -/
def Grammar.ListsToken (grammar : Grammar) (name : String) : Prop :=
  ∃ tokens ∈ grammar.sections .tokens, ∃ entry ∈ tokens.children, entry.text = name

namespace GrammarFile

/-- A file with the grammar of a source that is free of syntax errors and names no
other files. -/
structure StandsAlone (file : GrammarFile) (source : String) : Prop where
  isSource : file.grammar = .ofSource source
  wellFormed : file.grammar.errors = []
  noImports : file.grammar.importNames = []
  noVocabularies : file.grammar.vocabularyNames = []

variable {file : GrammarFile} {files : Files} {library : Option String} {source : String}

/-- If a grammar stands alone, names that lead to nothing are reported by the check of
references only. -/
theorem StandsAlone.mem_inspect_iff (alone : file.StandsAlone source) {message : Message}
    (ofKind : message.kind ∈ Check.unresolvedKinds) :
    message ∈ (file.inspect files library).messages ↔
    message ∈ Check.references (file.scope .empty) := by
  have vocabularies : Check.vocabularies files library file = ⟨.empty, .empty⟩ := by
    rw [Check.vocabularies, alone.noVocabularies]
    rfl
  have imports : Check.imports files library file = ⟨.empty, .empty⟩ := by
    rw [Check.imports, alone.noImports]
    rfl
  have inspected : (file.inspect files library).messages =
      [] ++ (Check.fileName file ++ Check.prequels file ++
        Check.options file ++ [] ++ [] ++
        (Check.declarations (file.scope .empty) ++ Check.references (file.scope .empty) ++
          Check.labels (file.scope .empty) ++ Check.commands file ++
          Check.emptyMatches (file.scope .empty))) := by
    rw [inspect, syntaxMessages, check, Grammar.isWellFormed, alone.wellFormed,
      vocabularies, imports]
    rfl
  have fileName := (Check.reports_fileName file).not_mem (by decide) ofKind
  have prequels := (Check.reports_prequels file).not_mem (by decide) ofKind
  have options := (Check.reports_options file).not_mem (by decide) ofKind
  have declarations :=
    (Check.reports_declarations (file.scope .empty)).not_mem (by decide) ofKind
  have labels := (Check.reports_labels (file.scope .empty)).not_mem (by decide) ofKind
  have commands := (Check.reports_commands file).not_mem (by decide) ofKind
  have emptyMatches :=
    (Check.reports_emptyMatches (file.scope .empty)).not_mem (by decide) ofKind
  rw [inspected]
  simp only [mem_append, not_mem_nil, fileName, prequels, options, declarations, labels,
    commands, emptyMatches, or_false, false_or]

/-! ## What is declared -/

section Declared

variable {name rule : Node} {text : String}

/-- The names that the rules of a grammar have are those of rules that the checks find. -/
theorem declares_iff_firstRule? (isSource : file.grammar = .ofSource source) :
    (Grammar.ofSource source).Declares text ↔
    ((file.scope .empty).firstRule? text).isSome = true := by
  rw [Grammar.Declares, ← isSource, Scope.firstRule?, Nullability.firstRule?,
    find?_isSome]
  simp only [scope, decide_eq_true_eq]

/-- The first rule with the name of a reference is a rule of the kind that
the name tells. -/
theorem isLexerRule_of_firstRule? (isSource : file.grammar = .ofSource source)
    (isName : (Grammar.ofSource source).IsName name)
    (found : (file.scope .empty).firstRule? name.text = some rule) :
    rule.tree.isLexerRule = decide (name.kind = .tokenRef) := by
  have member : rule ∈ (Grammar.ofSource source).tree.rules := by
    rw [← isSource]
    exact mem_of_find?_eq_some found
  have named := find?_some found
  exact Grammar.isLexerRule_eq_of_name isName member (of_decide_eq_true named)

theorem definesLexerRule_eq_false_iff (isSource : file.grammar = .ofSource source)
    (nameMember : name ∈ (Grammar.ofSource source).tree.nodes)
    (isToken : name.kind = .tokenRef) :
    (file.scope .empty).definesLexerRule name.text = false ↔
    ¬(Grammar.ofSource source).Declares name.text := by
  have isName : (Grammar.ofSource source).IsName name :=
    ⟨nameMember, by rw [isToken]; rfl⟩
  rw [declares_iff_firstRule? isSource, Scope.definesLexerRule]
  cases found : (file.scope .empty).firstRule? name.text with
  | none => simp
  | some rule =>
    have isLexer := isLexerRule_of_firstRule? isSource isName found
    simp [isLexer, isToken]

theorem definesParserRule_eq_false_iff (isSource : file.grammar = .ofSource source)
    (nameMember : name ∈ (Grammar.ofSource source).tree.nodes)
    (isRule : name.kind = .ruleRef) :
    (file.scope .empty).definesParserRule name.text = false ↔
    ¬(Grammar.ofSource source).Declares name.text := by
  have isName : (Grammar.ofSource source).IsName name := ⟨nameMember, by rw [isRule]; rfl⟩
  have noOther : (file.scope .empty).external.parserRules = [] := rfl
  rw [declares_iff_firstRule? isSource, Scope.definesParserRule, noOther]
  cases found : (file.scope .empty).firstRule? name.text with
  | none => simp
  | some rule =>
    have isLexer := isLexerRule_of_firstRule? isSource isName found
    simp [isLexer, isRule]

theorem definesToken_eq_false_iff (isSource : file.grammar = .ofSource source)
    (nameMember : name ∈ (Grammar.ofSource source).tree.nodes)
    (isToken : name.kind = .tokenRef) :
    (file.scope .empty).definesToken name.text = false ↔ name.text ≠ "EOF" ∧
      ¬(Grammar.ofSource source).ListsToken name.text ∧
      ¬(Grammar.ofSource source).Declares name.text := by
  have noOther : (file.scope .empty).external.tokens = [] := rfl
  have listed : (file.scope .empty).listsToken name.text = true ↔
      (Grammar.ofSource source).ListsToken name.text := by
    rw [Scope.listsToken, Scope.grammar, scope, isSource, Grammar.ListsToken]
    simp only [any_eq_true, decide_eq_true_eq]
  rw [← definesLexerRule_eq_false_iff isSource nameMember isToken, ← listed,
    Scope.definesToken, noOther]
  simp only [contains_nil, Bool.or_false, Bool.or_eq_false_iff, decide_eq_false_iff_not,
    Bool.not_eq_true]
  exact ⟨fun ⟨⟨notEnd, undefined⟩, unlisted⟩ => ⟨notEnd, unlisted, undefined⟩,
    fun ⟨notEnd, unlisted, undefined⟩ => ⟨⟨notEnd, undefined⟩, unlisted⟩⟩

end Declared

end GrammarFile

/-! ## Agreement with definitions -/

/-- Whether findings have a message of a kind about the text of a node. -/
def Findings.ReportsAt (findings : Findings) (kind : MessageKind) (node : Node) : Prop :=
  ∃ message ∈ findings.messages, message.kind = kind ∧
    node.tree.anchor = some message.span

namespace GrammarFile.StandsAlone

variable {file : GrammarFile} {files : Files} {library : Option String} {source : String}
  {rule node : Node} {kind : MessageKind}

theorem anchor_eq (isName : (Grammar.ofSource source).IsName node)
    (arguments : List String) :
    node.tree.anchor = some (file.messageAtNode kind node arguments).span := by
  obtain ⟨token, _, _, _, begins, _⟩ := Grammar.exists_token_of_name isName
  rw [messageAtNode, messageAt, begins]
  rfl

/-- Each message about a name that leads to nothing is about a reference. -/
theorem exists_reference (alone : file.StandsAlone source) {message : Message}
    (reported : message ∈ (file.inspect files library).messages)
    (ofKind : message.kind ∈ Check.unresolvedKinds) :
    ∃ rule node, (Grammar.ofSource source).IsReference rule node ∧
      Check.Unresolved (file.scope .empty) rule node message.kind ∧
      node.tree.anchor = some message.span := by
  rw [alone.mem_inspect_iff ofKind] at reported
  obtain ⟨node, isElement, rule, inRule, unresolved, equal⟩ :=
    Check.mem_references_iff.mp ⟨reported, ofKind⟩
  rw [Scope.grammar, scope, alone.isSource,
    Grammar.mem_elements_iff unresolved.isName] at isElement
  refine ⟨rule, node, ⟨isElement.1, unresolved.isName, isElement.2, inRule⟩,
    unresolved, ?_⟩
  rw [equal]
  exact anchor_eq ⟨isElement.1, unresolved.isName⟩ _

/-- A reference is reported exactly if it leads to nothing. -/
theorem reportsAt_iff (alone : file.StandsAlone source)
    (reference : (Grammar.ofSource source).IsReference rule node)
    (ofKind : kind ∈ Check.unresolvedKinds) :
    (file.inspect files library).ReportsAt kind node ↔
    Check.Unresolved (file.scope .empty) rule node kind := by
  constructor
  · rintro ⟨message, reported, rfl, place⟩
    obtain ⟨otherRule, other, otherReference, unresolved, otherPlace⟩ :=
      alone.exists_reference reported ofKind
    have same : node = other :=
      Grammar.eq_of_anchor_eq reference.named otherReference.named
      (place.trans otherPlace.symm)
    subst same
    cases reference.inRule.symm.trans otherReference.inRule
    exact unresolved
  · intro unresolved
    refine ⟨file.messageAtNode kind node [node.text], ?_, rfl,
      anchor_eq reference.named _⟩
    rw [alone.mem_inspect_iff ofKind]
    refine (Check.mem_references_iff.mpr ⟨node, ?_, rule, reference.inRule,
      unresolved, rfl⟩).1
    rw [Scope.grammar, scope, alone.isSource, Grammar.mem_elements_iff reference.isName]
    exact ⟨reference.member, reference.notDeclared⟩

theorem unresolvedRule_iff (isSource : file.grammar = .ofSource source)
    (reference : (Grammar.ofSource source).IsReference rule node)
    (inParser : rule.tree.isLexerRule = false) (isRule : node.kind = .ruleRef) :
    Check.Unresolved (file.scope .empty) rule node .undefinedRuleRef ↔
      (Grammar.ofSource source).LeadsNowhere node := by
  rw [reference.leadsNowhere_iff,
    ← definesParserRule_eq_false_iff isSource reference.member isRule]
  constructor
  · rintro (⟨_, _, undefined⟩ | ⟨inLexer, _⟩)
    · exact undefined
    · cases inLexer.symm.trans inParser
  · exact .ruleInParser inParser isRule

theorem unresolvedToken_iff (isSource : file.grammar = .ofSource source)
    (reference : (Grammar.ofSource source).IsReference rule node)
    (inLexer : rule.tree.isLexerRule = true) (isToken : node.kind = .tokenRef)
    (notEnd : node.text ≠ "EOF") :
    Check.Unresolved (file.scope .empty) rule node .undefinedRuleRef ↔
      (Grammar.ofSource source).LeadsNowhere node := by
  rw [reference.leadsNowhere_iff,
    ← definesLexerRule_eq_false_iff isSource reference.member isToken]
  constructor
  · rintro (⟨inParser, _⟩ | ⟨_, _, _, undefined, _⟩)
    · cases inLexer.symm.trans inParser
    · exact undefined
  · intro undefined
    exact .tokenInLexer inLexer isToken notEnd undefined rfl

theorem implicitToken_iff (isSource : file.grammar = .ofSource source)
    (reference : (Grammar.ofSource source).IsReference rule node)
    (inParser : rule.tree.isLexerRule = false) (isToken : node.kind = .tokenRef) :
    Check.Unresolved (file.scope .empty) rule node .implicitTokenDefinition ↔
      node.text ≠ "EOF" ∧ ¬(Grammar.ofSource source).ListsToken node.text ∧
        (Grammar.ofSource source).LeadsNowhere node := by
  rw [reference.leadsNowhere_iff,
    ← definesToken_eq_false_iff isSource reference.member isToken]
  constructor
  · rintro ⟨⟩
    assumption
  · exact .tokenInParser inParser isToken

end GrammarFile.StandsAlone

/-- The checks and the editor agree on what is defined. A reference to a rule in a
parser rule, and one to a token other than `EOF` in a lexer rule, is reported as
undefined exactly if no place inside it leads to a definition. A reference to a token in
a parser rule is reported as implicitly defined exactly if it is not `EOF`, no section
of the grammar lists it and no place inside it leads to a definition. Nothing else is
reported so. -/
theorem GrammarFile.inspect_agrees_definition (file : GrammarFile) (files : Files)
    (library : Option String) (source : String) (alone : file.StandsAlone source) :
    (∀ rule node, (Grammar.ofSource source).IsReference rule node →
      (rule.tree.isLexerRule = false → node.kind = .ruleRef →
        ((file.inspect files library).ReportsAt .undefinedRuleRef node ↔
          (Grammar.ofSource source).LeadsNowhere node)) ∧
      (rule.tree.isLexerRule = true → node.kind = .tokenRef → node.text ≠ "EOF" →
        ((file.inspect files library).ReportsAt .undefinedRuleRef node ↔
          (Grammar.ofSource source).LeadsNowhere node)) ∧
      (rule.tree.isLexerRule = false → node.kind = .tokenRef →
        ((file.inspect files library).ReportsAt .implicitTokenDefinition node ↔
          node.text ≠ "EOF" ∧ ¬(Grammar.ofSource source).ListsToken node.text ∧
            (Grammar.ofSource source).LeadsNowhere node))) ∧
      ∀ message ∈ (file.inspect files library).messages,
        (message.kind = .undefinedRuleRef →
          ∃ rule node, (Grammar.ofSource source).IsReference rule node ∧
            node.tree.anchor = some message.span ∧
            (rule.tree.isLexerRule = false ∧ node.kind = .ruleRef ∨
              rule.tree.isLexerRule = true ∧ node.kind = .tokenRef ∧ node.text ≠ "EOF")) ∧
        (message.kind = .implicitTokenDefinition →
          ∃ rule node, (Grammar.ofSource source).IsReference rule node ∧
            node.tree.anchor = some message.span ∧
            rule.tree.isLexerRule = false ∧ node.kind = .tokenRef) := by
  have isSource := alone.isSource
  refine ⟨fun rule node reference => ⟨?_, ?_, ?_⟩, fun message reported => ⟨?_, ?_⟩⟩
  · intro inParser isRule
    rw [alone.reportsAt_iff reference (by decide)]
    exact StandsAlone.unresolvedRule_iff isSource reference inParser isRule
  · intro inLexer isToken notEnd
    rw [alone.reportsAt_iff reference (by decide)]
    exact StandsAlone.unresolvedToken_iff isSource reference inLexer isToken notEnd
  · intro inParser isToken
    rw [alone.reportsAt_iff reference (by decide)]
    exact StandsAlone.implicitToken_iff isSource reference inParser isToken
  · intro isUndefined
    obtain ⟨rule, node, reference, unresolved, place⟩ :=
      alone.exists_reference reported (by rw [isUndefined]; decide)
    refine ⟨rule, node, reference, place, ?_⟩
    rw [isUndefined] at unresolved
    rcases unresolved with ⟨inParser, isRule, _⟩ | ⟨inLexer, isToken, notEnd, _⟩
    · exact Or.inl ⟨inParser, isRule⟩
    · exact Or.inr ⟨inLexer, isToken, notEnd⟩
  · intro isImplicit
    obtain ⟨rule, node, reference, unresolved, place⟩ :=
      alone.exists_reference reported (by rw [isImplicit]; decide)
    refine ⟨rule, node, reference, place, ?_⟩
    rw [isImplicit] at unresolved
    cases unresolved with
    | tokenInParser inParser isToken => exact ⟨inParser, isToken⟩

/-- The reference to `b`, which no rule is called, is reported. -/
theorem GrammarFile.inspect_agrees_definition_undefined :
    ∃ node ∈ (Grammar.ofSource "grammar A; a : b ;").tree.nodes, node.text = "b" ∧
      ((GrammarFile.ofSource "A.g4" "grammar A; a : b ;").inspect Check.noFiles
        none).ReportsAt .undefinedRuleRef node := by
  have alone : (GrammarFile.ofSource "A.g4" "grammar A; a : b ;").StandsAlone
      "grammar A; a : b ;" := {
    isSource := rfl
    wellFormed := by decide +kernel
    noImports := isEmpty_iff.mp (by decide +kernel)
    noVocabularies := isEmpty_iff.mp (by decide +kernel) }
  have occurs : ((Grammar.ofSource "grammar A; a : b ;").tree.nodes.any fun node =>
      node.text = "b" && node.kind = .ruleRef && !Grammar.isDeclaration node &&
        node.enclosingRule?.any (!·.tree.isLexerRule)) = true := by decide +kernel
  obtain ⟨node, member, facts⟩ := any_eq_true.mp occurs
  simp only [Bool.and_eq_true, decide_eq_true_eq, Bool.not_eq_true'] at facts
  obtain ⟨⟨⟨text, isRule⟩, notDeclared⟩, inSomeRule⟩ := facts
  obtain ⟨rule, inRule, inParser⟩ := (Option.any_eq_true _ _).mp inSomeRule
  have reference : (Grammar.ofSource "grammar A; a : b ;").IsReference rule node :=
    ⟨member, by rw [isRule]; rfl, notDeclared, inRule⟩
  have undeclared : ¬(Grammar.ofSource "grammar A; a : b ;").Declares node.text := by
    rintro ⟨declared, isDeclared, named⟩
    have noRule : ((Grammar.ofSource "grammar A; a : b ;").tree.rules.all fun rule =>
        rule.tree.ruleName? ≠ some "b") = true := by decide +kernel
    exact of_decide_eq_true (all_eq_true.mp noRule declared isDeclared) (text ▸ named)
  obtain ⟨inParserRule, _⟩ :=
    (inspect_agrees_definition _ _ none _ alone).1 rule node reference
  refine ⟨node, member, text, (inParserRule ?_ isRule).mpr
    (reference.leadsNowhere_iff.mpr undeclared)⟩
  rwa [Bool.not_eq_true'] at inParser

end GrammarInspector
