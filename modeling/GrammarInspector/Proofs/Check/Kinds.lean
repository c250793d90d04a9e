import GrammarInspector.Check.Inspect

/-! # What each check reports

Every check reports messages of a few kinds only.
-/

namespace GrammarInspector.Check

open List

/-- Nothing but the grammar itself. -/
def noFiles : Files := ⟨fun _ => .error .notFound⟩

/-- Whether messages are of some kinds only. -/
def Reports (kinds : List MessageKind) (messages : List Message) : Prop :=
  ∀ message ∈ messages, message.kind ∈ kinds

namespace Reports

variable {α : Type} {kinds : List MessageKind} {messages others : List Message}
  {message : Message} {file : GrammarFile} {kind : MessageKind}
  {arguments : List String}

theorem nil : Reports kinds [] := fun message member => by cases member

theorem single (allowed : message.kind ∈ kinds) : Reports kinds [message] := by
  intro other member
  rw [mem_singleton.mp member]
  exact allowed

theorem atNode {node : Node} (allowed : kind ∈ kinds) :
    Reports kinds [file.messageAtNode kind node arguments] :=
  single allowed

theorem atSpan {span : Span} (allowed : kind ∈ kinds) :
    Reports kinds [file.messageAtSpan kind span arguments] :=
  single allowed

theorem append (left : Reports kinds messages) (right : Reports kinds others) :
    Reports kinds (messages ++ others) := by
  intro message member
  rcases mem_append.mp member with first | second
  · exact left message first
  · exact right message second

theorem map {values : List α} {make : α → Message}
    (each : ∀ value, (make value).kind ∈ kinds) : Reports kinds (values.map make) := by
  intro message member
  obtain ⟨value, _, rfl⟩ := mem_map.mp member
  exact each value

theorem flatMap {values : List α} {check : α → List Message}
    (each : ∀ value, Reports kinds (check value)) :
    Reports kinds (values.flatMap check) := by
  intro message member
  obtain ⟨value, _, found⟩ := mem_flatMap.mp member
  exact each value message found

theorem choose {condition : Prop} [Decidable condition] (left : Reports kinds messages)
    (right : Reports kinds others) :
    Reports kinds (if condition then messages else others) := by
  split
  · exact left
  · exact right

theorem mono {more : List MessageKind} (reports : Reports kinds messages)
    (included : ∀ kind ∈ kinds, kind ∈ more) : Reports more messages :=
  fun message member => included _ (reports message member)

/-- A check that reports other kinds of messages does not report a message. -/
theorem not_mem {others : List MessageKind} (reports : Reports kinds messages)
    (disjoint : ∀ kind ∈ others, kind ∉ kinds) (ofKind : message.kind ∈ others) :
    message ∉ messages :=
  fun member => disjoint _ ofKind (reports message member)

theorem filter_eq_nil (reports : Reports kinds messages) (other : kind ∉ kinds) :
    messages.filter (·.kind = kind) = [] := by
  refine filter_eq_nil_iff.mpr fun message member isKind => other ?_
  rw [← of_decide_eq_true isKind]
  exact reports message member

end Reports

/-! ## In front of the rules -/

theorem reports_fileName (file : GrammarFile) :
    Reports [.fileAndGrammarNameDiffer] (fileName file) := by
  unfold fileName
  split
  · exact .nil
  · exact .choose .nil (.atNode (by decide))

theorem reports_prequels (file : GrammarFile) :
    Reports [.repeatedPrequel] (prequels file) :=
  .map fun _ => mem_singleton_self _

theorem reports_options (file : GrammarFile) : Reports [.illegalOption] (options file) :=
  .map fun _ => mem_singleton_self _

theorem reports_loadEach (file : GrammarFile)
    (load? : String → Option (String × Vocabulary)) (note : String)
    (missing : MessageKind) (nodes : List Node) :
    Reports [missing] (loadEach file load? note missing nodes).findings.messages := by
  induction nodes with
  | nil => exact .nil
  | cons node rest induction =>
    rw [loadEach]
    split
    · exact induction
    · exact .append (.atNode (mem_singleton_self _)) induction

theorem reports_vocabularies (files : Files) (library : Option String)
    (file : GrammarFile) :
    Reports [.cannotFindTokensFile] (vocabularies files library file).findings.messages :=
  reports_loadEach file _ _ _ _

theorem reports_imports (files : Files) (library : Option String) (file : GrammarFile) :
    Reports [.cannotFindImportedGrammar] (imports files library file).findings.messages :=
  reports_loadEach file _ _ _ _

theorem reports_syntaxMessages (file : GrammarFile) :
    Reports [.syntaxError] file.syntaxMessages :=
  .map fun _ => mem_singleton_self _

/-! ## Rules -/

/-- The kinds of messages about declarations of rules and modes. -/
def declarationKinds : List MessageKind :=
  [.modeNotInLexer, .parserRulesNotAllowed, .lexerRulesNotAllowed,
    .ruleRedefinition, .noRules]

theorem reports_modes (scope : Scope) : Reports declarationKinds (modes scope) :=
  .choose .nil (.map fun _ => mem_cons_self ..)

theorem reports_declaration (scope : Scope) (rule : Node) :
    Reports declarationKinds (declaration scope rule) := by
  unfold declaration
  split
  · exact .nil
  · refine .append (.append ?_ ?_) ?_
    · exact .choose (.atNode (by decide)) .nil
    · exact .choose (.atNode (by decide)) .nil
    · split
      · exact .nil
      · exact .choose .nil (.atNode (by decide))

theorem reports_someRule (scope : Scope) : Reports declarationKinds (someRule scope) := by
  refine .choose ?_ .nil
  split
  · exact .atNode (by decide)
  · exact .atNode (by decide)

theorem reports_declarations (scope : Scope) :
    Reports declarationKinds (declarations scope) :=
  .append (.append (reports_modes scope) (.flatMap (reports_declaration scope)))
    (reports_someRule scope)

/-! ## Labels and commands -/

/-- The kinds of messages about labels of alternatives. -/
def labelKinds : List MessageKind :=
  [.altLabelConflictsWithRule, .altLabelRedef, .ruleWithTooFewAltLabels]

theorem reports_label (scope : Scope) (all : List Grammar.Labelled)
    (entry : Grammar.Labelled) : Reports labelKinds (label scope all entry) := by
  refine .append (.choose (.atSpan (by decide)) .nil) ?_
  split
  · exact .nil
  · exact .choose .nil (.atSpan (by decide))

theorem reports_labels (scope : Scope) : Reports labelKinds (labels scope) := by
  refine .flatMap fun rule => .choose .nil (.append ?_ (.flatMap (reports_label scope _)))
  exact .choose (.atNode (by decide)) .nil

/-- The kinds of messages about lexer commands. -/
def commandKinds : List MessageKind :=
  [.invalidLexerCommand, .missingLexerCommandArgument, .unwantedLexerCommandArgument]

theorem reports_commands (file : GrammarFile) : Reports commandKinds (commands file) := by
  refine .flatMap fun alternative => .flatMap fun node => ?_
  refine .choose (.atNode (by decide)) (.choose (.atNode (by decide)) ?_)
  exact .choose (.atNode (by decide)) .nil

/-! ## Escapes -/

theorem reports_escapes (file : GrammarFile) (valid : List Char) (node : Node) :
    Reports [.invalidEscapeSequence] (escapes file valid node) := by
  unfold escapes
  split
  · exact .map fun _ => mem_singleton_self _
  · exact .nil

/-! ## Elements -/

/-- The kinds of messages about elements that refer to nothing, or to a wrong thing. -/
def referenceKinds : List MessageKind :=
  [.undefinedRuleRef, .parserRuleRefInLexerRule, .implicitTokenDefinition,
    .implicitStringDefinition]

/-- The kinds of messages about elements of rules. -/
def elementKinds : List MessageKind :=
  [.invalidEscapeSequence, .emptyStringsAndSetsNotAllowed] ++ referenceKinds

theorem reports_lexerElement (scope : Scope) (rule node : Node) :
    Reports referenceKinds (lexerElement scope rule node) := by
  unfold lexerElement
  split
  · exact .choose .nil (.atNode (by decide))
  · exact .atNode (by decide)
  · exact .nil

theorem reports_parserElement (scope : Scope) (node : Node) :
    Reports referenceKinds (parserElement scope node) := by
  unfold parserElement
  split
  · exact .choose .nil (.atNode (by decide))
  · exact .choose .nil (.atNode (by decide))
  · exact .choose (.atNode (by decide)) .nil
  · exact .nil

theorem reports_element (scope : Scope) (node : Node) :
    Reports elementKinds (element scope node) := by
  unfold element
  split
  · exact .nil
  · apply Reports.choose (.atNode (by decide))
    apply Reports.append
    · split
      · exact (reports_escapes scope.file _ node).mono (by decide)
      · exact .nil
    · refine Reports.mono ?_ (subset_append_right _ referenceKinds)
      exact .choose (reports_lexerElement scope _ node) (reports_parserElement scope node)

theorem reports_references (scope : Scope) : Reports elementKinds (references scope) :=
  .flatMap (reports_element scope)

/-! ## Empty matches -/

/-- The kinds of messages about empty matches. -/
def emptinessKinds : List MessageKind :=
  [.epsilonToken, .epsilonOptional, .epsilonClosure]

theorem reports_inTurn {kinds : List MessageKind}
    {check : Nullability.Progress → Node → WithProgress}
    (each : ∀ progress node, Reports kinds (check progress node).1)
    (progress : Nullability.Progress) (nodes : List Node) :
    Reports kinds (inTurn check progress nodes).1 := by
  induction nodes generalizing progress with
  | nil => exact .nil
  | cons node rest induction => exact .append (each progress node) (induction _)

theorem reports_tokenNotEmpty (scope : Scope) (progress : Nullability.Progress)
    (rule : Node) : Reports emptinessKinds (tokenNotEmpty scope progress rule).1 := by
  unfold tokenNotEmpty
  split
  · exact .choose (.atNode (by decide)) .nil
  · exact .nil

theorem reports_suffixNotEmpty (scope : Scope) (ruleName : String)
    (progress : Nullability.Progress) (suffix : Node) :
    Reports emptinessKinds (suffixNotEmpty scope ruleName progress suffix).1 := by
  unfold suffixNotEmpty
  split
  · exact .nil
  · refine .choose (.atNode ?_) .nil
    split
    · decide
    · decide

theorem reports_emptyMatches (scope : Scope) :
    Reports emptinessKinds (emptyMatches scope) := by
  refine reports_inTurn (fun progress rule => ?_) .start scope.rules
  exact .append (reports_tokenNotEmpty scope progress rule)
    (reports_inTurn (reports_suffixNotEmpty scope _) _ _)

end GrammarInspector.Check

namespace GrammarInspector.GrammarFile

open Check

/-! ## All checks -/

/-- Messages about declarations, elements and labels come from the checks of these. -/
theorem filter_inspect {file : GrammarFile} (noErrors : file.grammar.errors = [])
    (files : Files) (library : Option String) :
    ∃ external, ∀ kind ∈ declarationKinds ++ elementKinds ++ labelKinds,
      (file.inspect files library).messages.filter (·.kind = kind) =
        (declarations (file.scope external) ++ references (file.scope external) ++
          labels (file.scope external)).filter (·.kind = kind) := by
  have wellFormed : file.grammar.isWellFormed =
      true := by rw [Grammar.isWellFormed, noErrors]; rfl
  have noSyntax : file.syntaxMessages = [] := by rw [syntaxMessages, noErrors]; rfl
  refine ⟨(vocabularies files library file).vocabulary ++
    (imports files library file).vocabulary,
    fun kind ofKind => ?_⟩
  have others {kinds : List MessageKind} {messages : List Message}
      (reports : Reports kinds messages)
      (disjoint : ∀ kind ∈ declarationKinds ++ elementKinds ++ labelKinds, kind ∉ kinds) :
      messages.filter (·.kind = kind) = [] := reports.filter_eq_nil (disjoint kind ofKind)
  simp only [inspect, check, wellFormed, noSyntax, Findings.messages_append,
    Findings.messages_ofMessages,
    List.filter_append, Bool.not_true, Bool.false_eq_true, if_false,
    others (reports_fileName file) (by decide),
      others (reports_prequels file) (by decide),
    others (reports_options file) (by decide),
      others (reports_vocabularies files library file) (by decide),
    others (reports_imports files library file) (by decide),
      others (reports_commands file) (by decide),
    others (reports_emptyMatches _) (by decide), List.nil_append, List.append_nil]

end GrammarInspector.GrammarFile
