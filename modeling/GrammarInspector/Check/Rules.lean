import GrammarInspector.Check.Scope
import GrammarInspector.Text.Lowercase

/-!
Checks of rules: which are allowed, that names and labels are unique, and that lexer
commands exist.
-/

namespace GrammarInspector.Check

/-! ## Declarations -/

/-- Modes stand in lexer grammars only. -/
def modes (scope : Scope) : List Message :=
  if scope.grammar.flavour = .lexer then []
  else
    (scope.grammar.sections .mode).map fun mode =>
      let name := mode.firstChild?.getD mode
      scope.file.messageAtNode .modeNotInLexer name [name.text]

/-- A rule is of a flavour that its grammar allows, and no earlier rule has its name. -/
def declaration (scope : Scope) (rule : Node) : List Message :=
  match rule.firstChild? with
  | none => []
  | some name =>
    let isLexerRule := rule.tree.isLexerRule
    let parserRule :=
      if scope.grammar.flavour = .lexer && !isLexerRule then
        [scope.file.messageAtNode .parserRulesNotAllowed name [name.text]]
      else []
    let lexerRule :=
      if scope.grammar.flavour = .parser && isLexerRule then
        [scope.file.messageAtNode .lexerRulesNotAllowed name [name.text]]
      else []
    let redefinition :=
      match scope.firstRule? name.text with
      | none => []
      | some first =>
        if first.index = rule.index then []
        else
          [scope.file.messageAtNode .ruleRedefinition name
            [name.text, (scope.grammar.line first).repr]]
    parserRule ++ lexerRule ++ redefinition

/-- A grammar has rules. -/
def someRule (scope : Scope) : List Message :=
  if scope.rules.isEmpty then
    match scope.grammar.nameNode? with
    | some name => [scope.file.messageAtNode .noRules name [name.text]]
    | none =>
      [scope.file.messageAtNode .noRules scope.grammar.tree.root
        [Path.stem scope.file.fileName]]
  else []

def declarations (scope : Scope) : List Message :=
  modes scope ++ scope.rules.flatMap (declaration scope) ++ someRule scope

/-! ## Labels of alternatives -/

/-- A label with its first letter in lower case, the name of the rule it would
conflict with. -/
def decapitalized (label : String) : String :=
  match label.toList with
  | [] => ""
  | first :: rest => String.ofList (Text.lowercase first ++ rest)

def labelled (scope : Scope) : List Grammar.Labelled :=
  (scope.rules.filter (!·.tree.isLexerRule)).flatMap Grammar.labelledOf

/-- A label has the name of no parser rule and does not occur in an earlier rule. -/
def label (scope : Scope) (all : List Grammar.Labelled) (entry : Grammar.Labelled) :
    List Message :=
  let name := entry.label.name
  let ruleName (rule : Node) : String := rule.tree.ruleName?.getD ""
  let conflict :=
    if scope.definesParserRule (decapitalized name) then
      [scope.file.messageAtSpan .altLabelConflictsWithRule entry.label.span
        [name, decapitalized name]]
    else []
  let redefinition :=
    match all.find? (·.label.name = name) with
    | none => []
    | some first =>
      if first.rule.index = entry.rule.index then []
      else
        [scope.file.messageAtSpan .altLabelRedef entry.label.span
          [name, ruleName entry.rule, ruleName first.rule]]
  conflict ++ redefinition

def alternativeCount (rule : Node) : Nat :=
  ((rule.tree.childOfKind? .block).map (·.children.length)).getD 0

/-- A rule labels all of its alternatives or none. -/
def labelsOfRule (scope : Scope) (all : List Grammar.Labelled) (rule : Node) :
    List Message :=
  let entries := Grammar.labelledOf rule
  if rule.tree.isLexerRule || entries.isEmpty then []
  else
    let tooFew :=
      if entries.length < alternativeCount rule then
        [scope.file.messageAtNode .ruleWithTooFewAltLabels (rule.firstChild?.getD rule)
          [rule.tree.ruleName?.getD ""]]
      else []
    tooFew ++ entries.flatMap (label scope all)

def labels (scope : Scope) : List Message :=
  scope.rules.flatMap (labelsOfRule scope (labelled scope))

/-! ## Lexer commands -/

def commandsWithoutArgument : List String := ["skip", "more", "popMode"]

def commandsWithArgument : List String := ["type", "channel", "mode", "pushMode"]

/-- The name of a command and whether it has an argument. -/
def commandParts (command : Node) : Node × Bool :=
  if command.kind = .commandCall then (command.firstChild?.getD command, true)
  else (command, false)

/-- A command exists, and has an argument exactly if it takes one. -/
def command (file : GrammarFile) (command : Node) : List Message :=
  let (name, hasArgument) := commandParts command
  let takesArgument := commandsWithArgument.contains name.text
  let report (kind : MessageKind) : List Message :=
    [file.messageAtNode kind name [name.text]]
  if !takesArgument && !commandsWithoutArgument.contains name.text then report
      .invalidLexerCommand
  else if takesArgument && !hasArgument then report .missingLexerCommandArgument
  else if !takesArgument && hasArgument then report .unwantedLexerCommandArgument
  else []

def commands (file : GrammarFile) : List Message :=
  (file.grammar.tree.nodesOfKind .lexerAlternative).flatMap fun alternative =>
    (alternative.children.drop 1).flatMap (command file)

end GrammarInspector.Check
