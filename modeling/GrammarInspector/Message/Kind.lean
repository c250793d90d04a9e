/-!
What can be reported about a grammar: for each kind of message its number, its severity
and the text that its arguments are filled into.
-/

namespace GrammarInspector

inductive Severity where
  | warning
  | error
deriving DecidableEq, Repr

namespace Severity

def name : Severity → String
  | .warning => "warning"
  | .error => "error"

end Severity

inductive MessageKind where
  | fileAndGrammarNameDiffer
  | syntaxError
  | ruleRedefinition
  | lexerRulesNotAllowed
  | parserRulesNotAllowed
  | undefinedRuleRef
  | repeatedPrequel
  | illegalOption
  | ruleWithTooFewAltLabels
  | altLabelConflictsWithRule
  | altLabelRedef
  | noRules
  | cannotFindImportedGrammar
  | cannotFindTokensFile
  | modeNotInLexer
  | implicitTokenDefinition
  | implicitStringDefinition
  | epsilonToken
  | invalidLexerCommand
  | missingLexerCommandArgument
  | unwantedLexerCommandArgument
  | epsilonClosure
  | epsilonOptional
  | invalidEscapeSequence
  | parserRuleRefInLexerRule
  | emptyStringsAndSetsNotAllowed
deriving DecidableEq, Repr

namespace MessageKind

/-- All kinds, by increasing number. -/
def all : List MessageKind :=
  [.fileAndGrammarNameDiffer, .syntaxError, .ruleRedefinition, .lexerRulesNotAllowed,
    .parserRulesNotAllowed, .undefinedRuleRef, .repeatedPrequel, .illegalOption,
    .ruleWithTooFewAltLabels, .altLabelConflictsWithRule, .altLabelRedef, .noRules,
    .cannotFindImportedGrammar, .cannotFindTokensFile, .modeNotInLexer,
      .implicitTokenDefinition,
    .implicitStringDefinition, .epsilonToken, .invalidLexerCommand,
      .missingLexerCommandArgument,
    .unwantedLexerCommandArgument, .epsilonClosure, .epsilonOptional,
      .invalidEscapeSequence,
    .parserRuleRefInLexerRule, .emptyStringsAndSetsNotAllowed]

def name : MessageKind → String
  | .fileAndGrammarNameDiffer => "FILE_AND_GRAMMAR_NAME_DIFFER"
  | .syntaxError => "SYNTAX_ERROR"
  | .ruleRedefinition => "RULE_REDEFINITION"
  | .lexerRulesNotAllowed => "LEXER_RULES_NOT_ALLOWED"
  | .parserRulesNotAllowed => "PARSER_RULES_NOT_ALLOWED"
  | .undefinedRuleRef => "UNDEFINED_RULE_REF"
  | .repeatedPrequel => "REPEATED_PREQUEL"
  | .illegalOption => "ILLEGAL_OPTION"
  | .ruleWithTooFewAltLabels => "RULE_WITH_TOO_FEW_ALT_LABELS"
  | .altLabelConflictsWithRule => "ALT_LABEL_CONFLICTS_WITH_RULE"
  | .altLabelRedef => "ALT_LABEL_REDEF"
  | .noRules => "NO_RULES"
  | .cannotFindImportedGrammar => "CANNOT_FIND_IMPORTED_GRAMMAR"
  | .cannotFindTokensFile => "CANNOT_FIND_TOKENS_FILE"
  | .modeNotInLexer => "MODE_NOT_IN_LEXER"
  | .implicitTokenDefinition => "IMPLICIT_TOKEN_DEFINITION"
  | .implicitStringDefinition => "IMPLICIT_STRING_DEFINITION"
  | .epsilonToken => "EPSILON_TOKEN"
  | .invalidLexerCommand => "INVALID_LEXER_COMMAND"
  | .missingLexerCommandArgument => "MISSING_LEXER_COMMAND_ARGUMENT"
  | .unwantedLexerCommandArgument => "UNWANTED_LEXER_COMMAND_ARGUMENT"
  | .epsilonClosure => "EPSILON_CLOSURE"
  | .epsilonOptional => "EPSILON_OPTIONAL"
  | .invalidEscapeSequence => "INVALID_ESCAPE_SEQUENCE"
  | .parserRuleRefInLexerRule => "PARSER_RULE_REF_IN_LEXER_RULE"
  | .emptyStringsAndSetsNotAllowed => "EMPTY_STRINGS_AND_SETS_NOT_ALLOWED"

def ofName? (name : String) : Option MessageKind := all.find? (·.name == name)

/-- The number of a kind, by which users look it up. -/
def code : MessageKind → Nat
  | .fileAndGrammarNameDiffer => 8
  | .syntaxError => 50
  | .ruleRedefinition => 51
  | .lexerRulesNotAllowed => 53
  | .parserRulesNotAllowed => 54
  | .undefinedRuleRef => 56
  | .repeatedPrequel => 79
  | .illegalOption => 83
  | .ruleWithTooFewAltLabels => 94
  | .altLabelConflictsWithRule => 95
  | .altLabelRedef => 96
  | .noRules => 99
  | .cannotFindImportedGrammar => 110
  | .cannotFindTokensFile => 114
  | .modeNotInLexer => 120
  | .implicitTokenDefinition => 125
  | .implicitStringDefinition => 126
  | .epsilonToken => 146
  | .invalidLexerCommand => 149
  | .missingLexerCommandArgument => 150
  | .unwantedLexerCommandArgument => 151
  | .epsilonClosure => 153
  | .epsilonOptional => 154
  | .invalidEscapeSequence => 156
  | .parserRuleRefInLexerRule => 160
  | .emptyStringsAndSetsNotAllowed => 174

def severity : MessageKind → Severity
  | .illegalOption | .implicitTokenDefinition | .epsilonToken | .epsilonOptional
  | .invalidEscapeSequence => .warning
  | _ => .error

/-- The text of a message. The places of its arguments are marked `<arg>`, `<arg2>`
and `<arg3>`. -/
def template : MessageKind → String
  | .fileAndGrammarNameDiffer => "grammar name <arg> and file name <arg2> differ"
  | .syntaxError => "syntax error: <arg2>"
  | .ruleRedefinition => "rule <arg> redefinition; previous at line <arg2>"
  | .lexerRulesNotAllowed => "lexer rule <arg> not allowed in parser"
  | .parserRulesNotAllowed => "parser rule <arg> not allowed in lexer"
  | .undefinedRuleRef => "reference to undefined rule: <arg>"
  | .repeatedPrequel =>
      "repeated grammar prequel spec (options, tokens, or import); please merge"
  | .illegalOption => "unsupported option <arg>"
  | .ruleWithTooFewAltLabels => "rule <arg>: must label all alternatives or none"
  | .altLabelConflictsWithRule => "rule alt label <arg> conflicts with rule <arg2>"
  | .altLabelRedef =>
      "rule alt label <arg> redefined in rule <arg2>, originally in rule <arg3>"
  | .noRules => "grammar <arg> has no rules"
  | .cannotFindImportedGrammar => "can't find or load grammar <arg>"
  | .cannotFindTokensFile => "cannot find tokens file <arg>"
  | .modeNotInLexer => "lexical modes are only allowed in lexer grammars"
  | .implicitTokenDefinition => "implicit definition of token <arg> in parser"
  | .implicitStringDefinition =>
    "cannot create implicit token for string literal in non-combined grammar: <arg>"
  | .epsilonToken => "non-fragment lexer rule <arg> can match the empty string"
  | .invalidLexerCommand =>
    "lexer command <arg> does not exist or is not supported by the current target"
  | .missingLexerCommandArgument => "missing argument for lexer command <arg>"
  | .unwantedLexerCommandArgument => "lexer command <arg> does not take any arguments"
  | .epsilonClosure =>
    "rule <arg> contains a closure with at least one alternative that can match an empty string"
  | .epsilonOptional =>
    "rule <arg> contains an optional block with at least one alternative that can match an empty string"
  | .invalidEscapeSequence => "invalid escape sequence <arg>"
  | .parserRuleRefInLexerRule => "reference to parser rule <arg> in lexer rule <arg2>"
  | .emptyStringsAndSetsNotAllowed => "string literals and sets cannot be empty: <arg>"

end MessageKind

end GrammarInspector
