/-!
The kinds of nodes of a grammar's tree.
-/

namespace GrammarInspector

/-- What a node of a grammar's tree stands for. -/
inductive NodeKind where
  | grammar
  | rules
  /-- A rule; its first child is the declared name. -/
  | rule
  | ruleModifiers
  | block
  | alternative
  /-- An alternative of a lexer rule, followed by its commands. -/
  | lexerAlternative
  /-- A lexer command with an argument. -/
  | commandCall
  | set
  /-- Stands in an alternative that has no elements. -/
  | epsilon
  | elementOptions
  | options
  | tokens
  | channels
  | imports
  | mode
  /-- Code with a name, and perhaps a scope, for the generated program. -/
  | namedAction
  | returns
  | locals
  | throws
  | handler
  | cleanup
  | optional
  | closure
  | positiveClosure
  | complement
  | range
  | wildcard
  | assign
  | plusAssign
  /-- A plain name: of a grammar, an option, a label, a lexer command. -/
  | identifier
  | ruleModifier
  | tokenRef
  | ruleRef
  | literal
  | charSet
  | action
  | predicate
  | arguments
  | int
deriving DecidableEq, Repr

namespace NodeKind

/-- All kinds, with the structural ones first and the leaves last. -/
def all : List NodeKind :=
  [.grammar, .rules, .rule, .ruleModifiers, .block, .alternative, .lexerAlternative,
    .commandCall,
    .set, .epsilon, .elementOptions, .options, .tokens, .channels, .imports, .mode,
      .namedAction,
    .returns, .locals, .throws, .handler, .cleanup, .optional, .closure, .positiveClosure,
    .complement, .range, .wildcard, .assign, .plusAssign, .identifier,
      .ruleModifier, .tokenRef,
    .ruleRef, .literal, .charSet, .action, .predicate, .arguments, .int]

def name : NodeKind → String
  | .grammar => "Grammar"
  | .rules => "Rules"
  | .rule => "Rule"
  | .ruleModifiers => "RuleModifiers"
  | .block => "Block"
  | .alternative => "Alt"
  | .lexerAlternative => "LexerAltAction"
  | .commandCall => "LexerActionCall"
  | .set => "Set"
  | .epsilon => "Epsilon"
  | .elementOptions => "ElementOptions"
  | .options => "Options"
  | .tokens => "Tokens"
  | .channels => "Channels"
  | .imports => "Import"
  | .mode => "Mode"
  | .namedAction => "NamedAction"
  | .returns => "Returns"
  | .locals => "Locals"
  | .throws => "Throws"
  | .handler => "Catch"
  | .cleanup => "Finally"
  | .optional => "Optional"
  | .closure => "Closure"
  | .positiveClosure => "PositiveClosure"
  | .complement => "Not"
  | .range => "Range"
  | .wildcard => "Wildcard"
  | .assign => "Assign"
  | .plusAssign => "PlusAssign"
  | .identifier => "Id"
  | .ruleModifier => "RuleModifier"
  | .tokenRef => "TokenRef"
  | .ruleRef => "RuleRef"
  | .literal => "StringLiteral"
  | .charSet => "LexerCharSet"
  | .action => "Action"
  | .predicate => "SemPred"
  | .arguments => "ArgAction"
  | .int => "Int"

/-- The text of nodes that have the same text wherever they occur. The text of a leaf is
its token's and differs from leaf to leaf. -/
def fixedText? : NodeKind → Option String
  | .grammar => some "GRAMMAR"
  | .rules => some "RULES"
  | .rule => some "RULE"
  | .ruleModifiers => some "RULEMODIFIERS"
  | .block => some "BLOCK"
  | .alternative => some "ALT"
  | .lexerAlternative => some "LEXER_ALT_ACTION"
  | .commandCall => some "LEXER_ACTION_CALL"
  | .set => some "SET"
  | .epsilon => some "EPSILON"
  | .elementOptions => some "ELEMENT_OPTIONS"
  | .options => some "OPTIONS"
  | .tokens => some "TOKENS"
  | .channels => some "CHANNELS"
  | .imports => some "import"
  | .mode => some "mode"
  | .namedAction => some "@"
  | .returns => some "returns"
  | .locals => some "locals"
  | .throws => some "throws"
  | .handler => some "catch"
  | .cleanup => some "finally"
  | .optional => some "?"
  | .closure => some "*"
  | .positiveClosure => some "+"
  | .complement => some "~"
  | .range => some ".."
  | .wildcard => some "."
  | .assign => some "="
  | .plusAssign => some "+="
  | .identifier | .ruleModifier | .tokenRef | .ruleRef | .literal | .charSet | .action
  | .predicate | .arguments | .int => none

/-- How a kind is shown: by its text where that is fixed, otherwise by its name. -/
def display (kind : NodeKind) : String := kind.fixedText?.getD kind.name

/-- The kinds that wrap a block to say how often it may be repeated. -/
def isSuffix : NodeKind → Bool
  | .optional | .closure | .positiveClosure => true
  | _ => false

/-- The kinds that occur as elements of an alternative. -/
def isElement : NodeKind → Bool
  | .tokenRef | .ruleRef | .literal | .charSet | .wildcard | .complement | .range
  | .action | .predicate | .assign | .plusAssign | .optional | .closure
  | .positiveClosure | .epsilon => true
  | _ => false

end NodeKind

end GrammarInspector
