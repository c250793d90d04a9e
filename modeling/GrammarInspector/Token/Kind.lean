/-!
The kinds of tokens of a grammar file, and the faults that scanning can meet.
-/

namespace GrammarInspector

inductive LexFault where
  | unexpectedCharacter (character : Char)
  /-- A quoted literal that does not end on its line. -/
  | unterminatedLiteral
  /-- An action that the input ends inside of. -/
  | unterminatedAction
  /-- A bracket block that does not end on its line. -/
  | unterminatedBracket
  /-- A comment that the input ends inside of. -/
  | unterminatedComment
deriving DecidableEq, Repr

namespace LexFault

def message : LexFault → String
  | .unexpectedCharacter character => s!"token recognition error at: '{character}'"
  | .unterminatedLiteral => "unterminated string literal"
  | .unterminatedAction => "unterminated action"
  | .unterminatedBracket => "unterminated argument or character set"
  | .unterminatedComment => "unterminated comment"

end LexFault

inductive Keyword where
  | grammar | lexer | parser | fragment | importWord | mode | returns | locals | throws
  | catchWord | finallyWord | publicWord | privateWord | protectedWord
deriving DecidableEq, Repr

namespace Keyword

def all : List Keyword :=
  [.grammar, .lexer, .parser, .fragment, .importWord, .mode, .returns, .locals,
    .throws, .catchWord, .finallyWord, .publicWord, .privateWord, .protectedWord]

def text : Keyword → String
  | .grammar => "grammar"
  | .lexer => "lexer"
  | .parser => "parser"
  | .fragment => "fragment"
  | .importWord => "import"
  | .mode => "mode"
  | .returns => "returns"
  | .locals => "locals"
  | .throws => "throws"
  | .catchWord => "catch"
  | .finallyWord => "finally"
  | .publicWord => "public"
  | .privateWord => "private"
  | .protectedWord => "protected"

/-- The keyword that a word spells. Case counts. -/
def ofText? (word : String) : Option Keyword := all.find? (·.text == word)

end Keyword

/-- The words that become keywords only in front of an opening brace, with which they
form one token. -/
inductive Opener where
  | options | tokens | channels
deriving DecidableEq, Repr

namespace Opener

def text : Opener → String
  | .options => "options"
  | .tokens => "tokens"
  | .channels => "channels"

def ofText? (word : String) : Option Opener :=
  [.options, .tokens, .channels].find? (·.text == word)

end Opener

inductive Mark where
  | colon | doubleColon | semicolon | leftParen | rightParen | rightBrace | bar | arrow
  | equals | plusEquals | question | star | plus | tilde | dots | dot | comma | less
  | greater | at | hash
deriving DecidableEq, Repr

namespace Mark

def text : Mark → String
  | .colon => ":"
  | .doubleColon => "::"
  | .semicolon => ";"
  | .leftParen => "("
  | .rightParen => ")"
  | .rightBrace => "\x7d"
  | .bar => "|"
  | .arrow => "->"
  | .equals => "="
  | .plusEquals => "+="
  | .question => "?"
  | .star => "*"
  | .plus => "+"
  | .tilde => "~"
  | .dots => ".."
  | .dot => "."
  | .comma => ","
  | .less => "<"
  | .greater => ">"
  | .at => "@"
  | .hash => "#"

end Mark

/-- The flavours of comments. None of them reaches the grammar. -/
inductive Comment where
  | line | block | doc
deriving DecidableEq, Repr

inductive TokenKind where
  | keyword (word : Keyword)
  | opener (word : Opener)
  /-- A name that begins with an upper-case letter. -/
  | tokenRef
  /-- Any other name. -/
  | ruleRef
  /-- Quoted text, quotes included. -/
  | literal
  | int
  /-- Code in balanced braces. -/
  | action
  /-- Code in balanced braces with a question mark behind it. -/
  | predicate
  /-- Text in square brackets: a character set in lexer rules, arguments elsewhere. -/
  | bracket
  | punctuation (mark : Mark)
  | comment (flavour : Comment)
  | error (fault : LexFault)
  | eof
deriving DecidableEq, Repr

namespace TokenKind

def isComment : TokenKind → Bool
  | .comment _ => true
  | _ => false

/-- Whether the token can stand where a plain name is asked for. -/
def isIdentifier : TokenKind → Bool
  | .tokenRef | .ruleRef => true
  | _ => false

/-- How a message that expects this kind names it. -/
def describe : TokenKind → String
  | .keyword word => "'" ++ word.text ++ "'"
  | .opener word => "'" ++ word.text ++ " \x7b'"
  | .tokenRef => "TOKEN_REF"
  | .ruleRef => "RULE_REF"
  | .literal => "STRING_LITERAL"
  | .int => "INT"
  | .action => "ACTION"
  | .predicate => "SEMPRED"
  | .bracket => "'[...]'"
  | .punctuation mark => "'" ++ mark.text ++ "'"
  | .comment _ => "comment"
  | .error _ => "<error>"
  | .eof => "<EOF>"

end TokenKind

end GrammarInspector
