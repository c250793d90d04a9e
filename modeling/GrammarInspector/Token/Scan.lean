import GrammarInspector.Text.Alphabetic
import GrammarInspector.Text.Numeric
import GrammarInspector.Text.Span
import GrammarInspector.Text.Units
import GrammarInspector.Text.Uppercase
import GrammarInspector.Token.Extent
import GrammarInspector.Token.Kind

/-!
Tokens of a source text.

`Token.scan` decides what token a character begins and how many of the following
characters belong to it; `Token.ofText` cuts a whole text into tokens and blanks. Scanning
never fails: text that is no token becomes a token of kind `error`, and the scan goes on
behind it.
-/

namespace GrammarInspector

/-- A token: its kind, the bytes it covers and the text it covers there. -/
structure Token where
  kind : TokenKind
  span : Span
  text : String
deriving DecidableEq, Repr

namespace Token

/-- What a token is and how many characters behind its first one belong to it. -/
abbrev Scanned := TokenKind × Nat

/-! ## Words -/

def startsWord (character : Char) : Bool := Text.isAlphabetic character || character = '_'

def continuesWord (character : Char) : Bool :=
  Text.isAlphabetic character || Text.isNumeric character || character = '_'

/-- How many characters, up to and with an opening brace, follow before anything but
spaces, tabs and line ends does. -/
def braceDistance : List Char → Option Nat
  | [] => none
  | character :: rest =>
    if character = '\x7b' then some 1
    else if character = ' ' || character = '\t' || character = '\r' ||
        character = '\n' then
      (braceDistance rest).map (· + 1)
    else none

/-- The kind of a word that opens no section: a keyword, or a name told by its
first letter. -/
def wordKind (first : Char) (word : String) : TokenKind :=
  match Keyword.ofText? word with
  | some keyword => .keyword keyword
  | none => if Text.isUppercase first then .tokenRef else .ruleRef

/-- A name, a keyword, or one of the words that form one token with a brace
behind them. -/
def scanWord (first : Char) (rest : List Char) : Scanned :=
  let length := (rest.takeWhile continuesWord).length
  let word := String.ofList (first :: rest.take length)
  match Opener.ofText? word, braceDistance (rest.drop length) with
  | some opener, some distance => (.opener opener, length + distance)
  | _, _ => (wordKind first word, length)

/-! ## Other tokens -/

/-- Marks that no other mark begins with. -/
def loneMark? : Char → Option Mark
  | ';' => some .semicolon
  | '(' => some .leftParen
  | ')' => some .rightParen
  | '\x7d' => some .rightBrace
  | '|' => some .bar
  | '=' => some .equals
  | '?' => some .question
  | '*' => some .star
  | '~' => some .tilde
  | ',' => some .comma
  | '<' => some .less
  | '>' => some .greater
  | '@' => some .at
  | '#' => some .hash
  | _ => none

/-- The kind `long`, with one character more, if `second` comes next, and else the
kind `short`. -/
def scanPair (second : Char) (long short : TokenKind) (rest : List Char) : Scanned :=
  if rest.head? = some second then (long, 1) else (short, 0)

/-- What an extent makes of a token, given its kind when it is closed and its
fault when not. -/
def Extent.scanned (extent : Extent) (kind : TokenKind) (fault : LexFault) : Scanned :=
  (if extent.closed then kind else .error fault, extent.length)

def scanComment : List Char → Scanned
  | '/' :: rest => (.comment .line, lineExtent rest + 1)
  | '*' :: rest =>
    let flavour := if startsDoc rest then .doc else .block
    ((blockExtent rest).after 1).scanned (.comment flavour) .unterminatedComment
  | _ => (.error (.unexpectedCharacter '/'), 0)

/-- An action, or a predicate when a question mark follows the closing brace. -/
def scanAction (rest : List Char) : Scanned :=
  let extent := actionExtent 0 0 rest
  if extent.closed && (rest.drop extent.length).head? = some '?' then
    (.predicate, extent.length + 1)
  else extent.scanned .action .unterminatedAction

def scan (first : Char) (rest : List Char) : Scanned :=
  match first with
  | ':' => scanPair ':' (.punctuation .doubleColon) (.punctuation .colon) rest
  | '+' => scanPair '=' (.punctuation .plusEquals) (.punctuation .plus) rest
  | '.' => scanPair '.' (.punctuation .dots) (.punctuation .dot) rest
  | '-' => scanPair '>' (.punctuation .arrow) (.error (.unexpectedCharacter '-')) rest
  | '/' => scanComment rest
  | '\'' => (literalExtent rest).scanned .literal .unterminatedLiteral
  | '\x7b' => scanAction rest
  | '[' => (bracketExtent rest).scanned .bracket .unterminatedBracket
  | _ =>
    match loneMark? first with
    | some mark => (.punctuation mark, 0)
    | none =>
      if first.isDigit then (.int, (rest.takeWhile Char.isDigit).length)
      else if startsWord first then scanWord first rest
      else (.error (.unexpectedCharacter first), 0)

/-! ## Whole texts -/

/-- Characters that separate tokens and belong to none. -/
def isBlank (character : Char) : Bool :=
  character = ' ' || character = '\t' || character = '\r' || character = '\n' ||
    character = '\x0c'

/-- The tokens of a text that begins at a byte offset, ended by one of kind `eof`. -/
def ofTextAt (offset : Nat) : List Char → List Token
  | [] => [⟨.eof, .emptyAt offset, ""⟩]
  | first :: rest =>
    if isBlank first then ofTextAt (offset + first.utf8Size) rest
    else
      let (kind, count) := scan first rest
      let lexeme := first :: rest.take count
      let stop := offset + Text.utf8Length lexeme
      ⟨kind, ⟨offset, stop⟩, String.ofList lexeme⟩ :: ofTextAt stop (rest.drop count)
termination_by text => text.length
decreasing_by
  · simp
  · simp only [List.length_drop, List.length_cons]; omega

/-- The tokens of a source, comments and faulty text included. -/
def ofText (source : List Char) : List Token := ofTextAt 0 source

end Token

end GrammarInspector
