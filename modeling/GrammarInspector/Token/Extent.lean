/-!
How far the tokens with inner structure reach: literals, bracket blocks, comments and
actions.

Each function looks at the text behind the token's opening and counts the characters that
still belong to the token, so that the lexeme and the text behind it are the two parts of
a cut at that count.
-/

namespace GrammarInspector.Token

/-- How many more characters belong to a token, and whether they end it properly. -/
structure Extent where
  length : Nat
  closed : Bool
deriving DecidableEq, Repr

namespace Extent

/-- The same end, seen from `count` characters further in front. -/
def after (count : Nat) (extent : Extent) : Extent :=
  ⟨count + extent.length, extent.closed⟩

end Extent

/-! ## Literals and bracket blocks -/

/-- The rest of a token that ends at the character `close` of the line it starts on. A
backslash protects the next character of the line, and `breaks` are the characters
that end a line. -/
def delimitedExtent (close : Char) (breaks : Char → Bool) : List Char → Extent
  | [] => ⟨0, false⟩
  | ['\\'] => ⟨1, false⟩
  | '\\' :: next :: rest =>
    if breaks next then ⟨1, false⟩ else (delimitedExtent close breaks rest).after 2
  | character :: rest =>
    if character = close then ⟨1, true⟩
    else if breaks character then ⟨0, false⟩
    else (delimitedExtent close breaks rest).after 1

/-- The rest of a literal behind its opening quote. -/
def literalExtent (text : List Char) : Extent :=
  delimitedExtent '\'' (fun character => character = '\n' || character = '\r') text

/-- The rest of a bracket block behind its opening bracket. A carriage return alone does
not end its line. -/
def bracketExtent (text : List Char) : Extent :=
  delimitedExtent ']' (fun character => character = '\n') text

/-! ## Comments -/

/-- The rest of a line: everything in front of the line feed. -/
def lineExtent : List Char → Nat
  | [] => 0
  | character :: rest => if character = '\n' then 0 else lineExtent rest + 1

/-- The rest of a block comment behind its opening slash and star. -/
def blockExtent : List Char → Extent
  | [] => ⟨0, false⟩
  | '*' :: '/' :: _ => ⟨2, true⟩
  | _ :: rest => (blockExtent rest).after 1

/-- Whether the text behind a comment's opening slash and star makes it a documentation
comment: one more star that does not end the comment. -/
def startsDoc : List Char → Bool
  | '*' :: '/' :: _ => false
  | '*' :: _ => true
  | _ => false

/-! ## Actions

An action is code of some other language. Its braces nest, but braces inside the strings,
character literals and comments of that language do not count: such a piece is passed over
as a whole. -/

/-- The rest of quoted text behind its opening quote. It ends with the quote or with the
line; a backslash protects any next character. -/
def quotedLength (quote : Char) : List Char → Nat
  | [] => 0
  | ['\\'] => 1
  | '\\' :: _ :: rest => quotedLength quote rest + 2
  | character :: rest =>
    if character = '\n' || character = quote then 1 else quotedLength quote rest + 1

/-- How many characters behind `first` belong to the same piece of code. An
apostrophe opens a character literal only if an escape follows, or one character and
another apostrophe. -/
def pieceTail (first : Char) (rest : List Char) : Nat :=
  match first, rest with
  | '\\', _ => 1
  | '"', _ => quotedLength '"' rest
  | '\'', '\\' :: _ => quotedLength '\'' rest
  | '\'', character :: '\'' :: _ => if character = '\n' then 0 else 2
  | '/', '/' :: comment => lineExtent comment + 1
  | '/', '*' :: comment => (blockExtent comment).length + 1
  | _, _ => 0

/-- The rest of an action behind its opening brace. `skip` characters are still to be
passed over as part of a piece, and `depth` braces are open inside the outermost one. -/
def actionExtent : (skip depth : Nat) → List Char → Extent
  | _, _, [] => ⟨0, false⟩
  | skip + 1, depth, _ :: rest => (actionExtent skip depth rest).after 1
  | 0, depth, '\x7b' :: rest => (actionExtent 0 (depth + 1) rest).after 1
  | 0, 0, '\x7d' :: _ => ⟨1, true⟩
  | 0, depth + 1, '\x7d' :: rest => (actionExtent 0 depth rest).after 1
  | 0, depth, character :: rest =>
      (actionExtent (pieceTail character rest) depth rest).after 1

end GrammarInspector.Token
