import GrammarInspector.Text.Units

/-!
Lines of a source, and the line and column of a byte offset.

Lines are counted from one. Columns are counted from zero in UTF-16 units, the unit of
editors, so that a position shown to a user and a position sent to an editor differ only
in where lines start counting.
-/

namespace GrammarInspector

/-- A place in a source: a line from one and a column from zero in UTF-16 units. -/
structure Position where
  line : Nat
  column : Nat
deriving DecidableEq, Repr, Inhabited

/-- A line of a source: the offset of its first byte and its text without
the line break. -/
structure Line where
  start : Nat
  text : List Char

namespace Text

/-- UTF-16 units of the characters that begin within the first `bytes` bytes. -/
def utf16Before : List Char → (bytes : Nat) → Nat
  | [], _ => 0
  | character :: rest, bytes =>
    if bytes = 0 then 0
    else utf16Size character + utf16Before rest (bytes - character.utf8Size)

end Text

/-- The lines of a source, ready to look offsets up. There is at least one line, and each
line after the first begins just behind a line break. -/
structure LineIndex where
  first : List Char
  rest : List Line
  /-- Number of bytes of the source. -/
  size : Nat

namespace LineIndex

/-- Splits a text behind each line break. The first line is returned apart from the
others, which carry their offsets; `offset` is where the text begins. -/
def split (offset : Nat) : List Char → List Char × List Line
  | [] => ([], [])
  | character :: text =>
    let (first, rest) := split (offset + character.utf8Size) text
    if character = '\n' then ([], ⟨offset + 1, first⟩ :: rest)
    else (character :: first, rest)

def ofText (text : List Char) : LineIndex :=
  let (first, rest) := split 0 text
  ⟨first, rest, Text.utf8Length text⟩

def lineCount (index : LineIndex) : Nat := index.rest.length + 1

/-- The last of `line` and `following` that begins at or before `offset`,
with its number. -/
def lineAt (offset : Nat) (number : Nat) (line : Line) : List Line → Nat × Line
  | [] => (number, line)
  | next :: following =>
    if next.start ≤ offset then lineAt offset (number + 1) next following
    else (number, line)

/-- Line and column of an offset that falls between two characters. An offset beyond the
source counts as its end. -/
def position (index : LineIndex) (offset : Nat) : Position :=
  let offset := min offset index.size
  let (number, line) := lineAt offset 1 ⟨0, index.first⟩ index.rest
  ⟨number, Text.utf16Before line.text (offset - line.start)⟩

end LineIndex

end GrammarInspector
