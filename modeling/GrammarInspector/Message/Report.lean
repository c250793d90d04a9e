import GrammarInspector.Message.Basic

/-!
Reports: messages with the piece of source text that they are about, as a terminal shows
them.
-/

namespace GrammarInspector

/-! ## The range of a label -/

namespace Text

/-- The bytes of the character that holds the byte `offset`, or of the last character if
the text ends before. The text begins at `start`. -/
def characterAt (offset start : Nat) : List Char → Span
  | [] => .emptyAt start
  | [last] => ⟨start, start + last.utf8Size⟩
  | character :: rest =>
    if offset < start + character.utf8Size then ⟨start, start + character.utf8Size⟩
    else characterAt offset (start + character.utf8Size) rest

/-- The first place between two characters that is not in front of `offset`, or the end of
the text. The text begins at `start`. -/
def boundaryFrom (offset start : Nat) : List Char → Nat
  | [] => start
  | character :: rest =>
    if offset ≤ start then start
    else boundaryFrom offset (start + character.utf8Size) rest

/-- The range that a label for some bytes covers: whole characters of the source, and
at least one. -/
def labelRange (source : List Char) (span : Span) : Span :=
  let first := characterAt span.start 0 source
  ⟨first.start, boundaryFrom (max span.stop first.stop) 0 source⟩

/-- The characters of a range that lies between characters. The text begins at `start`. -/
def slice (span : Span) (start : Nat) : List Char → List Char
  | [] => []
  | character :: rest =>
    if span.stop ≤ start then []
    else if start < span.start then slice span (start + character.utf8Size) rest
    else character :: slice span (start + character.utf8Size) rest

/-! ## Lines of a terminal -/

/-- Characters that end a line of a report. -/
def endsReportLine (character : Char) : Bool :=
  character = '\n' || character = '\r' || character = '\x0b' || character = '\x0c' ||
    character = '\u0085' || character = '\u2028' || character = '\u2029'

/-- Line and column of the place `bytes` bytes further, both from one and columns in
characters. What ends a line belongs to it, and a carriage return with a line feed behind
it ends one line only. -/
def reportPlace (line column : Nat) : (bytes : Nat) → List Char → Nat × Nat
  | 0, _ => (line, column)
  | _, [] => (line, column)
  | bytes + 1, character :: rest =>
    let left := bytes + 1 - character.utf8Size
    if endsReportLine character && !(character = '\r' && rest.head? = some '\n') then
      reportPlace (line + 1) 1 left rest
    else reportPlace line (column + 1) left rest

/-- Whether a character takes one column and stands as it is in a report. -/
def isPlain (character : Char) : Bool :=
  character = '\n' || (' ' ≤ character && character ≤ '~')

end Text

/-- A message with the piece of source text that it is about. -/
structure Report where
  header : String
  line : Nat
  column : Nat
  /-- The number of characters under the label, if the label and its line are plain
  text. -/
  width : Option Nat
  label : String
deriving DecidableEq, Repr

namespace Report

def severityTitle : Severity → String
  | .error => "Error"
  | .warning => "Warning"

/-- A number with at least two digits. -/
def paddedCode (code : Nat) : String := if code < 10 then "0" ++ code.repr else code.repr

def labelText (message : Message) : String :=
  match message.arguments with
  | [] => "here"
  | first :: _ => if first.isEmpty then "here" else "`" ++ first ++ "`"

/-- The number of characters in a range of plain text on one line. -/
def width? (source : List Char) (range : Span) : Option Nat :=
  let text := Text.slice range 0 source
  if source.all Text.isPlain && !text.dropLast.contains '\n' then some text.length
  else none

/-- The report of a message about a source that is not empty. -/
def ofMessage (source : List Char) (message : Message) : Report :=
  let range := Text.labelRange source message.span
  let (line, column) := Text.reportPlace 1 1 range.start source
  { header :=
      "[" ++ paddedCode message.kind.code ++ "] " ++
        severityTitle message.severity ++ ": " ++
        message.text
    line
    column
    width := width? source range
    label := labelText message }

end Report

/-- What a terminal shows for a message. -/
inductive Display where
  | report (report : Report)
  /-- The message on one line. There is no source text to show, and the line is left
  open. -/
  | line (text : String)

namespace Message

def display (message : Message) (source : String) : Display :=
  if source.isEmpty then .line message.line
  else .report (.ofMessage source.toList message)

end Message

end GrammarInspector
