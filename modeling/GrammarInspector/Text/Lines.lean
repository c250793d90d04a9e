/-!
Texts cut into lines.
-/

namespace GrammarInspector.Text

/-- Cuts a text at every line feed. The pieces do not hold the line feeds, and there is
one piece more than there are line feeds. -/
def pieces : List Char → List (List Char)
  | [] => [[]]
  | character :: text =>
    match pieces text with
    | [] => [[]]
    | piece :: rest =>
      if character = '\n' then [] :: piece :: rest else (character :: piece) :: rest

/-- A text without the carriage return at its end, if it has one. -/
def dropReturn (text : List Char) : List Char :=
  if text.getLast? = some '\r' then text.dropLast else text

/-- Lines of a text from its pieces. A carriage return belongs to the line feed behind it,
and what follows the last line feed is a line only if there is something. -/
def linesOfPieces : List (List Char) → List (List Char)
  | [] => []
  | [last] => if last.isEmpty then [] else [last]
  | piece :: rest => dropReturn piece :: linesOfPieces rest

/-- The lines of a text, ended by a line feed or by a carriage return and a line feed. -/
def lines (text : List Char) : List (List Char) := linesOfPieces (pieces text)

def firstLine (text : String) : String :=
  String.ofList ((lines text.toList).head?.getD [])

example : lines "a\r\nb\rc\n".toList = ["a".toList, "b\rc".toList] := by decide

end GrammarInspector.Text
