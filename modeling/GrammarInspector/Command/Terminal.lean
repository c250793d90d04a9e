import GrammarInspector.Command.Check

/-!
What a check writes, as text for a terminal.
-/

namespace GrammarInspector

def bold (text : String) : String := "\x1b[1m" ++ text ++ "\x1b[0m"

/-- A report: its header, and below it where the label is. -/
def Report.write (report : Report) (color : Bool) : String :=
  (if color then bold report.header else report.header) ++ "\n  at " ++
    report.line.repr ++ ":" ++ report.column.repr ++ ": " ++ report.label ++ "\n"

def Output.write (output : Output) (color : Bool) : String :=
  match output with
  | .value json => json.write ++ "\n"
  | .text written => written
  | .display (.line written) => written
  | .display (.report report) => report.write color

end GrammarInspector
