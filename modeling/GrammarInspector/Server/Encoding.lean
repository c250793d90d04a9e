import GrammarInspector.Editor.Workspace
import GrammarInspector.Json.Basic

/-!
JSON forms of what an editor is told.
-/

namespace GrammarInspector.Editor

def Place.json (place : Place) : Json :=
  .object [("character", .natural place.character), ("line", .natural place.line)]

def Range.json (range : Range) : Json :=
  .object [("end", range.stop.json), ("start", range.start.json)]

def Range.location (uri : Uri) (range : Range) : Json :=
  .object [("range", range.json), ("uri", .text uri.text)]

/-- The number that an editor knows a severity by. -/
def severityNumber : Severity → Nat
  | .error => 1
  | .warning => 2

def Diagnostic.json (diagnostic : Diagnostic) : Json :=
  .object [("code", .natural diagnostic.code), ("message", .text diagnostic.text),
    ("range", diagnostic.range.json),
      ("severity", .natural (severityNumber diagnostic.severity)),
    ("source", .text "antlr4")]

def Publication.json (publication : Publication) : Json :=
  .object [("diagnostics", .list (publication.diagnostics.map (·.json))),
    ("uri", .text publication.uri.text)]

def Answer.json (uri : Uri) : Answer → Json
  | .description text =>
    .object [("contents", .object [("kind", .text "plaintext"), ("value", .text text)])]
  | .ranges found => .list (found.map (·.location uri))

end GrammarInspector.Editor
