import GrammarInspector.Check.Inspect
import GrammarInspector.Command.Arguments
import GrammarInspector.Json.Basic
import GrammarInspector.Message.Report

/-!
Checking files from the command line: what is found in each file, how it is shown, and
whether the check fails.
-/

namespace GrammarInspector

/-- What there is to say about a file: that there is no grammar in it, or a message. -/
inductive Finding where
  | unreadable (path : String) (fault : LoadFault)
  | about (path : String) (message : Message)
deriving DecidableEq, Repr

namespace Finding

def path : Finding → String
  | .unreadable path _ | .about path _ => path

def code : Finding → Option Nat
  | .unreadable .. => none
  | .about _ message => some message.kind.code

def severity : Finding → Severity
  | .unreadable .. => .error
  | .about _ message => message.severity

def text : Finding → String
  | .unreadable _ fault => fault.message
  | .about _ message => message.text

/-- The bytes that a message is about. They do not end before they start. -/
def spanJson (message : Message) : Json :=
  .object
    [("end", .natural (max message.span.stop message.span.start)),
      ("label", .orNull (message.arguments.head?.map .text)),
      ("start", .natural message.span.start)]

def json : Finding → Json
  | .unreadable path fault =>
    .object [("code", .null), ("file", .text path), ("message", .text fault.message),
      ("severity", .text Severity.error.name), ("spans", .list [])]
  | .about path message =>
    .object [("code", .natural message.kind.code),
      ("column", .natural message.position.column),
      ("file", .text path), ("line", .natural message.position.line),
      ("message", .text message.text), ("severity", .text message.severity.name),
      ("spans", .list [spanJson message])]

end Finding

inductive Output where
  /-- A value on a line of its own. -/
  | value (json : Json)
  | text (text : String)
  | display (display : Display)

namespace Output

/-- Whether an output has colors where they are wanted. -/
def isColorful : Output → Bool
  | .display (.report _) => true
  | _ => false

end Output

structure CheckedFile where
  source : String
  findings : List Finding

namespace CheckedFile

def ofPath (files : Files) (library : Option String) (path : String) : CheckedFile :=
  match GrammarFile.load files path with
  | .error fault => ⟨"", [.unreadable path fault]⟩
  | .ok file =>
    ⟨file.grammar.source, (file.inspect files library).messages.map (.about path)⟩

def output (source : String) (json : Bool) (finding : Finding) : Output :=
  if json then .value finding.json
  else
    match finding with
    | .unreadable _ fault => .text ("error: " ++ fault.message ++ "\n")
    | .about _ message => .display (message.display source)

end CheckedFile

structure Summary where
  errors : Nat
  warnings : Nat
  unreadable : Nat
deriving DecidableEq, Repr

namespace Summary

def ofFindings (findings : List Finding) : Summary :=
  let messages := findings.filter (·.code.isSome)
  { errors := messages.countP (·.severity = .error)
    warnings := messages.countP (·.severity = .warning)
    unreadable := findings.countP (·.code.isNone) }

def failed (summary : Summary) : Bool := summary.errors > 0 || summary.unreadable > 0

/-- The last line of a check; there is none if there are no messages. -/
def output (summary : Summary) : List Output :=
  if summary.errors > 0 || summary.warnings > 0 then
    [.text s!"{summary.errors} error(s), {summary.warnings} warning(s)\n"]
  else []

end Summary

namespace CheckRequest

def checked (request : CheckRequest) (files : Files) : List CheckedFile :=
  request.paths.map (CheckedFile.ofPath files request.library)

def findings (request : CheckRequest) (files : Files) : List Finding :=
  (request.checked files).flatMap (·.findings)

def summary (request : CheckRequest) (files : Files) : Summary :=
  .ofFindings (request.findings files)

def output (request : CheckRequest) (files : Files) : List Output :=
  let shown := (request.checked files).flatMap fun file =>
    file.findings.map (CheckedFile.output file.source request.json)
  if request.json then shown else shown ++ (request.summary files).output

def exitCode (request : CheckRequest) (files : Files) : Nat :=
  if (request.summary files).failed then 1 else 0

end CheckRequest

end GrammarInspector
