import GrammarInspector.Check.Dependencies
import GrammarInspector.Command.Help
import GrammarInspector.Command.Terminal
import GrammarInspector.Server.Envelope

/-!
The program: reads files, talks to an editor or to a terminal, and leaves everything else
to the library.
-/

namespace GrammarInspector

/-! ## Files -/

/-- Why the system did not give a file. The system opens a directory and then does not
read it; below a file it opens nothing. -/
def faultOf : IO.Error → FileFault
  | .inappropriateType (some _) _ _ => .notDirectory
  | .inappropriateType none _ _ => .isDirectory
  | _ => .notFound

def readEntry (path : String) : IO (Except FileFault FileEntry) := do
  try
    match String.fromUTF8? (← IO.FS.readBinFile path) with
    | some text => return .ok (.text text)
    | none => return .ok .binary
  catch error => return .error (faultOf error)

def viewOf (paths : List String) : IO Files := do
  let entries ← paths.mapM fun path => do return (path, ← readEntry path)
  return ⟨fun path => (entries.lookup path).getD (.error .notFound)⟩

/-- A view of some grammar files and of the files that they depend on. -/
def viewForInspection (library : Option String) (paths : List String) : IO Files := do
  let grammars ← viewOf paths
  let dependencies := paths.flatMap fun path =>
    match GrammarFile.load grammars path with
    | .ok file => file.dependencies library
    | .error _ => []
  viewOf (paths ++ dependencies)

/-! ## Checking -/

def runCheck (request : CheckRequest) : IO UInt32 := do
  let files ← viewForInspection request.library request.paths
  for output in request.output files do
    IO.eprint (output.write request.color)
  return (request.exitCode files).toUInt32

/-! ## Serving -/

/-- The length of the next message; nothing at the end of the input. -/
partial def readLength (input : IO.FS.Stream) (length : Nat) : IO (Option Nat) := do
  let line ← input.getLine
  if line.isEmpty then return none
  else if line = "\r\n" || line = "\n" then return some length
  else readLength input ((Server.contentLength? line).getD length)

partial def readBytes (input : IO.FS.Stream) (read : ByteArray) (length : Nat) :
  IO ByteArray := do
  if read.size < length then
    let bytes ← input.read (length - read.size).toUSize
    if bytes.isEmpty then return read else readBytes input (read ++ bytes) length
  else return read

def send (output : IO.FS.Stream) (messages : List Json) : IO Unit := do
  for message in messages do
    output.putStr (Server.frame message)
  output.flush

/-- Handles what an editor sent and sends what comes of it. -/
def handleMessage (output : IO.FS.Stream) (server : Server) (body : ByteArray) :
    IO Server := do
  let message := (String.fromUTF8? body).bind Json.ofText?
  let paths := (message.bind Server.documentPath?).toList
  let files ← viewForInspection server.workspace.library paths
  let (server, reaction) := server.receive files message
  send output ((reaction.map (·.messages)).getD [])
  return server

partial def serve (input output : IO.FS.Stream) (server : Server) : IO Unit := do
  match ← readLength input 0 with
  | none => return
  | some length =>
    let server ← handleMessage output server (← readBytes input .empty length)
    if server.phase = .exited then return else serve input output server

/-! ## Commands -/

def runCommand : Command → IO UInt32
  | .serve library => do
    serve (← IO.getStdin) (← IO.getStdout) (.start library)
    return 0
  | .check request => runCheck request
  | .help topic => do
    IO.print (Command.helpText topic)
    return 0
  | .version => do
    IO.print Command.versionLine
    return 0

def runArguments (arguments : List String) : IO UInt32 := do
  match Command.ofArguments arguments with
  | .ok command => runCommand command
  | .error fault =>
    IO.eprint (Command.faultText fault)
    return 2

end GrammarInspector

def main (arguments : List String) : IO UInt32 := GrammarInspector.runArguments arguments
