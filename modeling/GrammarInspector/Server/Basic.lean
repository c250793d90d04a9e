import GrammarInspector.Server.Encoding
import GrammarInspector.Server.Method
import GrammarInspector.Server.Params

/-!
A server for editors. An editor calls methods, some of which it waits for; the server
answers from a workspace and sends the diagnostics of documents.
-/

namespace GrammarInspector

namespace Server

/-- How an editor knows a request again. -/
inductive RequestId where
  | number (value : Int)
  | text (value : String)
  | null
deriving DecidableEq, Repr

/-- A call that an editor makes. It waits for a response if the call has an id. -/
structure Call where
  method : String
  id : Option RequestId
  params : Option Json

inductive Fault where
  | unreadable
  | notInitialized
  | invalidRequest
  | unknownMethod (name : String)
  /-- Editors know the method, but this server does not offer it. -/
  | unanswered
  | invalidParams (fault : ParamFault)

namespace Fault

def code : Fault → Int
  | .unreadable => -32700
  | .notInitialized => -32002
  | .invalidRequest => -32600
  | .unknownMethod _ | .unanswered => -32601
  | .invalidParams _ => -32602

def message : Fault → String
  | .unreadable => "Parse error"
  | .notInitialized => "Server not initialized"
  | .invalidRequest => "Invalid request"
  | .unknownMethod _ | .unanswered => "Method not found"
  | .invalidParams fault => fault.message

def json (fault : Fault) : Json :=
  let data := match fault with
    | .unknownMethod name => [("data", .text name)]
    | _ => []
  .object ([("code", .integer fault.code)] ++ data ++ [("message", .text fault.message)])

end Fault

structure Response where
  id : RequestId
  result : Except Fault Json

/-- Something that a server tells an editor without being asked. -/
structure Notification where
  method : String
  params : Json

namespace Notification

def ofPublication (publication : Editor.Publication) : Notification :=
  ⟨"textDocument/publishDiagnostics", publication.json⟩

def log (message : String) : Notification :=
  ⟨"window/logMessage", .object [("message", .text message), ("type", .natural 3)]⟩

end Notification

/-- What a server does about a call. -/
structure Reaction where
  response : Option Response
  notifications : List Notification

namespace Reaction

def silent : Reaction := ⟨none, []⟩

def respond (id : RequestId) (result : Except Fault Json) : Reaction :=
  ⟨some ⟨id, result⟩, []⟩

/-- Refuses a call, if the editor waits for a response. -/
def refuse (id : Option RequestId) (fault : Fault) : Reaction :=
  ⟨id.map (⟨·, .error fault⟩), []⟩

end Reaction

def name : String := "antlr4ls"

def version : String := "0.1.0"

/-- What a server can do. Editors send it documents when they are opened and saved, not
their changes. -/
def capabilities : Json :=
  .object
    [("capabilities", .object
      [("definitionProvider", .bool true), ("hoverProvider", .bool true),
        ("referencesProvider", .bool true),
        ("textDocumentSync", .object
          [("change", .natural 0), ("openClose", .bool true), ("save", .bool true)])]),
      ("serverInfo", .object [("name", .text name), ("version", .text version)])]

/-- How far the work with an editor has come. -/
inductive Phase where
  | waiting
  | running
  | shutDown
  | exited
deriving DecidableEq, Repr

end Server

structure Server where
  phase : Server.Phase
  workspace : Editor.Workspace

namespace Server

/-- A server that no editor has called yet. -/
def start (library : Option String) : Server :=
  ⟨.waiting, (Editor.Workspace.start library).connect⟩

/-- Inspects the document that was opened or saved, if it is known which. -/
def inspect (server : Server) (files : Files) (uri : Reading Uri) : Server × Reaction :=
  match uri with
  | .error _ => (server, .silent)
  | .ok uri =>
    let (workspace, published) := server.workspace.inspect files uri
    ({ server with workspace }, ⟨none, published.map .ofPublication⟩)

/-- Answers a question about a place in a document. -/
def answer (server : Server) (files : Files) (question : Question)
    (params : Option Json) : Reading (Server × Json) := do
  let (uri, query, place) ← Params.asked question params
  let (workspace, answer) := server.workspace.ask files uri query place
  .ok ({ server with workspace }, answer.json uri)

/-- Responds to a request with a result, or refuses it if its parameters do not fit. -/
def respond (server : Server) (id : RequestId)
    (result : Reading (Server × Except Fault Json)) : Server × Reaction :=
  match result with
  | .ok (server, result) => (server, .respond id result)
  | .error fault => (server, .respond id (.error (.invalidParams fault)))

/-- A request of a running server. News are no request. -/
def request (server : Server) (files : Files) (id : RequestId) (params : Option Json) :
    Method → Server × Reaction
  | .question question => server.respond id do
    let (server, answer) ← server.answer files question params
    .ok (server, .ok answer)
  | .unanswered shape => server.respond id do
    discard (Params.shaped shape params)
    .ok (server, .error .unanswered)
  | .shutdown =>
    let server := { server with phase := .shutDown }
    server.respond id do
      Params.none params
      .ok ({ server with workspace := server.workspace.clear }, .ok .null)
  | _ => (server, .respond id (.error .invalidRequest))

/-- A call of a running server that the editor does not wait for. -/
def notice (server : Server) (files : Files) (params : Option Json) : Method →
      Server × Reaction
  | .ready =>
    match Params.shaped Forms.readyNews params with
    | .ok _ => (server, ⟨none, [.log "ANTLR4 language server initialized"]⟩)
    | .error _ => (server, .silent)
  | .opened => server.inspect files (Params.openedDocument params)
  | .saved => server.inspect files (Params.savedDocument params)
  | .shutdown => ({ server with phase := .shutDown }, .silent)
  | _ => (server, .silent)

/-- The first call of an editor. A server runs after it has responded with its
capabilities. -/
def handshake (server : Server) (id : Option RequestId) (params : Option Json) :
    Server × Reaction :=
  match id with
  | none => (server, .silent)
  | some id => server.respond id do
    discard (Params.shaped Forms.editor params)
    .ok ({ server with phase := .running }, .ok capabilities)

/-- A call of a method that is known. -/
def call (server : Server) (files : Files) (id : Option RequestId) (params : Option Json)
    (method : Method) : Server × Reaction :=
  match method, server.phase with
  | .exit, _ => ({ server with phase := .exited }, .silent)
  | .cancel, _ => (server, .refuse id .invalidRequest)
  | .handshake, .waiting => server.handshake id params
  | .handshake, _ => (server, .refuse id .invalidRequest)
  | method, .running =>
    match id with
    | some id => server.request files id params method
    | none => server.notice files params method
  | _, .waiting => (server, .refuse id .notInitialized)
  | _, _ => (server, .refuse id .invalidRequest)

/-- Methods that an editor may call without knowing whether a server has them. -/
def isPrivate (method : String) : Bool := "$/".toList.isPrefixOf method.toList

/-- What a server does about a call. Nothing comes back once it has exited. -/
def handle (server : Server) (files : Files) (call : Call) : Server × Option Reaction :=
  if server.phase = .exited then (server, none)
  else
    match Method.ofName? call.method with
    | some method =>
      let (server, reaction) := server.call files call.id call.params method
      (server, some reaction)
    | none =>
      if isPrivate call.method then (server, some .silent)
      else (server, some (.refuse call.id (.unknownMethod call.method)))

end Server

end GrammarInspector
