import GrammarInspector.Json.Reading
import GrammarInspector.Server.Basic
import GrammarInspector.Text.Blank
import GrammarInspector.Text.Units

/-!
Messages between an editor and a server: JSON objects, each behind a header that gives its
length in bytes.
-/

namespace GrammarInspector.Server

namespace RequestId

def json : RequestId → Json
  | .number value => .integer value
  | .text value => .text value
  | .null => .null

/-- A number is an id only if it fits into 64 bits. -/
def ofJson? : Json → Option RequestId
  | .integer value =>
      if -Int.pow 2 63 ≤ value && value < Int.pow 2 63 then some (.number value) else none
  | .text value => some (.text value)
  | .null => some .null
  | _ => none

end RequestId

/-- The version of the protocol, a field of every message. -/
def protocol : String × Json := ("jsonrpc", .text "2.0")

/-! ## Messages of an editor -/

/-- The method that a message calls. One that names none calls the method
without a name. -/
def method? (message : Json) : Option String :=
  match message.field? "method" with
  | none => some ""
  | some (.text name) => some name
  | some _ => none

def id? (message : Json) : Option (Option RequestId) :=
  match message.field? "id" with
  | none => some none
  | some id => (RequestId.ofJson? id).map some

def Call.ofJson? (message : Json) : Option Call := do
  some ⟨← method? message, ← id? message, message.field? "params"⟩

/-- Whether a value tells why a request has no result. -/
def isFault (value : Json) : Bool :=
  match value.field? "code", value.field? "message" with
  | some code, some (.text _) => Shape.isWithin (-Int.pow 2 63) (Int.pow 2 63) code
  | _, _ => false

/-- Whether a message responds to a request. -/
def isReply (message : Json) : Bool :=
  ((message.field? "id").bind RequestId.ofJson?).isSome &&
    ((message.field? "result").isSome ||
      ((message.field? "error").map isFault).getD false)

def isVersioned (message : Json) : Bool :=
  match message.field? protocol.1 with
  | some (.text version) => version = "2.0"
  | _ => false

inductive Incoming where
  | call (call : Call)
  /-- A response. Servers ask nothing, so it belongs to no request. -/
  | reply

def Incoming.ofJson? (message : Json) : Option Incoming :=
  if !isVersioned message then none
  else if isReply message then some .reply
  else (Call.ofJson? message).map .call

/-- What a server does about what an editor sent, which is a message if it is JSON.
Nothing is read behind something that is no message. -/
def receive (server : Server) (files : Files) (sent : Option Json) :
    Server × Option Reaction :=
  if server.phase = .exited then (server, none)
  else
    let refuse (fault : Fault) : Server × Option Reaction :=
      ({ server with phase := .exited }, some (.refuse (some .null) fault))
    match sent with
    | none => refuse .unreadable
    | some message =>
      match Incoming.ofJson? message with
      | none => refuse .invalidRequest
      | some .reply => (server, some .silent)
      | some (.call call) => server.handle files call

/-- The file of the document that a message is about. -/
def documentPath? (message : Json) : Option String := do
  let call ← Call.ofJson? message
  let uri ← (Params.documentOf call.params (← Method.ofName? call.method)).toOption
  uri.filePath?

/-! ## Messages to an editor -/

def Response.json (response : Response) : Json :=
  let result := match response.result with
    | .ok value => ("result", value)
    | .error fault => ("error", fault.json)
  .object [protocol, ("id", response.id.json), result]

def Notification.json (notification : Notification) : Json :=
  .object [protocol, ("method", .text notification.method),
    ("params", notification.params)]

/-- All messages of a reaction: a response comes behind what was sent on the way to it. -/
def Reaction.messages (reaction : Reaction) : List Json :=
  reaction.notifications.map (·.json) ++ reaction.response.toList.map (·.json)

/-! ## Headers -/

def frame (message : Json) : String :=
  let body := message.write
  "Content-Length: " ++ (Text.utf8Length body.toList).repr ++ "\r\n\r\n" ++ body

/-- The length that a line of a header gives. -/
def contentLength? (line : String) : Option Nat :=
  let characters := line.toList
  if characters.takeWhile (· ≠ ':') = "Content-Length".toList then
    Text.natural? (Text.trim ((characters.dropWhile (· ≠ ':')).drop 1))
  else none

example : contentLength? "Content-Length: 12\r\n" = some 12 := by decide +kernel

end GrammarInspector.Server
