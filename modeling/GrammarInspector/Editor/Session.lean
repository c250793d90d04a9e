import GrammarInspector.Editor.Workspace

/-!
Sessions: what happens to files and documents one after another, and what an editor sees
of it.
-/

namespace GrammarInspector.Editor

inductive Step where
  | write (route : Route) (entry : FileEntry)
  | remove (route : Route)
  | connect
  | opened (uri : Uri)
  | saved (uri : Uri)
  | changed (uri : Uri)
  | shutdown
  /-- Asks whether a grammar is kept for a document. -/
  | isKept (uri : Uri)
  | ask (uri : Uri) (query : Query) (place : Place)

inductive Reply where
  | nothing
  /-- Whether the session was not connected before. -/
  | connected (first : Bool)
  | isKept (kept : Bool)
  | answer (uri : Uri) (answer : Answer)
deriving DecidableEq, Repr

structure Outcome where
  reply : Reply
  published : List Publication
deriving DecidableEq, Repr

/-- Files and the documents that an editor works with. -/
structure Session where
  store : FileStore
  /-- The directory where relative paths start. -/
  current : Route
  workspace : Workspace

namespace Session

def files (session : Session) : Files := session.store.files session.current

/-- Inspects a document that was opened or saved. -/
def inspect (session : Session) (uri : Uri) : Session × Outcome :=
  let (workspace, published) := session.workspace.inspect session.files uri
  ({ session with workspace }, ⟨.nothing, published⟩)

/-- One step. Changes in the editor do nothing: a document is inspected again when
it is saved. -/
def step (session : Session) : Step → Session × Outcome
  | .write route entry =>
    ({ session with store := session.store.write route entry }, ⟨.nothing, []⟩)
  | .remove route => ({ session with store := session.store.remove route },
      ⟨.nothing, []⟩)
  | .connect =>
    ({ session with workspace := session.workspace.connect },
      ⟨.connected !session.workspace.connected, []⟩)
  | .opened uri => session.inspect uri
  | .saved uri => session.inspect uri
  | .changed _ => (session, ⟨.nothing, []⟩)
  | .shutdown => ({ session with workspace := session.workspace.clear }, ⟨.nothing, []⟩)
  | .isKept uri => (session, ⟨.isKept (session.workspace.grammar? uri).isSome, []⟩)
  | .ask uri query place =>
    let (workspace, answer) := session.workspace.ask session.files uri query place
    ({ session with workspace }, ⟨.answer uri answer, []⟩)

def after (session : Session) (steps : List Step) : Session :=
  steps.foldl (fun session step => (session.step step).1) session

def run (session : Session) : List Step → List Outcome
  | [] => []
  | step :: rest => (session.step step).2 :: run (session.step step).1 rest

end Session

end GrammarInspector.Editor
