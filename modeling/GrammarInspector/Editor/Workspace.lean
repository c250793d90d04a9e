import GrammarInspector.Check.Inspect
import GrammarInspector.Editor.Diagnostic
import GrammarInspector.Editor.Resolve
import GrammarInspector.Uri.Basic

/-!
The documents of an editor. A workspace keeps the grammar of a document from one
inspection to the next, so that questions about it are answered without reading the file
again.
-/

namespace GrammarInspector

namespace Editor

inductive Query where
  | hover
  | definition
  | references (withDeclaration : Bool)
deriving DecidableEq, Repr

inductive Answer where
  | description (text : String)
  | ranges (ranges : List Range)
deriving DecidableEq, Repr

namespace Query

/-- The answer if nothing is known about a document. -/
def emptyAnswer : Query → Answer
  | .hover => .description ""
  | .definition | .references _ => .ranges []

end Query

end Editor

namespace Grammar

def answer (grammar : Grammar) (place : Editor.Place) : Editor.Query → Editor.Answer
  | .hover => .description (grammar.hover place)
  | .definition => .ranges (grammar.definition place)
  | .references withDeclaration => .ranges (grammar.references place withDeclaration)

end Grammar

namespace Uri

def load? (uri : Uri) (files : Files) : Option GrammarFile :=
  uri.filePath?.bind fun path => (GrammarFile.load files path).toOption

end Uri

namespace Editor

/-- The diagnostics of a document, sent to the editor. -/
structure Publication where
  uri : Uri
  diagnostics : List Diagnostic
deriving DecidableEq, Repr

structure Workspace where
  /-- A directory to search for files that grammars name. -/
  library : Option String
  /-- Whether there is an editor to send diagnostics to. -/
  connected : Bool
  /-- The grammars of documents by the normal texts of their URIs. -/
  grammars : List (String × Grammar)

namespace Workspace

def start (library : Option String) : Workspace := ⟨library, false, []⟩

def connect (workspace : Workspace) : Workspace := { workspace with connected := true }

def grammar? (workspace : Workspace) (uri : Uri) : Option Grammar :=
  (workspace.grammars.find? (·.1 = uri.text)).map (·.2)

def forget (workspace : Workspace) (uri : Uri) : Workspace :=
  { workspace with grammars := workspace.grammars.filter (·.1 ≠ uri.text) }

/-- Keeps a grammar for a document in the place of the one that was kept before. -/
def keep (workspace : Workspace) (uri : Uri) (grammar : Grammar) : Workspace :=
  let workspace := workspace.forget uri
  { workspace with grammars := (uri.text, grammar) :: workspace.grammars }

def clear (workspace : Workspace) : Workspace := { workspace with grammars := [] }

/-- Reads the grammar of a document and keeps it. If there is none, the document
is forgotten. -/
def refresh (workspace : Workspace) (files : Files) (uri : Uri) : Workspace :=
  match uri.load? files with
  | some file => workspace.keep uri file.grammar
  | none => workspace.forget uri

/-- The diagnostics of a document. A document that cannot be read has none. -/
def diagnostics (workspace : Workspace) (files : Files) (uri : Uri) : List Diagnostic :=
  match uri.load? files with
  | some file => (file.inspect files workspace.library).messages.map .ofMessage
  | none => []

/-- Inspects a document that was opened or saved. Without an editor nothing happens. -/
def inspect (workspace : Workspace) (files : Files) (uri : Uri) :
    Workspace × List Publication :=
  if workspace.connected then
    (workspace.refresh files uri, [⟨uri, workspace.diagnostics files uri⟩])
  else (workspace, [])

/-- Answers a question. The document is read only if no grammar is kept for it. -/
def ask (workspace : Workspace) (files : Files) (uri : Uri) (query : Query)
    (place : Place) : Workspace × Answer :=
  match workspace.grammar? uri with
  | some grammar => (workspace, grammar.answer place query)
  | none =>
    let workspace := workspace.refresh files uri
    match workspace.grammar? uri with
    | some grammar => (workspace, grammar.answer place query)
    | none => (workspace, query.emptyAnswer)

@[simp] theorem grammar?_forget (workspace : Workspace) (uri : Uri) :
    (workspace.forget uri).grammar? uri = none := by
  simp [grammar?, forget]

@[simp] theorem grammar?_keep (workspace : Workspace) (uri : Uri) (grammar : Grammar) :
    (workspace.keep uri grammar).grammar? uri = some grammar := by
  simp [grammar?, keep]

/-- Documents with another normal text are not touched. -/
theorem grammar?_forget_of_ne (workspace : Workspace) {uri other : Uri}
    (different : other.text ≠ uri.text) :
    (workspace.forget uri).grammar? other = workspace.grammar? other := by
  simp only [grammar?, forget, List.find?_filter]
  congr 2
  funext entry
  by_cases same : entry.1 = other.text <;> simp_all

/-- Documents with another normal text are not touched. -/
theorem grammar?_keep_of_ne (workspace : Workspace) {uri other : Uri} (grammar : Grammar)
    (different : other.text ≠ uri.text) :
    (workspace.keep uri grammar).grammar? other = workspace.grammar? other := by
  rw [← grammar?_forget_of_ne workspace different]
  simp [grammar?, keep, Ne.symm different]

end Workspace

end Editor

end GrammarInspector
