import GrammarInspector.Files.Basic
import GrammarInspector.Grammar.Basic
import GrammarInspector.Message.Basic

/-!
Grammar files: grammars with the name and place of the file they come from, and the
messages about them.
-/

namespace GrammarInspector

structure GrammarFile where
  /-- The name of the file without directories, as messages show it. -/
  fileName : String
  /-- The path of the file; nothing if the text did not come from a file. -/
  path : Option String
  grammar : Grammar

inductive LoadFault where
  | unreadable (path : String) (fault : FileFault)
  | invalidPath (path : String)
deriving DecidableEq, Repr

namespace LoadFault

def message : LoadFault → String
  | .unreadable path fault => s!"cannot read grammar file {path}: {fault.message}"
  | .invalidPath path => s!"not a grammar file path: {path}"

end LoadFault

namespace GrammarFile

def ofSource (fileName source : String) : GrammarFile :=
  ⟨fileName, none, .ofSource source⟩

def load (files : Files) (path : String) : Except LoadFault GrammarFile :=
  match Path.fileName? path with
  | none => .error (.invalidPath path)
  | some fileName =>
    match files.read path with
    | .error fault => .error (.unreadable path fault)
    | .ok source => .ok ⟨fileName, some path, .ofSource source⟩

def directory? (file : GrammarFile) : Option String := file.path.bind Path.parent?

/-! ## Messages -/

def messageAt (file : GrammarFile) (kind : MessageKind) (position : Position)
    (span : Span) (arguments : List String) : Message :=
  ⟨kind, file.fileName, ⟨max position.line 1, position.column⟩, span, arguments⟩

def messageAtSpan (file : GrammarFile) (kind : MessageKind) (span : Span)
    (arguments : List String) : Message :=
  file.messageAt kind (file.grammar.lines.position span.start) span arguments

/-- A message about a node. A node without a place counts as the start of the file. -/
def messageAtNode (file : GrammarFile) (kind : MessageKind) (node : Node)
    (arguments : List String) : Message :=
  file.messageAt kind ((file.grammar.position? node).getD ⟨1, 0⟩)
    (node.tree.anchor.getD (.emptyAt 0)) arguments

/-- The messages about syntax errors, with the text at fault and the description. -/
def syntaxMessages (file : GrammarFile) : List Message :=
  file.grammar.errors.map fun error =>
    file.messageAtSpan .syntaxError error.span [error.offending, error.message]

end GrammarFile

end GrammarInspector
