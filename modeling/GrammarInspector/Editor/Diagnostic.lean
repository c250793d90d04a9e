import GrammarInspector.Editor.Range
import GrammarInspector.Message.Basic

/-!
Messages as diagnostics of an editor.
-/

namespace GrammarInspector.Editor

/-- A message in the coordinates of an editor. -/
structure Diagnostic where
  range : Range
  severity : Severity
  code : Nat
  text : String
deriving DecidableEq, Repr

namespace Diagnostic

/-- The range of a message: as long as its first argument, the text that it points at. -/
def rangeOf (message : Message) : Range :=
  .ofLength message.position (Text.utf16Length (message.argument 0))

def ofMessage (message : Message) : Diagnostic :=
  ⟨rangeOf message, message.severity, message.kind.code, message.text⟩

end Diagnostic

end GrammarInspector.Editor
