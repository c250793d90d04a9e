import GrammarInspector.Grammar.Basic

/-!
Places and ranges in the coordinates of an editor, which counts both lines and characters
from zero.
-/

namespace GrammarInspector.Editor

structure Place where
  line : Nat
  character : Nat
deriving DecidableEq, Repr

namespace Place

def ofPosition (position : Position) : Place := ⟨position.line - 1, position.column⟩

def toPosition (place : Place) : Position := ⟨place.line + 1, place.character⟩

end Place

structure Range where
  start : Place
  stop : Place
deriving DecidableEq, Repr

namespace Range

/-- The range on one line that starts at a position and has a length in UTF-16 units. -/
def ofLength (position : Position) (length : Nat) : Range :=
  let start := Place.ofPosition position
  ⟨start, ⟨start.line, start.character + length⟩⟩

end Range

end Editor

namespace Grammar

/-- A range of a given length where a node begins. A node without a place counts as the
start of the document. -/
def rangeWithLength (grammar : Grammar) (node : Node) (length : Nat) : Editor.Range :=
  .ofLength ⟨grammar.line node, grammar.column node⟩ length

def rangeOf (grammar : Grammar) (node : Node) : Editor.Range :=
  grammar.rangeWithLength node (Text.utf16Length node.text.toList)

end Grammar

end GrammarInspector
