/-!
Byte ranges of a source.
-/

namespace GrammarInspector

/-- The bytes of a source from `start` up to, but excluding, `stop`. -/
structure Span where
  start : Nat
  stop : Nat
deriving DecidableEq, Repr, Inhabited

namespace Span

/-- The span that covers nothing, at an offset. -/
def emptyAt (offset : Nat) : Span := ⟨offset, offset⟩

def length (span : Span) : Nat := span.stop - span.start

def isEmpty (span : Span) : Bool := span.start == span.stop

def merge (left right : Span) : Span :=
  ⟨min left.start right.start, max left.stop right.stop⟩

end Span

end GrammarInspector
