/-!
Sets of code points, told by how many of them in a row lie outside and inside in turn.
-/

namespace GrammarInspector.Text

/-- How many code points lie outside a set, how many behind them lie inside, and so on.
The code points behind the last of these stretches lie outside. -/
abbrev Stretches := List Nat

/-- Whether a code point lies inside. The search ends at its stretch. -/
def Stretches.contains (code : Nat) : Stretches → Bool
  | outside :: inside :: rest =>
    if code < outside then false
    else if code < outside + inside then true
    else Stretches.contains (code - (outside + inside)) rest
  | _ => false

end GrammarInspector.Text
