/-!
Decimal numbers in texts.
-/

namespace GrammarInspector.Text

/-- The number that decimal digits write, with `value` written in front of them. -/
def digitsFrom (value : Nat) : List Char → Option Nat
  | [] => some value
  | digit :: rest =>
    if digit.isDigit then digitsFrom (value * 10 + (digit.toNat - '0'.toNat)) rest
    else none

/-- The number that one or more decimal digits write. -/
def natural? : List Char → Option Nat
  | [] => none
  | digits => digitsFrom 0 digits

/-- The number that decimal digits with at most one sign write, if it fits
into 32 bits. -/
def integer32? (text : List Char) : Option Int :=
  let value? := match text with
    | '+' :: digits => (natural? digits).map Int.ofNat
    | '-' :: digits => (natural? digits).map fun value => -Int.ofNat value
    | digits => (natural? digits).map Int.ofNat
  value?.filter fun value => -Int.pow 2 31 ≤ value && value < Int.pow 2 31

example : integer32? "-2147483648".toList = some (-2147483648) := by decide

example : integer32? "2147483648".toList = none := by decide

end GrammarInspector.Text
