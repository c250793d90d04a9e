import GrammarInspector.Text.Integer

/-!
Numbers with a fraction or an exponent. They are kept with 64 bits and written with the
fewest digits that give the same number again.
-/

namespace GrammarInspector.Decimal

/-! ## Reading -/

/-- Digits written behind a value as long as it fits into 64 bits: the value and how many
digits it took. -/
def fill (value : Nat) (digits : List Char) : Nat × Nat :=
  match digits with
  | [] => (value, 0)
  | digit :: rest =>
    let next := value * 10 + (digit.toNat - '0'.toNat)
    if next < Nat.pow 2 64 then
      let (filled, count) := fill next rest
      (filled, count + 1)
    else (value, 0)

/-- `10 ^ exponent` for exponents up to 308. -/
def power (exponent : Nat) : Float := .ofScientific 1 false exponent

/-- A value times a power of ten, unless that is too large. A power that is too small to
be kept is divided out in steps. -/
def scale? (value : Float) (exponent : Int) : Option Float :=
  if value == 0 then some value
  else if exponent < -308 then scale? (value / power 308) (exponent + 308)
  else if exponent < 0 then some (value / power exponent.natAbs)
  else if exponent ≤ 308 then
    let scaled := value * power exponent.natAbs
    if scaled.isInf then none else some scaled
  else none
termination_by exponent.natAbs

/-- The number with some digits in front of the point, some behind it, and an exponent.
Digits that do not fit into 64 bits are left out. -/
def ofDigits? (negative : Bool) (digits fraction : List Char) (exponent : Int) :
    Option Float :=
  let (front, frontCount) := fill 0 digits
  let (value, count) := fill front fraction
  let left := digits.length - frontCount
  (scale? (.ofNat value) ((left : Int) - count + exponent)).map fun value =>
    if negative then -value else value

/-! ## Writing -/

/-- The mantissa and the exponent of a positive number: it is `mantissa * 2
^ exponent`. -/
def parts (value : Float) : Nat × Int :=
  let bits := value.toBits.toNat
  let fraction := bits % Nat.pow 2 52
  let order : Nat := bits / Nat.pow 2 52
  if order = 0 then (fraction, -1074) else (Nat.pow 2 52 + fraction, (order : Int) - 1075)

/-- `digits * 10 ^ exponent` -/
def ofScientific (digits : Nat) (exponent : Int) : Float :=
  .ofScientific digits (exponent < 0) exponent.natAbs

/-- The two multiples of `10 ^ exponent` around a positive number, the nearer one first.
If both are as near, the even one comes first. -/
def neighbours (value : Float) (exponent : Int) : List Nat :=
  let (mantissa, order) := parts value
  let numerator := mantissa * Nat.pow 2 order.toNat * Nat.pow 10 (-exponent).toNat
  let denominator := Nat.pow 2 (-order).toNat * Nat.pow 10 exponent.toNat
  let low := numerator / denominator
  let twice := 2 * (numerator % denominator)
  if twice < denominator || (twice = denominator && low % 2 = 0) then [low, low + 1]
  else [low + 1, low]

/-- A power of ten that is larger than a positive number, and at most a thousand
times as large. -/
def magnitude (value : Float) : Int :=
  let (mantissa, order) := parts value
  (order + mantissa.log2 + 1) * 30103 / 100000 + 2

/-- The fewest digits that give a positive number, and the power of ten of the last one.
The coarser the power, the fewer the digits, so the coarsest one that gives the number is
taken. Every number has one with at most seventeen digits. -/
def shortest (value : Float) : Nat × Int :=
  let top := magnitude value
  let found := (List.range 21).findSome? fun (step : Nat) =>
    let exponent := top - step
    let digits? := (neighbours value exponent).find? fun digits =>
      digits ≠ 0 && ofScientific digits exponent == value
    digits?.map (·, exponent)
  found.getD (0, 0)

def zeros (count : Nat) : List Char := List.replicate count '0'

/-- Digits with the power of ten of the last one. From `0.00001` and below `10 ^ 16`, the
point stands in its place; other numbers have an exponent. -/
def layout (digits : List Char) (exponent : Int) : List Char :=
  let point := exponent + digits.length
  if 0 ≤ exponent && point ≤ 16 then digits ++ zeros exponent.toNat ++ ['.', '0']
  else if 0 < point && point ≤ 16 then digits.take point.toNat ++
      '.' :: digits.drop point.toNat
  else if -5 < point && point ≤ 0 then '0' :: '.' :: zeros (-point).toNat ++ digits
  else
    let fraction := if digits.length = 1 then [] else '.' :: digits.drop 1
    let sign := if point ≤ 0 then '-' else '+'
    digits.take 1 ++ fraction ++ 'e' :: sign :: (point - 1).natAbs.repr.toList

/-- A number that is neither infinite nor undefined. -/
def write (value : Float) : String :=
  let negative := Nat.pow 2 63 ≤ value.toBits.toNat
  let positive := value.abs
  let (digits, exponent) := if positive == 0 then (0, 0) else shortest positive
  String.ofList ((if negative then ['-'] else []) ++ layout digits.repr.toList exponent)

end GrammarInspector.Decimal
