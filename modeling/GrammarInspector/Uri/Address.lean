import GrammarInspector.Text.Replace
import GrammarInspector.Uri.Percent

/-!
Numeric addresses of hosts. A short address has four bytes, a long one has eight numbers
of two bytes.
-/

namespace GrammarInspector.Uri.Address

/-- The number that digits of a base write. -/
def value? (base : Nat) (digits : List Char) : Option Nat :=
  digits.foldlM (fun value digit =>
    ((Percent.digitValue? digit).filter (· < base)).map (value * base + ·)) 0

/-! ## Short addresses -/

/-- A number of a short address: hexadecimal behind `0x`, octal behind `0`, and
otherwise decimal. -/
def number? : List Char → Option Nat
  | [] => none
  | '0' :: 'x' :: digits => value? 16 digits
  | '0' :: 'X' :: digits => value? 16 digits
  | '0' :: digit :: digits => value? 8 (digit :: digits)
  | digits => value? 10 digits

/-- The labels of a host, without an empty one at the end. -/
def labels (host : List Char) : List (List Char) :=
  let labels := Text.cutAll '.' host
  if 1 < labels.length && labels.getLast? = some [] then labels.dropLast else labels

/-- Whether a host must be a short address, because its last label is a number. -/
def isShort (host : List Char) : Bool :=
  (labels host).getLast?.any fun label =>
    (!label.isEmpty && label.all (·.isDigit)) || (number? label).isSome

/-- The bytes of a number, the highest of four first. -/
def bytes (value : Nat) : List Nat :=
  [24, 16, 8, 0].map fun shift => value / Nat.pow 2 shift % 256

/-- The bytes of a short address. Its last number fills the bytes that are left. -/
def short? (host : List Char) : Option (List Nat) := do
  let numbers ← (labels host).mapM number?
  let last ← numbers.getLast?
  let others := numbers.dropLast
  if 3 < others.length || others.any (255 < ·) || Nat.pow 2 (8 * (4 - others.length)) ≤
      last then none
  else some (others ++ (bytes last).drop others.length)

def shortText (bytes : List Nat) : String := ".".intercalate (bytes.map (·.repr))

example : (short? "0300.0250.01".toList).map shortText = some "192.168.0.1" :=
  by decide +kernel

example : short? "1.2.3.256".toList = none := by decide +kernel

/-! ## Long addresses -/

/-- A byte of a short address at the end of a long one, without a zero in front. -/
def byte? : List Char → Option Nat
  | [] => none
  | ['0'] => some 0
  | '0' :: _ => none
  | digits => (value? 10 digits).filter (· < 256)

/-- A short address as two numbers. -/
def tail? (text : List Char) : Option (List Nat) := do
  match ← (Text.cutAll '.' text).mapM byte? with
  | [a, b, c, d] => some [a * 256 + b, c * 256 + d]
  | _ => none

/-- The number of one to four hexadecimal digits. -/
def group? (text : List Char) : Option Nat :=
  if text.isEmpty || 4 < text.length then none else value? 16 text

/-- The numbers between colons. The last may be a short address if the long
address ends there. -/
def groups? (isEnd : Bool) : List (List Char) → Option (List Nat)
  | [] => some []
  | [text] =>
    if isEnd && text.contains '.' then tail? text
    else (group? text).map fun number => [number]
  | text :: rest => do
    let number ← group? text
    let numbers ← groups? isEnd rest
    some (number :: numbers)

/-- The numbers of a part of an address, which may be empty. -/
def part? (isEnd : Bool) (text : List Char) : Option (List Nat) :=
  if text.isEmpty then some [] else groups? isEnd (Text.cutAll ':' text)

/-- Cuts a text at the first two colons. -/
def cutGap? : List Char → Option (List Char × List Char)
  | ':' :: ':' :: rest => some ([], rest)
  | character :: rest =>
    (cutGap? rest).map fun (before, behind) => (character :: before, behind)
  | [] => none

/-- The eight numbers of a long address. Two colons stand for one or more zeros. -/
def long? (text : List Char) : Option (List Nat) := do
  match cutGap? text with
  | none =>
    let numbers ← part? true text
    if numbers.length = 8 then some numbers else none
  | some (before, behind) =>
    let first ← part? false before
    let last ← part? true behind
    let count := first.length + last.length
    if count < 8 then some (first ++ List.replicate (8 - count) 0 ++ last) else none

def zerosAt (numbers : List Nat) (place : Nat) : Nat :=
  ((numbers.drop place).takeWhile (· = 0)).length

/-- Where the longest row of zeros starts, the first of several, and how long it is. -/
def longestZeros (numbers : List Nat) : Nat × Nat :=
  (List.range numbers.length).foldl (fun best place =>
    if best.2 < zerosAt numbers place then (place, zerosAt numbers place)
    else best) (0, 0)

def hexText (number : Nat) : String := String.ofList (Nat.toDigits 16 number)

/-- A long address as it is written: two colons stand for the longest row of two
or more zeros. -/
def longText (numbers : List Nat) : String :=
  let write (numbers : List Nat) : String := ":".intercalate (numbers.map hexText)
  let (place, count) := longestZeros numbers
  if count < 2 then write numbers
  else write (numbers.take place) ++ "::" ++ write (numbers.drop (place + count))

example : (long? "0:0:1:0:0:1:0:0".toList).map longText = some "::1:0:0:1:0:0" :=
  by decide +kernel

example : (long? "::1.2.3.4".toList).map longText = some "::102:304" := by decide +kernel

example : long? ":1".toList = none := by decide +kernel

end GrammarInspector.Uri.Address
