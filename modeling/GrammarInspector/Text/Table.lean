import GrammarInspector.Text.Replace

/-!
Tables about characters, written as texts. A line of a table holds words with blanks
between them. A word starts with the number of code points that are left out behind the
word before it, if there are some. How many code points follow its first one stands behind
a hyphen, `1t-p`; if only some of them are meant, the distance between them follows,
`x-1a/2`. Values come behind a point, with commas between them, `1t-p.2p`. Behind further
points come the values of the next code points. All numbers are written in base 36.
-/

namespace GrammarInspector.Text

/-- The number that digits of base 36 write. -/
def numeral (digits : List Char) : Nat :=
  digits.foldl (fun value digit =>
    value * 36 +
      (if digit.isDigit then digit.toNat - '0'.toNat else digit.toNat - 'a'.toNat + 10)) 0

/-- What a table says of some code points. -/
structure Entry where
  first : Nat
  last : Nat
  /-- The distance between the code points that are meant. -/
  distance : Nat
  values : List Nat
deriving DecidableEq, Repr

namespace Entry

def covers (code : Nat) (entry : Entry) : Bool :=
  entry.first ≤ code && code ≤ entry.last && (code - entry.first) % entry.distance = 0

/-- What the entry gives in the place of a code point. A single value goes along with the
code points of the range. -/
def image (code : Nat) (entry : Entry) : List Nat :=
  match entry.values with
  | [value] => [value + (code - entry.first)]
  | values => values

end Entry

abbrev Table := List Entry

namespace Table

def valuesOf (text : List Char) : List Nat := (cutAll ',' text).map numeral

/-- Reads a word of a table. `next` is the code point behind the word before it. -/
def ofWord (next : Nat) (word : List Char) : Table :=
  let parts := cutAll '.' word
  let places := cutAll '/' (parts.headD [])
  let numbers := (cutAll '-' (places.headD [])).map numeral
  let first := next + numbers.headD 0
  let last := first + (numbers.drop 1).headD 0
  let distance := ((places.drop 1).map numeral).headD 1
  let values := (parts.drop 1).map valuesOf
  ⟨first, last, distance, values.headD []⟩ ::
    (values.drop 1).mapIdx fun index values =>
      ⟨last + 1 + index, last + 1 + index, 1, values⟩

example :
    ofWord 0xdf "x-1a/2.75.2x,lj".toList = [⟨0x100, 0x12e, 2, [0x101]⟩,
      ⟨0x12f, 0x12f, 1, [0x69, 0x307]⟩] := by
  decide +kernel

def ofWords (next : Nat) : List (List Char) → Table
  | [] => []
  | word :: words =>
    let entries := ofWord next word
    entries ++ ofWords ((entries.getLast?.map (·.last + 1)).getD next) words

def ofLines (lines : List String) : Table :=
  ofWords 0 (lines.flatMap fun line => cutAll ' ' line.toList)

def entry? (table : Table) (character : Char) : Option Entry :=
  table.find? (·.covers character.toNat)

def covers (table : Table) (character : Char) : Bool := (table.entry? character).isSome

/-- The value that a table gives for a character. -/
def valueD (table : Table) (character : Char) (default : Nat) : Nat :=
  ((table.entry? character).bind (·.values.head?)).getD default

/-- The characters that a table gives in the place of a character. -/
def image? (table : Table) (character : Char) : Option (List Char) :=
  (table.entry? character).map fun entry => (entry.image character.toNat).map Char.ofNat

end Table

end GrammarInspector.Text
