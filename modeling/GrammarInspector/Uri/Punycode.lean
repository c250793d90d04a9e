import GrammarInspector.Text.Replace

/-!
Labels of hosts in plain letters. The characters of a label that are not plain are told
behind the plain ones: where each goes and how far it lies beyond the one before it, as
one number. Numbers are written in digits of base 36 with the lowest digit first. A digit
below a threshold ends a number; the thresholds follow a bias, which is adapted to the
numbers that were written.
-/

namespace GrammarInspector.Uri.Punycode

/-- The digit of a value below 36. -/
def digit (value : Nat) : Char :=
  if value < 26 then Char.ofNat ('a'.toNat + value)
  else Char.ofNat ('0'.toNat + (value - 26))

/-- The value of a digit; letters count in either case. -/
def digitValue? (character : Char) : Option Nat :=
  if 'a' ≤ character && character ≤ 'z' then some (character.toNat - 'a'.toNat)
  else if 'A' ≤ character && character ≤ 'Z' then some (character.toNat - 'A'.toNat)
  else if '0' ≤ character && character ≤ '9' then some (character.toNat - '0'.toNat + 26)
  else none

example : (List.range 36).map (digitValue? ∘ digit) = (List.range 36).map some :=
  by decide

/-- The threshold of the digit at a place; places count in steps of 36. -/
def threshold (bias place : Nat) : Nat := max 1 (min 26 (place - bias))

theorem one_le_threshold (bias place : Nat) : 1 ≤ threshold bias place :=
  Nat.le_max_left ..

theorem threshold_le (bias place : Nat) : threshold bias place ≤ 26 := by
  unfold threshold
  omega

/-- How many places a number of this size fills, and what is left of it. -/
def scale (places number : Nat) : Nat :=
  if 455 < number then scale (places + 36) (number / 35)
  else places + 36 * number / (number + 38)
termination_by number
decreasing_by omega

/-- The bias behind a number. `count` characters have been told with it, and `isFirst`
holds for the first number of a label. -/
def adapt (number count : Nat) (isFirst : Bool) : Nat :=
  let number := if isFirst then number / 700 else number / 2
  scale 0 (number + number / count)

def isPlain (character : Char) : Bool := character.toNat < 128

/-! ## Writing -/

def digits (bias place number : Nat) : List Char :=
  let limit := threshold bias place
  if number < limit then [digit number]
  else
    digit (limit + (number - limit) % (36 - limit)) ::
      digits bias (place + 36) ((number - limit) / (36 - limit))
termination_by number
decreasing_by
  have := one_le_threshold bias place
  have := Nat.div_le_self (number - threshold bias place) (36 - threshold bias place)
  omega

/-- How far the writing of a label has come. -/
structure Progress where
  written : List Char
  /-- The number that is being counted. -/
  number : Nat
  bias : Nat
  /-- How many characters of the label have been told. -/
  told : Nat

/-- Goes past one character of the label while the places of `code` are told. A character
that is told already adds to the number, and one to be told now ends it. -/
def tell (plain code : Nat) (progress : Progress) (character : Char) : Progress :=
  if character.toNat < code then { progress with number := progress.number + 1 }
  else if character.toNat = code then
    { written := progress.written ++ digits progress.bias 36 progress.number
      number := 0
      bias := adapt progress.number (progress.told + 1) (progress.told = plain)
      told := progress.told + 1 }
  else progress

/-- Tells code points in increasing order. All below `next` have been told. -/
def tellAll (label : List Char) (plain : Nat) (next : Nat) (progress : Progress) :
    List Nat → List Char
  | [] => progress.written
  | code :: rest =>
    let number := progress.number + (code - next) * (progress.told + 1)
    let progress := label.foldl (tell plain code) { progress with number }
    tellAll label plain (code + 1) { progress with number := progress.number + 1 } rest

/-- A label in plain letters. -/
def encode (label : List Char) : List Char :=
  let plain := label.filter isPlain
  let codes := ((label.filter (!isPlain ·)).map Char.toNat).mergeSort.eraseDups
  let start := if plain.isEmpty then [] else plain ++ ['-']
  start ++ tellAll label plain.length 128 ⟨[], 0, 72, plain.length⟩ codes

/-! ## Reading -/

/-- A number from a place on, where a digit counts `weight` times, and what follows it. -/
def number? (bias place weight : Nat) : List Char → Option (Nat × List Char)
  | [] => none
  | character :: rest =>
    match digitValue? character with
    | none => none
    | some value =>
      let limit := threshold bias place
      if value < limit then some (value * weight, rest)
      else
        (number? bias (place + 36) (weight * (36 - limit)) rest).map fun (number, rest) =>
          (value * weight + number, rest)

theorem length_lt_of_number? {bias place weight number : Nat} {text rest : List Char}
    (read : number? bias place weight text = some (number, rest)) :
    rest.length < text.length := by
  induction text generalizing place weight number with
  | nil => simp [number?] at read
  | cons character text step =>
    simp only [number?] at read
    split at read
    · simp at read
    · split at read
      · simp only [Option.some.injEq, Prod.mk.injEq] at read
        simp [← read.2]
      · rw [Option.map_eq_some_iff] at read
        obtain ⟨⟨inner, left⟩, inside, same⟩ := read
        simp only [Prod.mk.injEq] at same
        obtain ⟨-, rfl⟩ := same
        exact Nat.lt_succ_of_lt (step inside)

/-- Puts characters into a label as they are told. `code` is the last one told, and the
next one goes to `place` at the earliest. -/
def insertAll (bias code place : Nat) (label text : List Char) : Option (List Char) :=
  if text.isEmpty then some label
  else
    match read : number? bias 36 1 text with
    | none => none
    | some (number, rest) =>
      have := length_lt_of_number? read
      let count := label.length + 1
      let next := code + (place + number) / count
      let there := (place + number) % count
      if next.isValidChar then
        insertAll (adapt number count (place = 0)) next (there + 1)
          (label.insertIdx there (Char.ofNat next)) rest
      else none
termination_by text.length

/-- The label that plain letters stand for. -/
def decode? (text : List Char) : Option (List Char) :=
  match Text.cutLast? '-' text with
  | some (plain, rest) => insertAll 72 128 0 plain rest
  | none => insertAll 72 128 0 [] text

end GrammarInspector.Uri.Punycode
