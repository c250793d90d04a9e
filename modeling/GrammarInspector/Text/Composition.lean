import GrammarInspector.Text.CombiningClass
import GrammarInspector.Text.Decomposition

/-!
The composed form of texts. The same letter with marks can be written in several ways: as
one character, or as a letter with its marks behind it, which may come in any order if
they stand at different places. In composed form all these are one text.
-/

namespace GrammarInspector.Text

/-! ## Syllables

The syllables of Hangul are numbered by their parts: 19 leading consonants, 21 vowels, and
28 trailing consonants, the first of which is none. -/

def syllableParts? (character : Char) : Option (List Char) :=
  let code := character.toNat
  if 0xAC00 ≤ code && code ≤ 0xD7A3 then
    let index := code - 0xAC00
    let start :=
      [Char.ofNat (0x1100 + index / 588), Char.ofNat (0x1161 + index % 588 / 28)]
    some (if index % 28 = 0 then start else start ++ [Char.ofNat (0x11A7 + index % 28)])
  else none

/-- The syllable that a leading consonant and a vowel make, or a syllable without a
trailing consonant and such a consonant. -/
def syllable? (first second : Char) : Option Char :=
  let first := first.toNat
  let second := second.toNat
  if 0x1100 ≤ first && first < 0x1113 && 0x1161 ≤ second && second < 0x1176 then
    some (Char.ofNat (0xAC00 + ((first - 0x1100) * 21 + (second - 0x1161)) * 28))
  else if 0xAC00 ≤ first && first ≤ 0xD7A3 && (first - 0xAC00) % 28 = 0 &&
      0x11A7 < second && second < 0x11C3 then
    some (Char.ofNat (first + (second - 0x11A7)))
  else none

/-! ## Taking apart -/

def Entry.characters (entry : Entry) : List Char := entry.values.map Char.ofNat

/-- The characters that a character is made of; they may be made of others in turn. -/
def decomposeOnce (character : Char) : List Char :=
  match syllableParts? character, compositions.entry? character with
  | some parts, _ => parts
  | none, some entry => entry.characters
  | none, none => (replacements.image? character).getD [character]

/-- A text with every character taken apart. Characters are made of others at
most four deep. -/
def decompose (text : List Char) : List Char :=
  (((text.flatMap decomposeOnce).flatMap decomposeOnce).flatMap decomposeOnce).flatMap
    decomposeOnce

/-! ## Order of marks -/

/-- Puts a mark in front of a text whose marks are in order, behind the marks of
smaller classes. -/
def insertMark (mark : Char) : List Char → List Char
  | [] => [mark]
  | next :: rest =>
    if 0 < combiningClass next && combiningClass next < combiningClass mark then
      next :: insertMark mark rest
    else mark :: next :: rest

/-- A text with the marks behind each letter in the order of their classes. Marks of one
class keep their order. -/
def orderMarks : List Char → List Char
  | [] => []
  | character :: rest => insertMark character (orderMarks rest)

/-! ## Putting together -/

def compose? (first second : Char) : Option Char :=
  match syllable? first second with
  | some syllable => some syllable
  | none =>
    (compositions.find? (·.values = [first.toNat, second.toNat])).map (Char.ofNat ·.first)

/-- Composes a letter with what follows it. `marks` have followed it, the last one first,
and did not compose with it. A mark is kept from the letter by a mark of its own class or
a higher one. -/
def composeFrom (letter : Char) (marks : List Char) : List Char → List Char
  | [] => letter :: marks.reverse
  | next :: rest =>
    let isFree := marks.head?.all fun mark => combiningClass mark < combiningClass next
    match if isFree then compose? letter next else none with
    | some composed => composeFrom composed marks rest
    | none =>
      if combiningClass next =
          0 then letter :: (marks.reverse ++ composeFrom next [] rest)
      else composeFrom letter (next :: marks) rest

/-- Composes a text. Marks at its start follow no letter. -/
def compose : List Char → List Char
  | [] => []
  | character :: rest =>
    if combiningClass character = 0 then composeFrom character [] rest
    else character :: compose rest

def composed (text : List Char) : List Char := compose (orderMarks (decompose text))

end GrammarInspector.Text
