import GrammarInspector.Text.CombiningClass
import GrammarInspector.Text.JoiningTable

/-!
Joiners: invisible characters that ask for a certain form of their neighbours. They make a
difference only at some places.
-/

namespace GrammarInspector.Text

def joiner : Char := Char.ofNat 0x200D

def nonJoiner : Char := Char.ofNat 0x200C

def isPassedOver (character : Char) : Bool := joinings.valueD character 0 = 4

def joinsNext (character : Char) : Bool := [1, 3].contains (joinings.valueD character 0)

def joinsPrevious (character : Char) : Bool :=
  [2, 3].contains (joinings.valueD character 0)

/-- Whether a character is the mark that takes the vowel from a consonant. -/
def isVirama (character : Char) : Bool := combiningClass character = 9

/-- Whether the joiners in a text make a difference. `before` is what stands in front of
it, the last character first. -/
def joinersFit (before : List Char) : List Char → Bool
  | [] => true
  | character :: rest =>
    let afterVirama := before.head?.any isVirama
    let isBetween :=
      (before.dropWhile isPassedOver).head?.any joinsNext &&
        (rest.dropWhile isPassedOver).head?.any joinsPrevious
    let fits :=
      if character = joiner then afterVirama
      else if character = nonJoiner then afterVirama || isBetween
      else true
    fits && joinersFit (character :: before) rest

end GrammarInspector.Text
