import GrammarInspector.Text.Stretches

/-!
White space of all scripts.
-/

namespace GrammarInspector.Text

/-- Code points with the property `White_Space`. -/
def whiteSpaceCodes : Stretches := [
    9, 5, 18, 1, 100, 1, 26, 1, 5599, 1, 2431, 11, 29, 2, 5, 1, 47, 1, 4000, 1]

def isWhiteSpace (character : Char) : Bool :=
  Stretches.contains character.toNat whiteSpaceCodes

def trimEnd (text : List Char) : List Char :=
  (text.reverse.dropWhile isWhiteSpace).reverse

def trim (text : List Char) : List Char :=
  trimEnd (text.dropWhile isWhiteSpace)

end GrammarInspector.Text
