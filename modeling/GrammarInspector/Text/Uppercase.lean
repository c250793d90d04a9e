import GrammarInspector.Text.Stretches

/-!
Upper-case letters: code points with the property `Uppercase`. A title-case letter is not
one of them.
-/

namespace GrammarInspector.Text

/-- Code points with the property `Uppercase`. -/
def uppercaseCodes : Stretches := List.flatten [
    [65, 26, 101, 23, 1, 7, 33], .replicate 55 1, [2], .replicate 15 1, [2],
    .replicate 46 1, [2, 1, 1, 1, 1, 3, 2, 1, 1, 1, 2, 1, 3, 2, 4, 1, 2, 1, 3, 3, 2, 1,
    2, 1, 1, 1, 1, 1, 2, 1, 1, 2, 1, 1, 2, 1, 3, 1, 1, 1, 2, 3, 1, 7, 1, 2, 1, 2, 1,
    2], .replicate 15 1, [2], .replicate 17 1, [2, 1, 2, 1, 1, 3], .replicate 58 1, [7,
    2, 1, 2, 2, 1, 1, 4, 1, 1, 1, 1, 1, 1, 1, 1, 289, 1, 1, 1, 3, 1, 8, 1, 6, 1, 1, 3,
    1, 1, 1, 2, 1, 17, 1, 9, 35, 1, 2, 3, 3], .replicate 23 1, [5, 1, 2, 1, 1, 2, 2,
    51, 48], .replicate 33 1, [9], .replicate 54 1, [2], .replicate 12 1, [2],
    .replicate 95 1, [2, 38, 2889, 38, 1, 1, 5, 1, 722, 86, 2195, 1, 6, 43, 2, 3, 320],
    .replicate 149 1, [9], .replicate 97 1, [9, 8, 8, 6, 10, 8, 8, 8, 8, 6, 11, 1, 1,
    1, 1, 1, 1, 1, 8, 8, 72, 4, 12, 4, 12, 4, 12, 5, 11, 4, 262, 1, 4, 1, 3, 3, 2, 3,
    2, 1, 3, 5, 6, 1, 1, 1, 1, 1, 1, 4, 2, 4, 10, 2, 5, 1, 26, 16, 19, 1, 818, 26,
    1840, 48, 48, 1, 1, 3, 2, 1, 1, 1, 1, 1, 1, 4, 1, 1, 2, 1, 8, 3], .replicate 98 1,
    [8, 1, 1, 1, 4, 1, 31053], .replicate 45 1, [19], .replicate 27 1, [135],
    .replicate 13 1, [3], .replicate 61 1, [10, 1, 1, 1, 1, 2, 1, 1, 1, 1, 1, 1, 1, 1,
    4, 1, 1, 1, 2, 1, 1, 1, 3], .replicate 20 1, [5, 1, 5], .replicate 15 1, [4, 1, 1,
    1, 2], .replicate 16 1, [24, 1, 22315, 26, 1221, 40, 136, 36, 156, 11, 1, 15, 1, 7,
    1, 2, 1770, 51, 157, 22, 2874, 32, 21888, 32, 64, 25, 25927, 26, 26, 26, 26, 26,
    26, 1, 1, 2, 2, 1, 2, 2, 2, 4, 1, 8, 26, 26, 26, 2, 1, 4, 2, 8, 1, 7, 27, 2, 1, 4,
    1, 5, 1, 1, 3, 7, 27, 26, 26, 26, 26, 26, 26, 26, 26, 26, 26, 26, 30, 25, 33, 25,
    33, 25, 33, 25, 33, 25, 33, 1, 4405, 34, 2062, 26, 6, 26, 6, 26]]

def isUppercase (character : Char) : Bool :=
  Stretches.contains character.toNat uppercaseCodes

end GrammarInspector.Text
