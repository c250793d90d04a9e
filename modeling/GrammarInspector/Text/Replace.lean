/-!
Replacing and cutting texts.
-/

namespace GrammarInspector.Text

/-- Replaces the occurrences of `pattern` from left to right. `skip` characters are still
part of the occurrence that was replaced last. -/
def replaceFrom (pattern replacement : List Char) : (skip : Nat) → List Char → List Char
  | _, [] => []
  | skip + 1, _ :: rest => replaceFrom pattern replacement skip rest
  | 0, character :: rest =>
    if pattern.isPrefixOf (character :: rest) then
      replacement ++ replaceFrom pattern replacement (pattern.length - 1) rest
    else character :: replaceFrom pattern replacement 0 rest

/-- Replaces all occurrences of a pattern, which must not be empty. What was put in is not
searched again. -/
def replace (pattern replacement text : List Char) : List Char :=
  replaceFrom pattern replacement 0 text

/-- Cuts a text at the last occurrence of a mark. -/
def cutLast? (mark : Char) : List Char → Option (List Char × List Char)
  | [] => none
  | character :: rest =>
    match cutLast? mark rest with
    | some (before, behind) => some (character :: before, behind)
    | none => if character = mark then some ([], rest) else none

/-- Cuts a text at every occurrence of a mark. -/
def cutAll (mark : Char) : List Char → List (List Char)
  | [] => [[]]
  | character :: rest =>
    match cutAll mark rest with
    | [] => [[]]
    | piece :: pieces =>
      if character = mark then [] :: piece :: pieces else (character :: piece) :: pieces

example : cutAll '/' "/a//b".toList = ["".toList, "a".toList, "".toList, "b".toList] :=
  by decide

end GrammarInspector.Text
