/-!
Three ways to measure a text: characters, bytes of its UTF-8 form and units of its UTF-16
form. Offsets into a source count bytes; columns shown to an editor count UTF-16 units.
-/

namespace GrammarInspector.Text

def utf8Length : List Char → Nat
  | [] => 0
  | character :: rest => character.utf8Size + utf8Length rest

/-- Units that a character takes in UTF-16: two beyond the basic plane, otherwise one. -/
def utf16Size (character : Char) : Nat :=
  if character.toNat < 0x10000 then 1 else 2

def utf16Length : List Char → Nat
  | [] => 0
  | character :: rest => utf16Size character + utf16Length rest

@[simp] theorem utf8Length_append (left right : List Char) :
    utf8Length (left ++ right) = utf8Length left + utf8Length right := by
  induction left with
  | nil => simp [utf8Length]
  | cons character rest induction => simp [utf8Length, induction, Nat.add_assoc]

@[simp] theorem utf16Length_append (left right : List Char) :
    utf16Length (left ++ right) = utf16Length left + utf16Length right := by
  induction left with
  | nil => simp [utf16Length]
  | cons character rest induction => simp [utf16Length, induction, Nat.add_assoc]

/-- An emoji is one character, four bytes and two UTF-16 units. -/
example : ['😀'].length = 1 ∧ utf8Length ['😀'] = 4 ∧ utf16Length ['😀'] = 2 := by decide

end GrammarInspector.Text
