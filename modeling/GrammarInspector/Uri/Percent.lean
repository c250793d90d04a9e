/-!
Percent escapes: bytes written as a percent sign and two hexadecimal digits.
-/

namespace GrammarInspector.Percent

/-- The hexadecimal digit of a value below sixteen. -/
def digit (value : Nat) : Char :=
  if value < 10 then Char.ofNat ('0'.toNat + value)
  else Char.ofNat ('A'.toNat + (value - 10))

def digitValue? (character : Char) : Option Nat :=
  if '0' ≤ character && character ≤ '9' then some (character.toNat - '0'.toNat)
  else if 'A' ≤ character && character ≤ 'F' then some (character.toNat - 'A'.toNat + 10)
  else if 'a' ≤ character && character ≤ 'f' then some (character.toNat - 'a'.toNat + 10)
  else none

def escape (byte : UInt8) : List Char :=
  ['%', digit (byte.toNat / 16), digit (byte.toNat % 16)]

/-- A text with escapes for the bytes of some of its characters. Percent signs stay as
they are, so text that is escaped already does not change. -/
def encode (isEscaped : Char → Bool) (text : List Char) : List Char :=
  text.flatMap fun character =>
    if isEscaped character then (String.utf8EncodeChar character).flatMap escape
    else [character]

/-- The bytes of a text whose escapes stand for bytes. A percent sign without two digits
behind it stands for itself. -/
def decode : List Char → List UInt8
  | [] => []
  | '%' :: high :: low :: rest =>
    match digitValue? high, digitValue? low with
    | some high, some low => (high * 16 + low).toUInt8 :: decode rest
    | _, _ => 0x25 :: decode (high :: low :: rest)
  | character :: rest => String.utf8EncodeChar character ++ decode rest

/-- The text whose bytes a text with escapes gives, if they are UTF-8. -/
def decodeText? (text : List Char) : Option String :=
  String.fromUTF8? ⟨(decode text).toArray⟩

/-- Every hexadecimal digit has the value it was written for. -/
example : (List.range 16).map (digitValue? ∘ digit) = (List.range 16).map some :=
  by decide

example : encode (· = 'é') "é%54".toList = "%C3%A9%54".toList := by decide +kernel

example :
    decode "%54.%g".toList = "T.%g".toList.map fun character =>
      character.toNat.toUInt8 := by
  decide +kernel

/-! ## Characters that are escaped -/

/-- Characters that stand for themselves in no part of a URI. -/
def isControl (character : Char) : Bool := character < ' ' || '~' < character

def isEscapedInFragment (character : Char) : Bool :=
  isControl character || [' ', '"', '<', '>', '\x60'].contains character

def isEscapedInPath (character : Char) : Bool :=
  isEscapedInFragment character || ['#', '?', '{', '}'].contains character

def isEscapedInUser (character : Char) : Bool :=
  isEscapedInPath character ||
    ['/', ':', ';', '=', '@', '[', '\\', ']', '^', '|'].contains character

def isEscapedInQuery (character : Char) : Bool :=
  isControl character || [' ', '"', '#', '<', '>'].contains character

end GrammarInspector.Percent
