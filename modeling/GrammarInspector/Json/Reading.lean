import GrammarInspector.Json.Basic
import GrammarInspector.Text.Integer

/-!
Reading JSON values from texts. Every reader takes a part of its text, so that reading
comes to an end.
-/

namespace GrammarInspector.Json

/-- A value that was read from the front of a text, and the rest of it. -/
structure Read (α : Type) (text : List Char) where
  value : α
  rest : List Char
  isShorter : rest.length < text.length

namespace Read

variable {α β : Type} {text : List Char}

def map (change : α → β) (read : Read α text) : Read β text :=
  { read with value := change read.value }

/-- What was read from a part of a text, as read from the whole. -/
def within {part : List Char} (isPart : part.length ≤ text.length) (read : Read α part) :
    Read α text :=
  ⟨read.value, read.rest, Nat.lt_of_lt_of_le read.isShorter isPart⟩

end Read

def isBlank (character : Char) : Bool :=
  character = ' ' || character = '\t' || character = '\n' || character = '\r'

def skipBlanks (text : List Char) : List Char := text.dropWhile isBlank

theorem length_skipBlanks_le (text : List Char) :
    (skipBlanks text).length ≤ text.length :=
  (List.dropWhile_sublist isBlank).length_le

theorem length_lt_of_skipBlanks {text rest : List Char} {character : Char}
    (skipped : skipBlanks text = character :: rest) : rest.length < text.length := by
  have := length_skipBlanks_le text
  simp only [skipped, List.length_cons] at this
  omega

/-! ## Texts -/

def hexValue? (digits : List Char) : Option Nat :=
  digits.foldlM (fun value digit => do
    let next ←
      if digit.isDigit then some (digit.toNat - '0'.toNat)
      else if 'a' ≤ digit.toLower && digit.toLower ≤ 'f' then
        some (digit.toLower.toNat - 'a'.toNat + 10)
      else none
    pure (value * 16 + next)) 0

/-- The second of two units that stand for a character beyond the basic plane. -/
def readSecondUnit (first : Nat) : (text : List Char) → Option (Read Char text)
  | '\\' :: 'u' :: a :: b :: c :: d :: rest => do
    let second ← hexValue? [a, b, c, d]
    if 0xDC00 ≤ second && second < 0xE000 then
      some ⟨Char.ofNat (0x10000 + (first - 0xD800) * 0x400 + (second - 0xDC00)), rest, by
        simp only [List.length_cons]; omega⟩
    else none
  | _ => none

/-- The character that follows `\u`. Characters beyond the basic plane are written
as two units. -/
def readUnit : (text : List Char) → Option (Read Char text)
  | a :: b :: c :: d :: rest => do
    let unit ← hexValue? [a, b, c, d]
    if 0xD800 ≤ unit && unit < 0xDC00 then
      (readSecondUnit unit rest).map (·.within (by simp only [List.length_cons]; omega))
    else if 0xDC00 ≤ unit && unit < 0xE000 then none
    else some ⟨Char.ofNat unit, rest, by simp only [List.length_cons]; omega⟩
  | _ => none

/-- The character that a letter stands for behind a backslash. -/
def escaped? : Char → Option Char
  | '"' => some '"'
  | '\\' => some '\\'
  | '/' => some '/'
  | 'b' => some '\x08'
  | 'f' => some '\x0c'
  | 'n' => some '\n'
  | 'r' => some '\r'
  | 't' => some '\t'
  | _ => none

/-- The character that follows a backslash. -/
def readEscape : (text : List Char) → Option (Read Char text)
  | 'u' :: rest => (readUnit rest).map (·.within (by simp))
  | letter :: rest => (escaped? letter).map (⟨·, rest, by simp⟩)
  | [] => none

/-- What stands up to the next quote, behind characters that were read before, the
last one first. -/
def readQuoted {whole : List Char} (read text : List Char)
    (isPart : text.length ≤ whole.length) : Option (Read String whole) :=
  match text with
  | [] => none
  | '"' :: rest => some ⟨String.ofList read.reverse, rest, isPart⟩
  | '\\' :: rest =>
    match readEscape rest with
    | none => none
    | some ⟨character, behind, isShorter⟩ =>
      readQuoted (character :: read) behind
        (by simp only [List.length_cons] at isPart; omega)
  | character :: rest =>
    if character < ' ' then none
    else readQuoted (character :: read) rest
      (by simp only [List.length_cons] at isPart; omega)
termination_by text.length

/-! ## Numbers and words -/

/-- The integer that digits write, if it is kept as an integer: with a sign it fits into
64 bits as a signed number, without one as an unsigned number. Zero has no sign. -/
def integer? (negative : Bool) (digits : List Char) : Option Int := do
  let value ← Text.natural? digits
  if negative then
    if 0 < value && value ≤ Nat.pow 2 63 then some (-Int.ofNat value) else none
  else if value < Nat.pow 2 64 then some (Int.ofNat value)
  else none

/-- An exponent with its mark. -/
def exponent? : List Char → Option Int
  | _ :: '-' :: digits => (Text.natural? digits).map fun value => -Int.ofNat value
  | _ :: '+' :: digits => (Text.natural? digits).map Int.ofNat
  | _ :: digits => (Text.natural? digits).map Int.ofNat
  | [] => none

def isExponentMark (character : Char) : Bool := character = 'e' || character = 'E'

/-- A number without its sign. A number with more than one digit in front of the point
does not start with a zero. -/
def unsigned? (negative : Bool) (word : List Char) : Option Json := do
  let front := word.takeWhile (!isExponentMark ·)
  let power := word.dropWhile (!isExponentMark ·)
  let digits := front.takeWhile (· ≠ '.')
  let fraction := front.dropWhile (· ≠ '.')
  if digits.head? = some '0' && 1 < digits.length then none
  else
    discard (Text.natural? digits)
    match fraction, power, integer? negative digits with
    | [], [], some value => some (.integer value)
    | _, _, _ =>
      if !fraction.isEmpty then discard (Text.natural? (fraction.drop 1))
      let exponent ← if power.isEmpty then some 0 else exponent? power
      (Decimal.ofDigits? negative digits (fraction.drop 1) exponent).map .decimal

def number? : List Char → Option Json
  | '-' :: word => unsigned? true word
  | word => unsigned? false word

/-- The value of a word that does not stand between quotes. -/
def plain? (word : List Char) : Option Json :=
  if word = "null".toList then some .null
  else if word = "true".toList then some (.bool true)
  else if word = "false".toList then some (.bool false)
  else number? word

def isPlain (character : Char) : Bool :=
  character.isAlphanum || character = '-' || character = '+' || character = '.'

theorem length_dropWhile_lt {text word : List Char} {first : Char}
    (taken : text.takeWhile isPlain = first :: word) :
    (text.dropWhile isPlain).length < text.length := by
  have whole :=
    congrArg List.length (List.takeWhile_append_dropWhile (p := isPlain) (l := text))
  simp only [taken, List.length_append, List.length_cons] at whole
  omega

/-- A value that is neither between quotes nor between brackets. -/
def readPlain (text : List Char) : Option (Read Json text) :=
  match taken : text.takeWhile isPlain with
  | [] => none
  | first :: word =>
    (plain? (first :: word)).map (⟨·, text.dropWhile isPlain, length_dropWhile_lt taken⟩)

/-! ## Values -/

/-- Fields in the order of their names. Of fields with the same name, the
last one counts. -/
def arrange (fields : List (String × Json)) : List (String × Json) :=
  let sorted := fields.reverse.mergeSort fun left right => left.1 ≤ right.1
  sorted.foldr (fun field rest => field :: rest.dropWhile (·.1 = field.1)) []

/-- How many lists and objects may stand inside each other. -/
def maxDepth : Nat := 127

mutual

/-- One value with at most `depth` lists and objects inside each other. Blanks in front of
it must have been skipped. -/
def readValue (depth : Nat) (text : List Char) : Option (Read Json text) :=
  match depth, text with
  | _, '"' :: rest => (readQuoted [] rest (Nat.le_refl _)).map fun read =>
    (read.map .text).within (by simp)
  | depth + 1, '[' :: rest =>
    match skipped : skipBlanks rest with
    | ']' :: behind => some ⟨.list [], behind, by
        have := length_lt_of_skipBlanks skipped
        simp only [List.length_cons]; omega⟩
    | _ => (readItems depth [] rest (Nat.le_refl _)).map fun read =>
      (read.map .list).within (by simp)
  | depth + 1, '\x7b' :: rest =>
    match skipped : skipBlanks rest with
    | '\x7d' :: behind => some ⟨.object [], behind, by
        have := length_lt_of_skipBlanks skipped
        simp only [List.length_cons]; omega⟩
    | _ => (readFields depth [] rest (Nat.le_refl _)).map fun read =>
      (read.map fun fields => .object (arrange fields)).within (by simp)
  | _, other => readPlain other
termination_by (depth, text.length)

/-- One or more values and the bracket that closes them, behind values that were read
before, the last one first. -/
def readItems {whole : List Char} (depth : Nat) (read : List Json) (text : List Char)
    (isPart : text.length ≤ whole.length) : Option (Read (List Json) whole) :=
  have := length_skipBlanks_le text
  match readValue depth (skipBlanks text) with
  | none => none
  | some ⟨item, rest, isShorter⟩ =>
    match skipped : skipBlanks rest with
    | ']' :: behind => some ⟨(item :: read).reverse, behind, by
        have := length_lt_of_skipBlanks skipped
        omega⟩
    | ',' :: behind =>
      have := length_lt_of_skipBlanks skipped
      readItems depth (item :: read) behind (by omega)
    | _ => none
termination_by (depth, text.length + 1)

/-- One or more fields and the brace that closes them, behind fields that were read
before, the last one first. -/
def readFields {whole : List Char} (depth : Nat) (read : List (String × Json))
    (text : List Char) (isPart : text.length ≤ whole.length) :
    Option (Read (List (String × Json)) whole) :=
  match opened : skipBlanks text with
  | '"' :: quoted =>
    match (readQuoted [] quoted (Nat.le_refl _) : Option (Read String quoted)) with
    | none => none
    | some ⟨name, rest, _⟩ =>
      match named : skipBlanks rest with
      | ':' :: told =>
        have := length_lt_of_skipBlanks opened
        have := length_lt_of_skipBlanks named
        have := length_skipBlanks_le told
        match readValue depth (skipBlanks told) with
        | none => none
        | some ⟨value, rest, _⟩ =>
          match skipped : skipBlanks rest with
          | '\x7d' :: behind => some ⟨((name, value) :: read).reverse, behind, by
              have := length_lt_of_skipBlanks skipped
              omega⟩
          | ',' :: behind =>
            have := length_lt_of_skipBlanks skipped
            readFields depth ((name, value) :: read) behind (by omega)
          | _ => none
      | _ => none
  | _ => none
termination_by (depth, text.length + 1)

end

/-- The value that a text holds, with blanks around it or without. -/
def ofText? (text : String) : Option Json :=
  match readValue maxDepth (skipBlanks text.toList) with
  | some read => if (skipBlanks read.rest).isEmpty then some read.value else none
  | none => none

end GrammarInspector.Json
