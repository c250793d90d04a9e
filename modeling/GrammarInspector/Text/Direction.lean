import GrammarInspector.Text.DirectionTable

/-!
Directions of writing. Text in which some characters run from right to left is shown in an
order that depends on its neighbours; labels of a host that keep to a rule are shown the
same everywhere.
-/

namespace GrammarInspector.Text

/-- The part that a character plays in the direction of a text. -/
inductive Direction where
  | rightward
  | leftward
  | arabicLetter
  | arabicNumber
  | number
  | numberSign
  | numberSeparator
  | numberTerminator
  | neutral
  | invisible
  | mark
  /-- Ends of lines and blanks. -/
  | gap
deriving DecidableEq, Repr

namespace Direction

def ofNumber : Nat → Direction
  | 0 => .rightward
  | 1 => .leftward
  | 2 => .arabicLetter
  | 3 => .arabicNumber
  | 4 => .number
  | 5 => .numberSign
  | 6 => .numberSeparator
  | 7 => .numberTerminator
  | 8 => .neutral
  | 9 => .invisible
  | 10 => .mark
  | _ => .gap

def of (character : Char) : Direction := ofNumber (directions.valueD character 0)

/-- Whether a character makes its text one of mixed directions. -/
def isLeftward (direction : Direction) : Bool :=
  direction = .leftward || direction = .arabicLetter || direction = .arabicNumber

/-- Whether a character may stand in a text of either direction. -/
def isCommon (direction : Direction) : Bool :=
  [number, numberSign, numberSeparator, numberTerminator, neutral, invisible,
    mark].contains direction

/-- The last character of a text that is no mark. -/
def last? (directions : List Direction) : Option Direction :=
  (directions.reverse.dropWhile (· = .mark)).head?

/-- The rule for a text that runs from right to left. -/
def isSteadyLeftward (directions : List Direction) : Bool :=
  directions.all (fun direction => direction.isLeftward || direction.isCommon) &&
    (last? directions).any (fun direction => direction.isLeftward ||
      direction = .number) &&
    !(directions.contains .number && directions.contains .arabicNumber)

/-- The rule for a text that runs from left to right. -/
def isSteadyRightward (directions : List Direction) : Bool :=
  directions.all (fun direction => direction = .rightward || direction.isCommon) &&
    (last? directions).any (fun direction => direction = .rightward ||
      direction = .number)

/-- The rule for the direction of a label. Its first character gives the direction. -/
def isSteady (directions : List Direction) : Bool :=
  match directions.head? with
  | none => true
  | some .rightward => isSteadyRightward directions
  | some .leftward | some .arabicLetter => isSteadyLeftward directions
  | some _ => false

end Direction

end GrammarInspector.Text
