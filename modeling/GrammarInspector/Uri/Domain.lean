import GrammarInspector.Text.Composition
import GrammarInspector.Text.Direction
import GrammarInspector.Text.Joining
import GrammarInspector.Text.Mark
import GrammarInspector.Uri.DomainTable
import GrammarInspector.Uri.Punycode

/-!
Names of hosts in normal form. A name is made of labels with dots between them, and may be
written in all scripts. In normal form letters are small, characters that look the same
are the same, and labels that are not plain are told in plain letters.
-/

namespace GrammarInspector.Uri

/-- Characters that stand in no label. -/
def isDenied (character : Char) : Bool :=
  character ≤ ' ' || character = '\x7f' ||
    ['%', '#', '/', ':', '<', '>', '?', '@', '[', '\\', ']', '^', '|'].contains character

/-- What takes the place of a character; nothing if no name has it. -/
def replacement? (character : Char) : Option (List Char) :=
  if silentCharacters.covers character then some []
  else
    match replacedCharacters.image? character with
    | some characters => some characters
    | none => if domainCharacters.covers character then some [character] else none

/-- A label of the name of a host. -/
structure Label where
  /-- The label in plain letters. -/
  plain : List Char
  /-- The label as it is shown. -/
  shown : List Char
deriving DecidableEq, Repr

namespace Label

/-- What labels start with whose plain letters stand for others. -/
def mark : List Char := "xn--".toList

/-- Whether a shown label is in normal form and is not plain. -/
def isNormal (shown : List Char) : Bool :=
  shown.any (!Punycode.isPlain ·) && Text.composed shown = shown &&
    shown.all fun character => replacement? character = some [character]

/-- Whether a label may be shown. -/
def isSound (shown : List Char) : Bool :=
  !shown.any isDenied && !shown.head?.any Text.isMark && Text.joinersFit [] shown

/-- Reads a label whose characters are in normal form. -/
def ofText? (text : List Char) : Option Label :=
  let label? :=
    if mark.isPrefixOf text then
      if text.all Punycode.isPlain then
        ((Punycode.decode? (text.drop mark.length)).filter isNormal).map (Label.mk text)
      else none
    else if text.all Punycode.isPlain then some ⟨text, text⟩
    else some ⟨mark ++ Punycode.encode text, text⟩
  label?.filter (isSound ·.shown)

def directions (label : Label) : List Text.Direction := label.shown.map .of

end Label

/-- Whether labels are shown the same everywhere. Only labels beside one that runs from
right to left must keep to the rule for directions. -/
def areSteady (labels : List Label) : Bool :=
  !labels.any (fun label => label.directions.any (·.isLeftward)) ||
    labels.all fun label => Text.Direction.isSteady label.directions

/-- The normal form of the name of a host, in plain letters. -/
def domain? (name : List Char) : Option (List Char) := do
  let replaced ← name.mapM replacement?
  let labels ← (Text.cutAll '.' (Text.composed replaced.flatten)).mapM Label.ofText?
  if areSteady labels then some (['.'].intercalate (labels.map (·.plain))) else none

end GrammarInspector.Uri
