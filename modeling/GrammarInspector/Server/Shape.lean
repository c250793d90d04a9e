import GrammarInspector.Json.Basic
import GrammarInspector.Uri.Reading

/-!
Shapes of JSON values. Parameters of calls must have the shape that belongs to the method.

A record has fields with names. It is written as an object or, with all its fields in
order, as a list. A part of a record that shares the object with other parts is always
written by its names.
-/

namespace GrammarInspector.Server

/-- Whether a field of a record must be there. -/
inductive Presence where
  | required
  /-- The field may be missing from an object. -/
  | optional
  /-- The field may also be missing at the end of a list. -/
  | omittable
deriving DecidableEq, Repr

inductive Shape where
  | anything
  | flag
  | text
  | uri
  /-- An integer from zero that fits into 32 bits. -/
  | natural
  /-- An integer that fits into 32 bits. -/
  | integer
  | number
  /-- One of some words, or an object whose only field is such a word with nothing in
  it. -/
  | word (allowed : List String)
  | list (item : Shape)
  | pair (item : Shape)
  /-- An object with any names that are URIs. -/
  | byUri (value : Shape)
  /-- An object with any names. -/
  | byName (value : Shape)
  | orNull (shape : Shape)
  | either (first second : Shape)
  | record (fields : List (Presence × String × Shape))
  /-- A record that is written by its names; fields with other names have a shape too. -/
  | named (fields : List (Presence × String × Shape)) (others : Shape)

namespace Shape

/-! ## Fields -/

def need (name : String) (shape : Shape) : Presence × String × Shape :=
  (.required, name, shape)

/-- A field that may be missing or `null`. -/
def may (name : String) (shape : Shape) : Presence × String × Shape :=
  (.optional, name, .orNull shape)

/-- A field that may be missing, at the end of a list too, or `null`. -/
def mayEnd (name : String) (shape : Shape) : Presence × String × Shape :=
  (.omittable, name, .orNull shape)

/-- A record some of whose fields are shared with other parts of an object. -/
def parts (fields : List (Presence × String × Shape)) : Shape := .named fields .anything

/-- Whether a number lies between two others, the second excluded. -/
def isWithin (low high : Int) : Json → Bool
  | .integer value => low ≤ value && value < high
  | _ => false

def isWord (allowed : List String) : Json → Bool
  | .text written => allowed.contains written
  | .object [(name, .null)] => allowed.contains name
  | _ => false

mutual

def fits : Shape → Json → Bool
  | .anything, _ => true
  | .flag, value => match value with
    | .bool _ => true
    | _ => false
  | .text, value => match value with
    | .text _ => true
    | _ => false
  | .uri, value => match value with
    | .text written => (Uri.ofText? written).isSome
    | _ => false
  | .natural, value => isWithin 0 (Int.pow 2 32) value
  | .integer, value => isWithin (-Int.pow 2 31) (Int.pow 2 31) value
  | .number, value => match value with
    | .integer _ | .decimal _ => true
    | _ => false
  | .word allowed, value => isWord allowed value
  | .list item, value => match value with
    | .list items => items.all fun value => item.fits value
    | _ => false
  | .pair item, value => match value with
    | .list [first, second] => item.fits first && item.fits second
    | _ => false
  | .byUri shape, value => match value with
    | .object fields => fields.all fun field => (Uri.ofText? field.1).isSome &&
        shape.fits field.2
    | _ => false
  | .byName shape, value => match value with
    | .object fields => fields.all fun field => shape.fits field.2
    | _ => false
  | .orNull shape, value => match value with
    | .null => true
    | value => shape.fits value
  | .either first second, value => first.fits value || second.fits value
  | .record fields, value => match value with
    | .object _ => fitNames fields value
    | .list items => fitPlaces fields items
    | _ => false
  | .named fields others, value => match value with
    | .object entries =>
      fitNames fields value && entries.all fun entry =>
        fields.any (fun field => field.2.1 = entry.1) || others.fits entry.2
    | _ => false

/-- Whether an object has fields. -/
def fitNames : List (Presence × String × Shape) → Json → Bool
  | [], _ => true
  | (presence, name, shape) :: rest, value =>
    (match value.field? name with
      | none => presence ≠ .required
      | some part => shape.fits part) && fitNames rest value

/-- Whether the items of a list are fields in their order. -/
def fitPlaces : List (Presence × String × Shape) → List Json → Bool
  | [], items => items.isEmpty
  | (presence, _, _) :: rest, [] => presence = .omittable && fitPlaces rest []
  | (_, _, shape) :: rest, item :: items => shape.fits item && fitPlaces rest items

end

/-! ## Parts of values -/

/-- A field of a value with the shape of a record. -/
def part? (name : String) (value : Json) : Shape → Option Json
  | .record fields =>
    match value with
    | .list items => (fields.findIdx? (·.2.1 = name)).bind (items[·]?)
    | value => value.field? name
  | _ => value.field? name

end Shape

end GrammarInspector.Server
