import GrammarInspector.Text.Integer
import GrammarInspector.Uri.Basic
import GrammarInspector.Uri.Host

/-!
Reading URIs. What is read is brought into normal form: letters of schemes and hosts
become small, the usual numbers of services are left out, dots in paths are resolved, and
characters that cannot stand for themselves are escaped. Tabs and line ends count nowhere,
except that one behind the name of a drive ends that name.
-/

namespace GrammarInspector.Uri

/-! ## Breaks -/

/-- Tabs and line ends. -/
def isBreak (character : Char) : Bool :=
  character = '\t' || character = '\n' || character = '\r'

def withoutBreaks (text : List Char) : List Char := text.filter (!isBreak ·)

def skipBreaks (text : List Char) : List Char := text.dropWhile isBreak

/-- A text without the blanks and controls around it. -/
def trim (text : List Char) : List Char :=
  let isOuter (character : Char) : Bool := character ≤ ' '
  ((text.dropWhile isOuter).reverse.dropWhile isOuter).reverse

/-! ## Schemes -/

def isSchemeCharacter (character : Char) : Bool :=
  character.isAlphanum || character = '+' || character = '-' || character = '.'

/-- The scheme in front of a text, and what follows its colon. -/
def scheme? (text : List Char) : Option (List Char × List Char) :=
  let isInside (character : Char) : Bool :=
    isSchemeCharacter character || isBreak character
  if text.head?.any (·.isAlpha) then
    match text.dropWhile isInside with
    | ':' :: rest =>
        some ((withoutBreaks (text.takeWhile isInside)).map (·.toLower), rest)
    | _ => none
  else none

/-- How URIs of a scheme are read. -/
inductive Style where
  | file
  /-- An authority always follows the scheme, and its service usually has a number. -/
  | network (service : Nat)
  | generic
deriving DecidableEq, Repr

namespace Style

def ofScheme : String → Style
  | "file" => .file
  | "http" | "ws" => .network 80
  | "https" | "wss" => .network 443
  | "ftp" => .network 21
  | _ => .generic

/-- Whether a character divides names in a path. -/
def isSlash (style : Style) (character : Char) : Bool :=
  character = '/' || (style ≠ .generic && character = '\\')

end Style

/-! ## Paths -/

/-- A name with its escapes of dots undone. -/
def plainDots : List Char → List Char
  | '%' :: '2' :: 'e' :: rest => '.' :: plainDots rest
  | '%' :: '2' :: 'E' :: rest => '.' :: plainDots rest
  | character :: rest => character :: plainDots rest
  | [] => []

/-- Whether a name is the name of a drive, or is it up to a backslash. -/
def startsWithDrive : List Char → Bool
  | letter :: mark :: rest => isDrive [letter, mark] && rest.head?.all (· = '\\')
  | _ => false

/-- The name of a drive with a break behind it, and what follows the break. -/
def cutDrive? (name : List Char) : Option (List Char × List Char) :=
  let drive := withoutBreaks (name.takeWhile (· ≠ ':')) ++ [':']
  let behind := (name.dropWhile (· ≠ ':')).drop 1
  if isDrive drive && behind.head?.any isBreak && !(withoutBreaks behind).isEmpty then
    some (drive, withoutBreaks behind)
  else none

/-- How far the reading of a path has come. -/
structure Way where
  /-- The names of the path, the last one first. -/
  names : List (List Char)
  /-- Whether the path has turned out to start with a drive. -/
  onDrive : Bool

namespace Way

def start : Way := ⟨[], false⟩

/-- Goes back by one name. The name of a drive stays. -/
def back (way : Way) : Way :=
  match way.names with
  | [] => way
  | name :: rest => if startsWithDrive name then way else { way with names := rest }

def forth (way : Way) (name : List Char) : Way := { way with names := name :: way.names }

/-- Goes on to a name as it is written. The name of a drive at the start of the path of a
file takes a colon, and what follows a break behind it is a name of its own. -/
def enter (style : Style) (way : Way) (name : List Char) : Way :=
  let encode := Percent.encode Percent.isEscapedInPath
  let plain := encode (withoutBreaks name)
  if style = .file && way.names.isEmpty then
    match cutDrive? name with
    | some (drive, rest) => (way.forth drive).forth (encode rest)
    | none => if isDrive plain then ⟨[plain.take 1 ++ [':']], true⟩ else way.forth plain
  else way.forth plain

/-- Goes along names. One dot stays where it is, two dots go back, and either leaves an
empty name at the end. -/
def follow (style : Style) (way : Way) : List (List Char) → Way
  | [] => way
  | name :: rest =>
    let dots := plainDots (withoutBreaks name)
    if dots = ['.', '.'] then follow style
        (if rest.isEmpty then way.back.forth [] else way.back) rest
    else if dots = ['.'] then follow style
        (if rest.isEmpty then way.forth [] else way) rest
    else follow style (way.enter style name) rest

end Way

def names (style : Style) : List Char → List (List Char)
  | [] => [[]]
  | character :: rest =>
    match names style rest with
    | [] => [[]]
    | name :: others =>
      if style.isSlash character then [] :: name :: others
      else (character :: name) :: others

/-- The way along a path that starts behind its first slash. -/
def wayOf (style : Style) (text : List Char) : Way :=
  Way.start.follow style (names style text)

def Way.path (way : Way) : UriPath := .segments (way.names.reverse.map String.ofList)

/-- The path without the empty names in front; it has at least one name. -/
def Way.filePath (way : Way) : UriPath :=
  match way.names.reverse.dropWhile (·.isEmpty) with
  | [] => .segments [""]
  | names => .segments (names.map String.ofList)

/-- A text without the slash in front. -/
def dropSlash (style : Style) : List Char → List Char
  | [] => []
  | character :: rest => if style.isSlash character then rest else character :: rest

/-! ## Authorities -/

/-- Cuts a host from what follows it. Colons between brackets belong to the host. -/
def cutHost (inBrackets : Bool) : List Char → List Char × List Char
  | [] => ([], [])
  | character :: rest =>
    if character = ':' && !inBrackets then ([], character :: rest)
    else
      let inBrackets := character = '[' || (inBrackets && character ≠ ']')
      let (host, behind) := cutHost inBrackets rest
      (character :: host, behind)

/-- The service behind a host, nothing for the usual one, and what follows it. Only a
backslash can. -/
def service? (style : Style) : List Char → Option (Option Nat × List Char)
  | [] => some (none, [])
  | _ :: text =>
    let number := (Text.natural? (text.takeWhile (·.isDigit))).filter fun number =>
      style ≠ .network number
    let behind := text.dropWhile (·.isDigit)
    if number.any (65535 < ·) || behind.head?.any (· ≠ '\\') then none
    else some (number, behind)

/-- A user and a password with their escapes; nothing if both are empty. -/
def user (text : List Char) : Option String :=
  let name := text.takeWhile (· ≠ ':')
  let password := (text.dropWhile (· ≠ ':')).drop 1
  let encode := Percent.encode Percent.isEscapedInUser
  if name.isEmpty && password.isEmpty then none
  else if password.isEmpty then some (String.ofList (encode name))
  else some (String.ofList (encode name ++ [':'] ++ encode password))

/-- Reads an authority, and gives what of the text belongs to the path. A text that is
only the mark of an empty user must be the end of the URI. -/
def authority? (style : Style) (isEnd : Bool) (text : List Char) :
    Option (Authority × List Char) :=
  let (user, place) := match Text.cutLast? '@' text with
    | some (before, place) => (user before, place)
    | none => (none, text)
  let (name, behind) := cutHost false place
  let host := if style = .generic then privateHost? name else host? name
  match host, service? style behind with
  | some host, some (service, rest) =>
    if host.isEmpty && (user.isSome || !behind.isEmpty) || text = ['@'] &&
        !isEnd then none
    else some (⟨user, String.ofList host, service⟩, rest)
  | _, _ => none

/-! ## Whole URIs -/

/-- The authority and the path of a file behind two slashes. A host in front of a drive
and the host of this machine are left out. Without a host the path starts with an empty
name, which is why a drive is not seen there. -/
def hostedFile? (text : List Char) : Option (Authority × UriPath) :=
  let style := Style.file
  let located (host : List Char) (way : Way) : Authority × UriPath :=
    (⟨none, String.ofList (if way.onDrive then [] else host), none⟩, way.filePath)
  let name := withoutBreaks (text.takeWhile (!style.isSlash ·))
  let behind := text.dropWhile (!style.isSlash ·)
  if isDrive name then some (located [] (wayOf style text))
  else if name.isEmpty then some (located [] (wayOf style behind))
  else
    (host? name).map fun host =>
      if host = "localhost".toList then located [] (wayOf style behind)
      else located host (wayOf style (dropSlash style behind))

/-- The authority and the path of a file. -/
def fileLocation? (text : List Char) : Option (Authority × UriPath) :=
  let style := Style.file
  let onThisMachine (text : List Char) : Option (Authority × UriPath) :=
    some (⟨none, "", none⟩, (wayOf style text).filePath)
  match skipBreaks text with
  | [] => onThisMachine []
  | first :: rest =>
    if !style.isSlash first then onThisMachine (first :: rest)
    else
      match skipBreaks rest with
      | [] => onThisMachine []
      | second :: behind =>
        if style.isSlash second then hostedFile? behind
        else onThisMachine (second :: behind)

/-- The authority and the path that follow a scheme. `isEnd` holds if nothing
follows them. -/
def location? (style : Style) (isEnd : Bool) (text : List Char) :
    Option (Option Authority × UriPath) :=
  match style with
  | .file => (fileLocation? text).map fun (authority, path) => (some authority, path)
  | .network _ =>
    let text := (withoutBreaks text).dropWhile style.isSlash
    let path := text.dropWhile (!style.isSlash ·)
    (authority? style (isEnd && path.isEmpty) (text.takeWhile (!style.isSlash ·))).map
      fun (authority, _) => (some authority, (wayOf style (dropSlash style path)).path)
  | .generic =>
    match withoutBreaks text with
    | '/' :: '/' :: rest =>
      let path := rest.dropWhile (· ≠ '/')
      (authority? style (isEnd && path.isEmpty) (rest.takeWhile (· ≠ '/'))).map
        fun (authority, behind) =>
          match behind ++ path with
          | [] => (some authority, .segments [])
          | text => (some authority, (wayOf style (dropSlash style text)).path)
    | '/' :: path => some (none, (wayOf style path).path)
    | text => some (none, .bare (String.ofList (Percent.encode Percent.isControl text)))

/-- What follows a mark in a text, and the text in front of it. -/
def cutAt (mark : Char) (text : List Char) : List Char × Option (List Char) :=
  match text.dropWhile (· ≠ mark) with
  | [] => (text, none)
  | _ :: behind => (text.takeWhile (· ≠ mark), some behind)

/-- Reads a URI. There is none without a scheme. -/
def ofText? (text : String) : Option Uri :=
  match scheme? (trim text.toList) with
  | none => none
  | some (scheme, rest) =>
    let scheme := String.ofList scheme
    let style := Style.ofScheme scheme
    let (rest, fragment) := cutAt '#' rest
    let (rest, query) := cutAt '?' rest
    let isEscapedInQuery (character : Char) : Bool :=
      Percent.isEscapedInQuery character || (style ≠ .generic && character = '\'')
    let encoded (isEscaped : Char → Bool) (text : List Char) : String :=
      String.ofList (Percent.encode isEscaped (withoutBreaks text))
    (location? style (query.isNone && fragment.isNone) rest).map fun (authority, path) =>
      { scheme
        authority
        path
        query := query.map (encoded isEscapedInQuery)
        fragment := fragment.map (encoded Percent.isEscapedInFragment) }

end GrammarInspector.Uri
