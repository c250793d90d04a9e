import GrammarInspector.Text.Replace
import GrammarInspector.Uri.Percent

/-!
URIs of documents, in the normal form that tells documents apart, and the files that they
name.
-/

namespace GrammarInspector

/-- Whom a URI asks for its document. -/
structure Authority where
  /-- The user with a password, if there is one, written as in the URI. -/
  user : Option String
  host : String
  /-- The number of the service on the host, if it is not the usual one. -/
  service : Option Nat
deriving DecidableEq, Repr

namespace Authority

def text (authority : Authority) : String :=
  (authority.user.map (· ++ "@")).getD "" ++ authority.host ++
    (authority.service.map (":" ++ ·.repr)).getD ""

end Authority

/-- How a URI goes on behind its authority. -/
inductive UriPath where
  /-- Names with a slash in front of each. -/
  | segments (names : List String)
  /-- A text without structure. -/
  | bare (text : String)
deriving DecidableEq, Repr

namespace UriPath

def text : UriPath → String
  | .segments names => String.join (names.map ("/" ++ ·))
  | .bare text => text

end UriPath

/-- A URI. All its texts are escaped. -/
structure Uri where
  scheme : String
  authority : Option Authority
  path : UriPath
  query : Option String
  fragment : Option String
deriving DecidableEq, Repr

namespace Uri

/-- The path as it stands in a URI. A path that starts with two slashes would read as an
authority, so a dot goes in front of it if there is none. -/
def pathText (uri : Uri) : String :=
  match uri.authority, uri.path with
  | none, .segments ("" :: next :: rest) =>
      "/." ++ (UriPath.segments ("" :: next :: rest)).text
  | _, path => path.text

/-- The normal form of a URI as a text. -/
def text (uri : Uri) : String :=
  uri.scheme ++ ":" ++ (uri.authority.map ("//" ++ ·.text)).getD "" ++ uri.pathText ++
    (uri.query.map ("?" ++ ·)).getD "" ++ (uri.fragment.map ("#" ++ ·)).getD ""

/-- A letter with a colon or a bar behind it, the name of a drive. -/
def isDrive : List Char → Bool
  | [letter, mark] => letter.isAlpha && (mark = ':' || mark = '|')
  | _ => false

/-- A slash behind a path that ends with the name of a drive. -/
def closeDrive (path : String) : String :=
  let characters := path.toList
  if characters.length > 2 &&
      isDrive (characters.drop (characters.length - 2)) then path ++ "/"
  else path

/-- The path of the file that a URI names. There is one if the URI asks no other host and
its path is made of names. -/
def filePath? (uri : Uri) : Option String :=
  match uri.path with
  | .bare _ | .segments [] => none
  | .segments names =>
    if uri.authority.all fun authority => authority.host = "" ||
        authority.host = "localhost" then
      (Percent.decodeText? (UriPath.segments names).text.toList).map closeDrive
    else none

end Uri

end GrammarInspector
