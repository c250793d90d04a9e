import GrammarInspector.Files.Path

/-!
Files as a program finds them, and a store of files in memory.
-/

namespace GrammarInspector

inductive FileFault where
  | notFound
  | notDirectory
  | isDirectory
  | notText
deriving DecidableEq, Repr

namespace FileFault

def message : FileFault → String
  | .notFound => "No such file or directory (os error 2)"
  | .notDirectory => "Not a directory (os error 20)"
  | .isDirectory => "Is a directory (os error 21)"
  | .notText => "stream did not contain valid UTF-8"

end FileFault

inductive FileEntry where
  | text (contents : String)
  /-- A file whose bytes are no UTF-8 text. -/
  | binary
  | directory
deriving DecidableEq, Repr

/-- The files that a program can see: what each path leads to, or why it leads nowhere. -/
structure Files where
  entry : String → Except FileFault FileEntry

namespace Files

def isFile (files : Files) (path : String) : Bool :=
  match files.entry path with
  | .ok (.text _) | .ok .binary => true
  | _ => false

def read (files : Files) (path : String) : Except FileFault String :=
  match files.entry path with
  | .ok (.text contents) => .ok contents
  | .ok .binary => .error .notText
  | .ok .directory => .error .isDirectory
  | .error fault => .error fault

end Files

/-! ## Files in memory -/

/-- Names of directories from the root, and last the name of an entry. -/
abbrev Route := List (List Char)

/-- Files and directories by their routes. Each entry lies in a directory of the store,
and the root is always a directory. -/
structure FileStore where
  entries : List (Route × FileEntry)

namespace FileStore

def empty : FileStore := ⟨[]⟩

def find? (store : FileStore) (route : Route) : Option FileEntry :=
  if route.isEmpty then some .directory
  else (store.entries.find? (·.1 == route)).map (·.2)

/-- Puts an entry in the place of what had its route. -/
def put (store : FileStore) (route : Route) (entry : FileEntry) : FileStore :=
  ⟨(route, entry) :: store.entries.filter (·.1 != route)⟩

/-- Adds a directory, if nothing has its route yet. -/
def ensureDirectory (store : FileStore) (route : Route) : FileStore :=
  if (store.find? route).isSome then store else store.put route .directory

/-- Puts an entry and the directories that lead to it. -/
def write (store : FileStore) (route : Route) (entry : FileEntry) : FileStore :=
  let holders := (List.range route.length).map route.take
  (holders.foldl ensureDirectory store).put route entry

/-- Removes an entry and, if it is a directory, all that is in it. -/
def remove (store : FileStore) (route : Route) : FileStore :=
  ⟨store.entries.filter fun entry => !route.isPrefixOf entry.1⟩

/-- Goes on from a route along the pieces of a path. Only a directory can be
gone on from. -/
def follow (store : FileStore) (route : Route) (entry : FileEntry) :
    List (List Char) → Except FileFault (Route × FileEntry)
  | [] => .ok (route, entry)
  | piece :: rest =>
    if entry ≠ .directory then .error .notDirectory
    else if piece = [] || piece = ['.'] then follow store route entry rest
    else if piece = ['.', '.'] then follow store route.dropLast .directory rest
    else
      match store.find? (route ++ [piece]) with
      | none => .error .notFound
      | some next => follow store (route ++ [piece]) next rest

/-- The route and entry that a path leads to. A relative path starts at `current`, and the
empty path leads nowhere. -/
def resolve (store : FileStore) (current : Route) (path : String) :
    Except FileFault (Route × FileEntry) :=
  if path = "" then .error .notFound
  else if Path.isAbsolute path then store.follow [] .directory (Path.pieces path)
  else
    match store.find? current with
    | none => .error .notFound
    | some entry => store.follow current entry (Path.pieces path)

/-- The store as seen from a current directory. -/
def files (store : FileStore) (current : Route) : Files :=
  ⟨fun path => (store.resolve current path).map (·.2)⟩

end FileStore

end GrammarInspector
