import GrammarInspector.Text.Replace

/-!
Paths of files. A path is a text of pieces with slashes between them. Empty pieces, and
dots behind the first piece, name nothing.
-/

namespace GrammarInspector.Path

/-- The text of a path between its slashes. -/
def pieces (path : String) : List (List Char) := Text.cutAll '/' path.toList

def isAbsolute (path : String) : Bool := path.toList.head? = some '/'

/-- Drops the pieces at the end that name nothing. The pieces are given from the last to
the first, and the first piece of a path always stays: it is the root, a dot or a name. -/
def dropIdle : List (List Char) → List (List Char)
  | [] => []
  | [first] => [first]
  | piece :: rest => if piece = [] || piece = ['.'] then dropIdle rest else piece :: rest

/-- The pieces of a path from the last one that names something to the first. -/
def reversedPieces (path : String) : List (List Char) := dropIdle (pieces path).reverse

/-- The last piece of a path, if it is the name of a file or directory. -/
def fileName? (path : String) : Option String :=
  match reversedPieces path with
  | [] => none
  | last :: _ =>
    if last = [] || last = ['.'] || last = ['.', '.'] then none
    else some (String.ofList last)

/-- Pieces, the last first, put together to a path again. -/
def ofReversedPieces (pieces : List (List Char)) : String :=
  match pieces with
  | [[]] => "/"
  | _ => String.ofList (List.intercalate ['/'] pieces.reverse)

/-- The path without its last piece; nothing for the root and for the empty path. -/
def parent? (path : String) : Option String :=
  match reversedPieces path with
  | [] => none
  | [[]] => none
  | _ :: rest => some (ofReversedPieces (dropIdle rest))

/-- A path that starts at a directory. An absolute path stays as it is. -/
def join (directory path : String) : String :=
  if isAbsolute path || directory = "" then path
  else if directory.toList.getLast? = some '/' then directory ++ path
  else directory ++ "/" ++ path

/-- The name of a file without its extension. A dot in front starts no extension. -/
def stem (path : String) : String :=
  match fileName? path with
  | none => ""
  | some name =>
    match Text.cutLast? '.' name.toList with
    | some (before, _) => if before.isEmpty then name else String.ofList before
    | none => name

end GrammarInspector.Path
