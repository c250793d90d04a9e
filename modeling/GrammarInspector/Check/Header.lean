import GrammarInspector.Check.Scope

/-!
Checks of what stands in front of the rules: the grammar's name, its sections and options,
and the files that it names.
-/

namespace GrammarInspector.Check

/-- A grammar has the name of its file. -/
def fileName (file : GrammarFile) : List Message :=
  match file.grammar.nameNode? with
  | none => []
  | some name =>
    if name.text = Path.stem file.fileName then []
    else [file.messageAtNode .fileAndGrammarNameDiffer name [name.text, file.fileName]]

/-- The kinds of sections that a grammar has at most once. -/
def isUnique : NodeKind → Bool
  | .options | .tokens | .channels | .imports => true
  | _ => false

/-- The nodes whose kind was already seen among `seen` or further in front. -/
def repetitions (seen : List NodeKind) : List Node → List Node
  | [] => []
  | node :: rest =>
    if seen.contains node.kind then node :: repetitions seen rest
    else repetitions (node.kind :: seen) rest

/-- No section is repeated. -/
def prequels (file : GrammarFile) : List Message :=
  let unique := file.grammar.tree.root.children.filter fun node => isUnique node.kind
  (repetitions [] unique).map (file.messageAtNode .repeatedPrequel · [])

def knownOptions : List String :=
  ["superClass", "contextSuperClass", "TokenLabelType", "tokenVocab", "language",
    "accessLevel", "exportMacro", "caseInsensitive"]

/-- Only known options are set. -/
def options (file : GrammarFile) : List Message :=
  (file.grammar.options.filter fun option => !knownOptions.contains option.1.text).map
    fun option => file.messageAtNode .illegalOption option.1 [option.1.text]

/-! ## Files that a grammar names -/

/-- Names from files, and what was found on the way. -/
structure Loaded where
  findings : Findings
  vocabulary : Vocabulary

/-- Loads what each of some nodes names. A name that leads to nothing is reported
as `missing`. -/
def loadEach (file : GrammarFile) (load? : String → Option (String × Vocabulary))
    (note : String) (missing : MessageKind) : List Node → Loaded
  | [] => ⟨.empty, .empty⟩
  | node :: rest =>
    let following := loadEach file load? note missing rest
    match load? node.text with
    | some (path, vocabulary) =>
      ⟨⟨[], [note ++ path]⟩ ++ following.findings, vocabulary ++ following.vocabulary⟩
    | none =>
      ⟨.ofMessages [file.messageAtNode missing node [node.text]] ++ following.findings,
        following.vocabulary⟩

/-- The directories where files that a grammar names are looked for: its own, then
the library. -/
def searchDirectories (file : GrammarFile) (library : Option String) : List String :=
  file.directory?.toList ++ library.toList

def vocabularies (files : Files) (library : Option String) (file : GrammarFile) :
    Loaded :=
  loadEach file (Vocabulary.loadTokens? files (searchDirectories file library))
    "loaded token vocabulary " .cannotFindTokensFile file.grammar.vocabularyNames

def imports (files : Files) (library : Option String) (file : GrammarFile) : Loaded :=
  loadEach file (Vocabulary.loadGrammar? files (searchDirectories file library))
    "loaded imported grammar " .cannotFindImportedGrammar file.grammar.importNames

end GrammarInspector.Check
