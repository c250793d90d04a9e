import GrammarInspector.Check.GrammarFile
import GrammarInspector.Text.Blank
import GrammarInspector.Text.Integer

/-!
Names that a grammar can use without declaring them: token vocabularies and imported
grammars.
-/

namespace GrammarInspector

/-- Names from elsewhere. -/
structure Vocabulary where
  tokens : List String
  /-- Quoted literals that stand for a token. -/
  literals : List String
  parserRules : List String
deriving Repr

namespace Vocabulary

def empty : Vocabulary := ⟨[], [], []⟩

def append (first second : Vocabulary) : Vocabulary :=
  ⟨first.tokens ++ second.tokens, first.literals ++ second.literals,
    first.parserRules ++ second.parserRules⟩

instance : Append Vocabulary := ⟨append⟩

/-! ## Lists of tokens -/

/-- What one line of a list of tokens declares: a name in front of the last equals sign,
if a number stands behind it. -/
def entryName? (line : List Char) : Option (List Char) :=
  match Text.cutLast? '=' (Text.trim line) with
  | none => none
  | some (name, number) =>
    if name.isEmpty || (Text.integer32? (Text.trim number)).isNone then none
    else some name

def isQuoted (name : List Char) : Bool := name.head? = some '\''

/-- The vocabulary of a list of tokens with lines `NAME=1` or `'literal'=2`. -/
def ofTokenList (text : String) : Vocabulary :=
  let names := (Text.lines text.toList).filterMap entryName?
  { tokens := (names.filter (!isQuoted ·)).map String.ofList
    literals := (names.filter isQuoted).map String.ofList
    parserRules := [] }

/-! ## Grammars -/

/-- The literal of a rule that is nothing else. -/
def soleLiteral? (rule : Tree) : Option String :=
  match rule.childOfKind? .block with
  | none => none
  | some block =>
    match block.children with
    | [alternative] =>
      match alternative.children with
      | [literal] =>
        if alternative.kind = .alternative &&
            literal.kind = .literal then some literal.text
        else none
      | _ => none
    | _ => none

def tokenRules (tree : Tree) : List Tree :=
  (tree.rules.map (·.tree)).filter fun rule => rule.isLexerRule && !rule.isFragment

def listedTokens (tree : Tree) : List String :=
  (tree.nodesOfKind .tokens).flatMap fun tokens => tokens.tree.children.map (·.text)

/-- What a grammar gives to those that use it. -/
def ofTree (tree : Tree) : Vocabulary :=
  { tokens := (tokenRules tree).filterMap (·.ruleName?) ++ listedTokens tree
    literals := (tokenRules tree).filterMap soleLiteral?
    parserRules :=
      (tree.rules.filter (!·.tree.isLexerRule)).filterMap (·.tree.ruleName?) }

/-! ## Looking for files -/

/-- The file of a name in the first of some directories that has it. -/
def findFile? (files : Files) (directories : List String) (name : String) :
    Option String :=
  (directories.map (Path.join · name)).find? files.isFile

def loadGrammar? (files : Files) (directories : List String) (name : String) :
    Option (String × Vocabulary) :=
  match findFile? files directories (name ++ ".g4") with
  | none => none
  | some path =>
    match files.read path with
    | .ok source => some (path, ofTree (Grammar.ofSource source).tree)
    | .error _ => none

/-- The token vocabulary of a name: a list of tokens, or else a grammar. A list of tokens
that cannot be read is not replaced by a grammar. -/
def loadTokens? (files : Files) (directories : List String) (name : String) :
    Option (String × Vocabulary) :=
  match findFile? files directories (name ++ ".tokens") with
  | none => loadGrammar? files directories name
  | some path =>
    match files.read path with
    | .ok text => some (path, ofTokenList text)
    | .error _ => none

end Vocabulary

end GrammarInspector
