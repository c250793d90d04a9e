import GrammarInspector.Check.Emptiness
import GrammarInspector.Check.Header
import GrammarInspector.Check.References
import GrammarInspector.Check.Rules

/-!
All checks of a grammar file, in the order in which their messages are shown.
-/

namespace GrammarInspector.GrammarFile

/-- The names in scope of a grammar's rules, given those from elsewhere. -/
def scope (file : GrammarFile) (external : Vocabulary) : Scope :=
  ⟨file, file.grammar.tree.rules, external⟩

/-- What the checks find. The tree of a grammar with syntax errors is not complete, so it
is not checked. -/
def check (file : GrammarFile) (files : Files) (library : Option String) : Findings :=
  if !file.grammar.isWellFormed then .empty
  else
    let vocabularies := Check.vocabularies files library file
    let imports := Check.imports files library file
    let scope := file.scope (vocabularies.vocabulary ++ imports.vocabulary)
    .ofMessages (Check.fileName file ++ Check.prequels file ++ Check.options file) ++
      vocabularies.findings ++ imports.findings ++
      .ofMessages (Check.declarations scope ++ Check.references scope ++
        Check.labels scope ++ Check.commands file ++ Check.emptyMatches scope)

/-- All messages about a grammar file: its syntax errors, or what the checks find. -/
def inspect (file : GrammarFile) (files : Files) (library : Option String) : Findings :=
  .ofMessages file.syntaxMessages ++ file.check files library

end GrammarInspector.GrammarFile
