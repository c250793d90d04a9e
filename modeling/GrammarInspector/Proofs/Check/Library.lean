import Mathlib.Data.List.Basic
import GrammarInspector.Check.Dependencies

/-! # The library directory

The files that a grammar names are looked for in its own directory and then in the
library. So a library changes nothing where the own directory has them all, with one
exception: a list of tokens is preferred to a grammar wherever it is, and one in the
library is taken in place of a grammar beside the own one.
-/

namespace GrammarInspector

open List

/-! ## Paths -/

/-- A path that starts at a directory ends as it did before. -/
theorem Path.exists_join (directory path : String) :
    ∃ front, (join directory path).toList = front ++ path.toList := by
  unfold join
  split
  · exact ⟨[], rfl⟩
  · split
    · exact ⟨directory.toList, String.toList_append⟩
    · exact ⟨(directory ++ "/").toList, String.toList_append⟩

namespace Vocabulary

variable {files : Files} {directories further : List String} {name path other : String}

/-! ## Where files are found -/

theorem findFile?_append (files : Files) (directories further : List String)
    (name : String) :
    findFile? files (directories ++ further) name =
      (findFile? files directories name).or (findFile? files further name) := by
  rw [findFile?, map_append, find?_append]
  rfl

theorem findFile?_eq_none_iff : findFile? files directories name = none ↔
      ∀ directory ∈ directories, files.isFile (Path.join directory name) = false := by
  rw [findFile?, find?_eq_none, forall_mem_map]
  simp only [Bool.not_eq_true]

/-- A file that is found ends like the name that was looked for. -/
theorem getLast?_of_findFile? {ending : String} {last : Char}
    (ends : ending.toList.getLast? = some last)
    (found : findFile? files directories (name ++ ending) = some path) :
    path.toList.getLast? = some last := by
  obtain ⟨directory, _, rfl⟩ := mem_map.mp (mem_of_find?_eq_some found)
  obtain ⟨front, equal⟩ := Path.exists_join directory (name ++ ending)
  rw [equal, String.toList_append, getLast?_append, getLast?_append, ends]
  rfl

/-- A grammar that is found stays the same with more directories behind. -/
theorem loadGrammar?_append
    (found : (loadGrammar? files directories name).isSome = true) :
    loadGrammar? files (directories ++ further) name =
      loadGrammar? files directories name := by
  unfold loadGrammar? at found ⊢
  rw [findFile?_append]
  cases here : findFile? files directories (name ++ ".g4") with
  | none =>
    rw [here] at found
    cases found
  | some path => rfl

/-- So does a token vocabulary, unless the directories behind have a list of tokens that
was missing. -/
theorem loadTokens?_append (found : (loadTokens? files directories name).isSome = true)
    (noList : findFile? files directories (name ++ ".tokens") = none →
      findFile? files further (name ++ ".tokens") = none) :
    loadTokens? files (directories ++ further) name =
      loadTokens? files directories name := by
  unfold loadTokens? at found ⊢
  rw [findFile?_append]
  cases here : findFile? files directories (name ++ ".tokens") with
  | none =>
    rw [here] at found
    rw [noList here]
    exact loadGrammar?_append found
  | some path => rfl

theorem getLast?_of_loadGrammar? {vocabulary : Vocabulary}
    (loaded : loadGrammar? files directories name = some (path, vocabulary)) :
    path.toList.getLast? = some '4' := by
  unfold loadGrammar? at loaded
  cases found : findFile? files directories (name ++ ".g4") with
  | none =>
    rw [found] at loaded
    cases loaded
  | some place =>
    simp only [found] at loaded
    split at loaded
    · cases loaded
      exact getLast?_of_findFile? (by decide) found
    · cases loaded

/-- Such a list of tokens is taken in place of the grammar, or there is nothing if it
cannot be read. -/
theorem loadTokens?_append_ne {loaded : Vocabulary}
    (own : findFile? files directories (name ++ ".tokens") = none)
    (list : findFile? files further (name ++ ".tokens") = some other)
    (found : loadTokens? files directories name = some (path, loaded)) :
    (loadTokens? files (directories ++ further) name).map (·.1) ≠ some path := by
  have grammar : path.toList.getLast? = some '4' := by
    rw [loadTokens?, own] at found
    exact getLast?_of_loadGrammar? found
  have tokens : other.toList.getLast? = some 's' := getLast?_of_findFile? (by decide) list
  rw [loadTokens?, findFile?_append, own, list, Option.none_or]
  intro same
  simp only at same
  split at same
  · cases same
    rw [grammar] at tokens
    exact absurd tokens (by decide)
  · cases same

end Vocabulary

/-! ## What is loaded -/

namespace Check

variable {file : GrammarFile} {load? : String → Option (String × Vocabulary)}
  {note : String} {missing : MessageKind} {nodes : List Node}

/-- There is a note for each name that leads to a file. -/
theorem notes_loadEach : (loadEach file load? note missing nodes).findings.notes =
      nodes.filterMap fun node => (load? node.text).map (note ++ ·.1) := by
  induction nodes with
  | nil => rfl
  | cons node rest induction =>
    rw [loadEach, filterMap_cons]
    split
    · next path vocabulary found =>
      rw [found, ← induction]
      rfl
    · next found =>
      rw [found, ← induction]
      rfl

theorem messages_loadEach : (loadEach file load? note missing nodes).findings.messages =
      (nodes.filter fun node => (load? node.text).isNone).map fun node =>
        file.messageAtNode missing node [node.text] := by
  induction nodes with
  | nil => rfl
  | cons node rest induction =>
    rw [loadEach, filter_cons]
    split
    · next path vocabulary found =>
      rw [found]
      exact induction
    · next found =>
      rw [found]
      exact congrArg (file.messageAtNode missing node [node.text] :: ·) induction

/-- Without messages every name leads to a file. -/
theorem isSome_of_complete
    (complete : ∀ message ∈ (loadEach file load? note missing nodes).findings.messages,
      message.kind ≠ missing) :
    ∀ node ∈ nodes, (load? node.text).isSome = true := by
  intro node member
  by_contra absent
  rw [messages_loadEach] at complete
  refine complete (file.messageAtNode missing node [node.text]) (mem_map_of_mem ?_) rfl
  rw [mem_filter]
  exact ⟨member, by simpa using absent⟩

/-- Names that all lead to files lead to the same paths if the notes about them
are the same. -/
theorem paths_of_notes {other? : String → Option (String × Vocabulary)}
    (found : ∀ node ∈ nodes, (load? node.text).isSome = true)
    (also : ∀ node ∈ nodes, (other? node.text).isSome = true)
    (notes : (loadEach file load? note missing nodes).findings.notes =
      (loadEach file other? note missing nodes).findings.notes) :
    ∀ node ∈ nodes, (load? node.text).map (·.1) = (other? node.text).map (·.1) := by
  rw [notes_loadEach, notes_loadEach] at notes
  induction nodes with
  | nil => exact fun _ member => nomatch member
  | cons node rest induction =>
    rw [forall_mem_cons] at found also
    obtain ⟨entry, here⟩ := Option.isSome_iff_exists.mp found.1
    obtain ⟨entry', here'⟩ := Option.isSome_iff_exists.mp also.1
    rw [filterMap_cons, filterMap_cons, here, here'] at notes
    obtain ⟨first, following⟩ := List.cons.inj notes
    refine forall_mem_cons.mpr ⟨?_, induction found.2 also.2 following⟩
    rw [here, here', Option.map_some, Option.map_some,
      String.append_right_inj note |>.mp first]

end Check

/-! ## Findings -/

namespace GrammarFile

variable {file : GrammarFile} {files : Files} {library : String} {place : Option String}

/-- Whether the library has the list of tokens of a name and the grammar's own
directory does not. -/
def PrefersLibrary (file : GrammarFile) (files : Files) (library name : String) : Prop :=
  files.isFile (Path.join library (name ++ ".tokens")) = true ∧
    ∀ directory ∈ file.directory?,
      files.isFile (Path.join directory (name ++ ".tokens")) = false

instance (file : GrammarFile) (files : Files) (library name : String) :
    Decidable (file.PrefersLibrary files library name) :=
  inferInstanceAs (Decidable (_ ∧ _))

/-- Whether an inspection finds all files that the grammar names. -/
def Complete (file : GrammarFile) (files : Files) (library : Option String) : Prop :=
  ∀ message ∈ (file.inspect files library).messages,
    message.kind ≠ .cannotFindTokensFile ∧ message.kind ≠ .cannotFindImportedGrammar

instance (file : GrammarFile) (files : Files) (library : Option String) :
    Decidable (file.Complete files library) :=
  inferInstanceAs (Decidable (∀ message ∈ _, _))

theorem notes_inspect (wellFormed : file.grammar.isWellFormed = true) :
    (file.inspect files place).notes =
      (Check.vocabularies files place file).findings.notes ++
        (Check.imports files place file).findings.notes := by
  rw [inspect, check, wellFormed]
  exact append_nil _

theorem mem_messages_inspect (wellFormed : file.grammar.isWellFormed = true)
    {message : Message}
    (member : message ∈ (Check.vocabularies files place file).findings.messages ∨
      message ∈ (Check.imports files place file).findings.messages) :
    message ∈ (file.inspect files place).messages := by
  rw [inspect, check, wellFormed, Bool.not_true, if_neg Bool.false_ne_true]
  simp only [Findings.messages_append, mem_append]
  exact .inr (.inl (member.elim (fun first => .inl (.inr first)) .inr))

theorem vocabulary_of_complete (wellFormed : file.grammar.isWellFormed = true)
    (complete : file.Complete files place) :
    ∀ node ∈ file.grammar.vocabularyNames,
      (Vocabulary.loadTokens? files (Check.searchDirectories file place)
        node.text).isSome = true :=
  have quiet : ∀ message ∈ (Check.vocabularies files place file).findings.messages,
      message.kind ≠ .cannotFindTokensFile := fun message member =>
    (complete message (mem_messages_inspect wellFormed (.inl member))).1
  Check.isSome_of_complete quiet

theorem import_of_complete (wellFormed : file.grammar.isWellFormed = true)
    (complete : file.Complete files place) :
    ∀ node ∈ file.grammar.importNames,
      (Vocabulary.loadGrammar? files (Check.searchDirectories file place)
        node.text).isSome = true :=
  have quiet : ∀ message ∈ (Check.imports files place file).findings.messages,
      message.kind ≠ .cannotFindImportedGrammar := fun message member =>
    (complete message (mem_messages_inspect wellFormed (.inr member))).2
  Check.isSome_of_complete quiet

/-- A library comes behind the grammar's own directory. -/
theorem searchDirectories_library (file : GrammarFile) (library : String) :
    Check.searchDirectories file (some library) = Check.searchDirectories file none ++
      [library] := by
  simp only [Check.searchDirectories, Option.toList_some, Option.toList_none, append_nil]

theorem prefersLibrary_iff {name : String} : file.PrefersLibrary files library name ↔
      Vocabulary.findFile? files (Check.searchDirectories file none)
        (name ++ ".tokens") = none ∧
        Vocabulary.findFile? files [library] (name ++ ".tokens") ≠ none := by
  rw [PrefersLibrary, and_comm, Ne, Vocabulary.findFile?_eq_none_iff,
    Vocabulary.findFile?_eq_none_iff, forall_mem_singleton, Bool.not_eq_false]
  simp only [Check.searchDirectories, Option.toList_none, append_nil, Option.mem_toList,
    Option.mem_def]

theorem imports_library (wellFormed : file.grammar.isWellFormed = true)
    (complete : file.Complete files none) :
    Check.imports files (some library) file = Check.imports files none file := by
  refine Check.loadEach_congr fun node member => ?_
  rw [searchDirectories_library]
  exact Vocabulary.loadGrammar?_append
    (import_of_complete wellFormed complete node member)

/-- Token vocabularies stay the same where the library is preferred for none of them. -/
theorem vocabularies_library (wellFormed : file.grammar.isWellFormed = true)
    (complete : file.Complete files none)
    (own : ∀ node ∈ file.grammar.vocabularyNames,
      ¬file.PrefersLibrary files library node.text) :
    Check.vocabularies files (some library) file =
      Check.vocabularies files none file := by
  refine Check.loadEach_congr fun node member => ?_
  rw [searchDirectories_library]
  refine Vocabulary.loadTokens?_append
    (vocabulary_of_complete wellFormed complete node member) ?_
  intro missing
  by_contra found
  exact own node member (prefersLibrary_iff.mpr ⟨missing, found⟩)

/-- Where it is preferred for one, the findings show it: the note about that vocabulary
has another path. -/
theorem not_prefersLibrary (wellFormed : file.grammar.isWellFormed = true)
    (complete : file.Complete files none)
    (same : file.inspect files (some library) = file.inspect files none) :
    ∀ node ∈ file.grammar.vocabularyNames,
      ¬file.PrefersLibrary files library node.text := by
  intro node member preferred
  have complete' : file.Complete files (some library) := by
    rw [Complete, same]
    exact complete
  have own := vocabulary_of_complete wellFormed complete
  -- Imports leave the same notes with and without the library, so the
  -- vocabularies do as well.
  have notes : (Check.vocabularies files (some library) file).findings.notes =
      (Check.vocabularies files none file).findings.notes := by
    have all := congrArg Findings.notes same
    rw [notes_inspect wellFormed, notes_inspect wellFormed,
      imports_library wellFormed complete] at all
    exact append_cancel_right all
  have paths := Check.paths_of_notes (vocabulary_of_complete wellFormed complete') own
      notes node member
  obtain ⟨missing, found⟩ := prefersLibrary_iff.mp preferred
  obtain ⟨other, list⟩ := Option.ne_none_iff_exists'.mp found
  obtain ⟨entry, loaded⟩ := Option.isSome_iff_exists.mp (own node member)
  -- One path ends with `.g4` and the other one with `.tokens`.
  rw [loaded, searchDirectories_library] at paths
  exact Vocabulary.loadTokens?_append_ne missing list loaded paths

/-- Suppose that an inspection finds all files that a grammar names without a library. A
library then changes the findings exactly if it is preferred for one of the token
vocabularies; no other file in it has an influence. A grammar with syntax errors is not
checked, so no library matters to it. -/
theorem inspect_library_iff (file : GrammarFile) (files : Files) (library : String)
    (complete : file.Complete files none) :
    file.inspect files (some library) = file.inspect files none ↔
      (file.grammar.isWellFormed = true →
        ∀ node ∈ file.grammar.vocabularyNames,
          ¬file.PrefersLibrary files library node.text) := by
  cases wellFormed : file.grammar.isWellFormed with
  | false =>
    refine iff_of_true ?_ (fun holds => nomatch holds)
    rw [inspect, inspect, check, check, wellFormed]
    rfl
  | true =>
    refine ⟨fun same _ => not_prefersLibrary wellFormed complete same, fun own => ?_⟩
    simp only [inspect, check, imports_library wellFormed complete,
      vocabularies_library wellFormed complete (own rfl)]

def parserSource : String := "parser grammar P;\noptions { tokenVocab = L; }\nr : A ;\n"

/-- Files with a lexer grammar beside the parser grammar that uses it, with another lexer
grammar of that name in `spare` and with a list of tokens of that name in `lib`. -/
def lexerBeside : Files :=
  let own :=
    (FileStore.empty.write ["P.g4".toList] (.text parserSource)).write ["L.g4".toList]
    (.text "lexer grammar L;\nA : 'a' ;\n")
  let spare :=
    own.write ["spare".toList, "L.g4".toList] (.text "lexer grammar L;\nB : 'b' ;\n")
  (spare.write ["lib".toList, "L.tokens".toList] (.text "B=1\n")).files []

def parserBeside : GrammarFile := ⟨"P.g4", some "P.g4", .ofSource parserSource⟩

/-- Another grammar in the library is not looked at, a list of tokens there is. -/
theorem inspect_library_iff_beside : parserBeside.Complete lexerBeside none ∧
      parserBeside.inspect lexerBeside (some "spare") =
        parserBeside.inspect lexerBeside none ∧
      parserBeside.inspect lexerBeside (some "lib") ≠
        parserBeside.inspect lexerBeside none := by
  have complete : parserBeside.Complete lexerBeside none := by decide +kernel
  have spare : ∀ node ∈ parserBeside.grammar.vocabularyNames,
      ¬parserBeside.PrefersLibrary lexerBeside "spare" node.text := by decide +kernel
  have lib : ¬(parserBeside.grammar.isWellFormed = true →
      ∀ node ∈ parserBeside.grammar.vocabularyNames,
        ¬parserBeside.PrefersLibrary lexerBeside "lib" node.text) := by decide +kernel
  exact ⟨complete, (inspect_library_iff _ _ "spare" complete).mpr fun _ => spare,
    mt (inspect_library_iff _ _ "lib" complete).mp lib⟩

/-- All that the parser grammar names is beside it, and still the library `lib` changes
the findings: the token `A` of the lexer grammar is no longer known. -/
theorem library_list_hides_lexer : parserBeside.Complete lexerBeside none ∧
      (parserBeside.inspect lexerBeside none).messages = [] ∧
      (parserBeside.inspect lexerBeside none).notes = ["loaded token vocabulary L.g4"] ∧
      ((parserBeside.inspect lexerBeside (some "lib")).messages.map fun message =>
        (message.kind, message.arguments)) = [(.implicitTokenDefinition, ["A"])] ∧
      (parserBeside.inspect lexerBeside (some "lib")).notes =
        ["loaded token vocabulary lib/L.tokens"] := by
  decide +kernel

end GrammarFile

end GrammarInspector
