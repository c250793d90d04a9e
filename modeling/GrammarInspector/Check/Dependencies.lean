import GrammarInspector.Check.Inspect

/-!
The files that an inspection can look at. Two views of the files that agree on them give
the same findings, so it is enough to read these.
-/

namespace GrammarInspector

namespace Files

/-- Whether two views lead to the same entries for some paths. -/
def AgreeOn (first second : Files) (paths : List String) : Prop :=
  ∀ path ∈ paths, first.entry path = second.entry path

end Files

namespace GrammarFile

/-- The paths where a file of a name is looked for. -/
def candidates (file : GrammarFile) (library : Option String) (name : String) :
    List String :=
  (Check.searchDirectories file library).map (Path.join · name)

/-- The paths where the token vocabulary of a name is looked for. -/
def vocabularyCandidates (file : GrammarFile) (library : Option String) (name : String) :
    List String :=
  file.candidates library (name ++ ".tokens") ++ file.candidates library (name ++ ".g4")

/-- The paths where the files that a grammar names are looked for. -/
def dependencies (file : GrammarFile) (library : Option String) : List String :=
  file.grammar.vocabularyNames.flatMap (file.vocabularyCandidates library ·.text) ++
    file.grammar.importNames.flatMap fun node =>
      file.candidates library (node.text ++ ".g4")

end GrammarFile

/-! ## Views that agree -/

namespace Vocabulary

theorem findFile?_congr {first second : Files} {directories : List String} {name : String}
    (agree : first.AgreeOn second (directories.map (Path.join · name))) :
    findFile? first directories name = findFile? second directories name := by
  induction directories with
  | nil => rfl
  | cons directory rest induction =>
    have here := agree (Path.join directory name) (by simp)
    have following :=
      induction fun path member => agree path (List.mem_cons_of_mem _ member)
    simp only [findFile?, List.map_cons, List.find?_cons, Files.isFile,
      here] at following ⊢
    rw [following]

/-- The file that is found is one of the candidates, so both views read the
same from it. -/
theorem read_findFile? {first second : Files} {directories : List String}
    {name path : String}
    (agree : first.AgreeOn second (directories.map (Path.join · name)))
    (found : findFile? second directories name = some path) :
    first.read path = second.read path := by
  simp only [Files.read, agree path (List.mem_of_find?_eq_some found)]

theorem loadGrammar?_congr {first second : Files} {directories : List String}
    {name : String}
    (agree : first.AgreeOn second (directories.map (Path.join · (name ++ ".g4")))) :
    loadGrammar? first directories name = loadGrammar? second directories name := by
  unfold loadGrammar?
  rw [findFile?_congr agree]
  split
  · rfl
  · next path found => rw [read_findFile? agree found]

theorem loadTokens?_congr {first second : Files} {directories : List String}
    {name : String}
    (lists : first.AgreeOn second (directories.map (Path.join · (name ++ ".tokens"))))
    (grammars : first.AgreeOn second (directories.map (Path.join · (name ++ ".g4")))) :
    loadTokens? first directories name = loadTokens? second directories name := by
  unfold loadTokens?
  rw [findFile?_congr lists]
  split
  · exact loadGrammar?_congr grammars
  · next path found => rw [read_findFile? lists found]

end Vocabulary

namespace Check

theorem loadEach_congr {file : GrammarFile} {note : String} {missing : MessageKind}
    {first second : String → Option (String × Vocabulary)} {nodes : List Node}
    (agree : ∀ node ∈ nodes, first node.text = second node.text) :
    loadEach file first note missing nodes = loadEach file second note missing nodes := by
  induction nodes with
  | nil => rfl
  | cons node rest induction =>
    have following :=
      induction fun other member => agree other (List.mem_cons_of_mem _ member)
    simp only [loadEach, agree node List.mem_cons_self, following]

end Check

namespace GrammarFile

theorem check_congr {file : GrammarFile} {first second : Files} {library : Option String}
    (agree : first.AgreeOn second (file.dependencies library)) :
    file.check first library = file.check second library := by
  have vocabularies : Check.vocabularies first library file =
      Check.vocabularies second library file :=
    Check.loadEach_congr fun node member =>
      Vocabulary.loadTokens?_congr
        (fun path candidate => agree path (List.mem_append_left _ (List.mem_flatMap.mpr
          ⟨node, member, List.mem_append_left _ candidate⟩)))
        (fun path candidate => agree path (List.mem_append_left _ (List.mem_flatMap.mpr
          ⟨node, member, List.mem_append_right _ candidate⟩)))
  have imports : Check.imports first library file = Check.imports second library file :=
    Check.loadEach_congr fun node member =>
      Vocabulary.loadGrammar?_congr fun path candidate =>
        agree path (List.mem_append_right _
          (List.mem_flatMap.mpr ⟨node, member, candidate⟩))
  simp only [check, vocabularies, imports]

/-- An inspection looks at nothing but the dependencies. -/
theorem inspect_congr {file : GrammarFile} {first second : Files}
    {library : Option String} (agree : first.AgreeOn second (file.dependencies library)) :
    file.inspect first library = file.inspect second library := by
  simp only [inspect, check_congr agree]

end GrammarFile

end GrammarInspector
