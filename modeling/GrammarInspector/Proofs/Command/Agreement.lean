import GrammarInspector.Command.Check
import GrammarInspector.Proofs.Check.Pointing
import GrammarInspector.Proofs.Editor.History
import Mathlib.Data.List.Forall2

/-! # The editor and the command line agree

What an editor is sent about a document is what a check of its file prints, message by
message: the same number, severity and text at the same place. The check of several files
is the checks of each of them, one behind the other.
-/

namespace GrammarInspector

open List

open Editor (Diagnostic Publication Session Step)

open GrammarFile (load)

/-! ## Single messages -/

/-- Whether a printed object tells the same as a diagnostic. The object counts lines from
one, and the diagnostic ends behind the label, on the line where it starts. -/
structure Editor.Diagnostic.IsShownBy (diagnostic : Diagnostic)
    (object : Json) : Prop where
  code : object.field? "code" = some (.natural diagnostic.code)
  severity : object.field? "severity" = some (.text diagnostic.severity.name)
  message : object.field? "message" = some (.text diagnostic.text)
  start : object.field? "line" = some (.natural (diagnostic.range.start.line + 1)) ∧
    object.field? "column" = some (.natural diagnostic.range.start.character)
  stop : ∃ (span : Json) (label : Option String), object.field? "spans" =
      some (.list [span]) ∧
    span.field? "label" = some (.orNull (label.map .text)) ∧
    diagnostic.range.stop = ⟨diagnostic.range.start.line,
      diagnostic.range.start.character +
      (label.map fun label => Text.utf16Length label.toList).getD 0⟩

theorem Finding.isShownBy_json (path : String) {message : Message}
    (placed : 1 ≤ message.position.line) :
    (Diagnostic.ofMessage message).IsShownBy (Finding.about path message).json where
  code := rfl
  severity := rfl
  message := rfl
  start := by
    refine ⟨?_, rfl⟩
    change some (Json.natural message.position.line) =
      some (Json.natural (message.position.line - 1 + 1))
    rw [Nat.sub_add_cancel placed]
  stop := by
    refine ⟨spanJson message, message.arguments.head?, rfl, rfl, ?_⟩
    cases arguments : message.arguments with
    | nil =>
      simp [Diagnostic.ofMessage, Diagnostic.rangeOf, Editor.Range.ofLength,
        Message.argument, arguments, Text.utf16Length]
    | cons first rest =>
      simp [Diagnostic.ofMessage, Diagnostic.rangeOf, Editor.Range.ofLength,
        Message.argument, arguments]

/-! ## Checks -/

namespace CheckRequest

theorem findings_eq (request : CheckRequest) (files : Files) :
    request.findings files = request.paths.flatMap fun path =>
      (CheckedFile.ofPath files request.library path).findings := by
  rw [findings, checked, flatMap_map]

theorem output_of_json {request : CheckRequest} (json : request.json = true)
    (files : Files) :
    request.output files = (request.findings files).map fun finding =>
      .value finding.json := by
  simp only [output, json, if_true, findings, map_flatMap]
  rfl

theorem mem_findings_iff {request : CheckRequest} {files : Files} {finding : Finding} :
    finding ∈ request.findings files ↔ ∃ path ∈ request.paths,
      (∃ fault, load files path = .error fault ∧ finding = .unreadable path fault) ∨
      ∃ file, load files path = .ok file ∧
        ∃ message ∈ (file.inspect files request.library).messages,
          finding = .about path message := by
  rw [findings_eq, mem_flatMap]
  apply exists_congr
  intro path
  apply and_congr_right
  intro _
  cases loaded : load files path with
  | error fault => simp [CheckedFile.ofPath, loaded]
  | ok file => simp [CheckedFile.ofPath, loaded, eq_comm]

end CheckRequest

/-- A check fails if and only if it finds an error. That a file cannot be read
counts as one. -/
theorem Summary.failed_ofFindings (findings : List Finding) :
    (ofFindings findings).failed = true ↔ ∃ finding ∈ findings,
      finding.severity = .error := by
  rw [failed, Bool.or_eq_true, decide_eq_true_eq, decide_eq_true_eq,
    ofFindings, gt_iff_lt, gt_iff_lt, countP_pos_iff, countP_pos_iff]
  constructor
  · rintro (⟨finding, member, isError⟩ | ⟨finding, member, noCode⟩)
    · exact ⟨finding, (mem_filter.mp member).1, of_decide_eq_true isError⟩
    · cases finding with
      | unreadable path fault => exact ⟨_, member, rfl⟩
      | about path message => cases noCode
  · rintro ⟨finding, member, isError⟩
    cases finding with
    | unreadable path fault => exact Or.inr ⟨_, member, rfl⟩
    | about path message =>
      exact Or.inl ⟨_, mem_filter.mpr ⟨member, rfl⟩, decide_eq_true isError⟩

theorem CheckRequest.exitCode_eq_one_iff (request : CheckRequest) (files : Files) :
    request.exitCode files = 1 ↔ ∃ path ∈ request.paths,
      (∃ fault, load files path = .error fault) ∨
      ∃ file, load files path = .ok file ∧
        ∃ message ∈ (file.inspect files request.library).messages,
          message.severity = .error := by
  have exits : request.exitCode files = 1 ↔ ∃ finding ∈ request.findings files,
      finding.severity = .error := by
    rw [← Summary.failed_ofFindings, exitCode, summary]
    split <;> simp_all
  rw [exits]
  constructor
  · rintro ⟨finding, member, isError⟩
    obtain ⟨path, named, found⟩ := mem_findings_iff.mp member
    refine ⟨path, named, ?_⟩
    rcases found with ⟨fault, missing, _⟩ | ⟨file, loaded, message, reported, rfl⟩
    · exact Or.inl ⟨fault, missing⟩
    · exact Or.inr ⟨file, loaded, message, reported, isError⟩
  · rintro ⟨path, named, ⟨fault, missing⟩ | ⟨file, loaded, message, reported, isError⟩⟩
    · exact ⟨_, mem_findings_iff.mpr ⟨path, named, Or.inl ⟨fault, missing, rfl⟩⟩, rfl⟩
    · exact ⟨_, mem_findings_iff.mpr
        ⟨path, named, Or.inr ⟨file, loaded, message, reported, rfl⟩⟩, isError⟩

theorem CheckRequest.output_eq_flatMap {request : CheckRequest}
    (json : request.json = true) (files : Files) :
    request.output files = request.paths.flatMap fun path =>
      { request with paths := [path] }.output files := by
  simp only [output_of_json, json, findings_eq, map_flatMap, flatMap_cons, flatMap_nil,
    append_nil]

/-! ## Documents -/

/-- Whether the diagnostics of a document are what a check of its file prints. A document
that is no file, or whose file cannot be read, has none, and the check prints an object
without a number then. -/
structure Uri.AgreesWithCheck (uri : Uri) (files : Files) (library : Option String)
    (diagnostics : List Diagnostic) : Prop where
  readable : ∀ path file color, uri.filePath? = some path → load files path = .ok file →
    Forall₂ (fun diagnostic output =>
      ∃ object, output = Output.value object ∧ diagnostic.IsShownBy object)
      diagnostics (CheckRequest.output ⟨[path], true, color, library⟩ files)
  unreadable : ∀ path fault color, uri.filePath? = some path →
    load files path = .error fault → diagnostics = [] ∧
      ∃ object, CheckRequest.output ⟨[path], true, color, library⟩ files =
        [.value object] ∧
        object.field? "code" = some .null
  elsewhere : uri.filePath? = none → diagnostics = []

theorem Uri.agreesWithCheck (uri : Uri) (files : Files) (workspace : Editor.Workspace) :
    uri.AgreesWithCheck files workspace.library (workspace.diagnostics files uri) where
  readable path file color named loaded := by
    have found :
        uri.load? files = some file := by simp [load?, named, loaded, Except.toOption]
    have checked : CheckedFile.ofPath files workspace.library path = ⟨file.grammar.source,
        (file.inspect files workspace.library).messages.map (.about path)⟩ := by
      rw [CheckedFile.ofPath, loaded]
    rw [Editor.Workspace.diagnostics, found, CheckRequest.output_of_json rfl,
      CheckRequest.findings_eq, flatMap_singleton, checked, map_map,
      forall₂_map_left_iff, forall₂_map_right_iff, forall₂_same]
    intro message member
    obtain ⟨_, _, isSource⟩ := GrammarFile.exists_source loaded
    have points :=
      GrammarFile.allPoint_inspect isSource files workspace.library message member
    exact ⟨_, rfl, Finding.isShownBy_json path points.one_le_line⟩
  unreadable path fault color named missing := by
    have nothing :
        uri.load? files = none := by simp [load?, named, missing, Except.toOption]
    have checked : CheckedFile.ofPath files workspace.library path =
        ⟨"", [.unreadable path fault]⟩ := by rw [CheckedFile.ofPath, missing]
    rw [Editor.Workspace.diagnostics, nothing, CheckRequest.output_of_json rfl,
      CheckRequest.findings_eq, flatMap_singleton, checked]
    exact ⟨rfl, _, rfl, rfl⟩
  elsewhere unnamed := by
    have nothing : uri.load? files = none := by simp [load?, unnamed]
    rw [Editor.Workspace.diagnostics, nothing]

/-! ## Sessions -/

namespace Editor

namespace Workspace

theorem library_refresh (workspace : Workspace) (files : Files) (uri : Uri) :
    (workspace.refresh files uri).library = workspace.library := by
  unfold refresh
  split <;> rfl

theorem library_inspect (workspace : Workspace) (files : Files) (uri : Uri) :
    (workspace.inspect files uri).1.library = workspace.library := by
  unfold inspect
  split
  · exact library_refresh workspace files uri
  · rfl

theorem library_ask (workspace : Workspace) (files : Files) (uri : Uri) (query : Query)
    (place : Place) :
    (workspace.ask files uri query place).1.library = workspace.library := by
  rw [ask_workspace]
  split
  · rfl
  · exact library_refresh workspace files uri

end Workspace

/-- The document that a step has inspected. -/
def Step.inspected? : Step → Option Uri
  | .opened uri | .saved uri => some uri
  | _ => none

theorem Step.inspected?_eq_some_iff {step : Step} {uri : Uri} :
    step.inspected? = some uri ↔ step = .opened uri ∨ step = .saved uri := by
  cases step <;> simp [inspected?]

namespace Session

/-- What a step of a run sends to the editor. -/
def published? (session : Session) (steps : List Step) (position : Nat) :
    Option (List Publication) :=
  (session.run steps)[position]?.map Outcome.published

theorem library_step (session : Session) (step : Step) :
    (session.step step).1.workspace.library = session.workspace.library := by
  cases step with
  | opened uri => exact Workspace.library_inspect ..
  | saved uri => exact Workspace.library_inspect ..
  | ask uri query place => exact Workspace.library_ask ..
  | _ => rfl

theorem library_after (session : Session) (steps : List Step) :
    (session.after steps).workspace.library = session.workspace.library := by
  induction steps generalizing session with
  | nil => rfl
  | cons step rest induction => exact (induction _).trans (library_step session step)

theorem published_step (session : Session) (step : Step) :
    (session.step step).2.published =
      if session.workspace.connected then step.inspected?.toList.map fun uri =>
        ⟨uri, session.workspace.diagnostics session.files uri⟩
      else [] := by
  have inspected (uri : Uri) : (session.inspect uri).2.published =
      if session.workspace.connected then
        [⟨uri, session.workspace.diagnostics session.files uri⟩] else [] := by
    change (session.workspace.inspect session.files uri).2 = _
    unfold Workspace.inspect
    split <;> rfl
  cases step with
  | opened uri => exact inspected uri
  | saved uri => exact inspected uri
  | _ => exact (ite_self _).symm

end Session

end Editor

/-- An editor that is connected is sent one list of diagnostics whenever a document is
opened or saved, and nothing else is ever sent. The diagnostics are what a check of the
document's file prints at that time. A check exits with one if and only if some file
cannot be read or has an error, and it prints what it prints for each file alone. -/
theorem Editor.Session.published_agrees_check (library : Option String) :
    (∀ (store : FileStore) (current : Route) (steps rest : List Step) (step : Step),
      ∃ published, (start store current library).published?
          (steps ++ step :: rest) steps.length = some published ∧
        (∀ uri, step = .opened uri ∨ step = .saved uri → steps.any Step.isConnect = true →
          ∃ diagnostics, published = [⟨uri, diagnostics⟩] ∧
            uri.AgreesWithCheck ((start store current library).after steps).files library
              diagnostics) ∧
        (published ≠ [] → steps.any Step.isConnect = true ∧
          ∃ uri, step = .opened uri ∨ step = .saved uri)) ∧
      ∀ (files : Files) (paths : List String) (color : Bool),
        (∀ json, CheckRequest.exitCode ⟨paths, json, color, library⟩ files = 1 ↔
          ∃ path ∈ paths, (∃ fault, load files path = .error fault) ∨
            ∃ file, load files path = .ok file ∧
              ∃ message ∈ (file.inspect files library).messages,
                message.severity = .error) ∧
        CheckRequest.output ⟨paths, true, color, library⟩ files =
          paths.flatMap fun path =>
            CheckRequest.output ⟨[path], true, color, library⟩ files := by
  refine ⟨?_, ?_⟩
  · intro store current steps rest step
    let session := (start store current library).after steps
    have connected : session.workspace.connected = steps.any Step.isConnect :=
      ((follows_start store current library).after steps).connected
    have sameLibrary : session.workspace.library = library :=
      library_after (start store current library) steps
    refine ⟨(session.step
      step).2.published, by rw [published?, getElem?_run, Option.map_some], ?_⟩
    rw [published_step, connected]
    refine ⟨?_, ?_⟩
    · intro uri ofUri isConnected
      rw [isConnected, if_pos rfl, Step.inspected?_eq_some_iff.mpr ofUri]
      have agrees := uri.agreesWithCheck session.files session.workspace
      rw [sameLibrary] at agrees
      exact ⟨_, rfl, agrees⟩
    · intro sent
      split at sent
      · next isConnected =>
        refine ⟨isConnected, ?_⟩
        cases inspected : step.inspected? with
        | none => simp [inspected] at sent
        | some uri => exact ⟨uri, Step.inspected?_eq_some_iff.mp inspected⟩
      · exact absurd rfl sent
  · intro files paths color
    exact ⟨fun json => CheckRequest.exitCode_eq_one_iff _ files,
      CheckRequest.output_eq_flatMap rfl files⟩

/-- A document with a syntax error: what the editor is sent and what the check prints. -/
theorem Editor.Session.published_agrees_check_faulty :
    ∃ (store : FileStore) (uri : Uri) (diagnostic : Diagnostic) (object : Json),
      uri.text = "file:///A.g4" ∧
      (start store [] none).published? [.connect, .opened uri] 1 =
        some [⟨uri, [diagnostic]⟩] ∧
      CheckRequest.output ⟨["/A.g4"], true, false, none⟩ (store.files []) =
        [.value object] ∧
      diagnostic.IsShownBy object ∧
      CheckRequest.exitCode ⟨["/A.g4", "/B.g4"], true, false, none⟩
        (store.files []) = 1 := by
  let store := FileStore.empty.write ["A.g4".toList] (.text "grammar A; a : ( ;")
  let uri : Uri := ⟨"file", some ⟨none, "", none⟩, .segments ["A.g4"], none, none⟩
  obtain ⟨runs, checks⟩ := published_agrees_check none
  obtain ⟨published, isPublished, sent, _⟩ := runs store [] [.connect] [] (.opened uri)
  obtain ⟨diagnostics, rfl, agrees⟩ := sent uri (Or.inl rfl) rfl
  have loaded : load (store.files []) "/A.g4" =
      .ok ⟨"A.g4", some "/A.g4", .ofSource "grammar A; a : ( ;"⟩ := by
    have named : Path.fileName? "/A.g4" = some "A.g4" := by decide +kernel
    have read : (store.files []).read "/A.g4" = .ok "grammar A; a : ( ;" := by rfl
    rw [load, named, read]
  have shown := agrees.readable "/A.g4" _ false (by decide +kernel) loaded
  have single :
      (CheckRequest.output ⟨["/A.g4"], true, false, none⟩ (store.files [])).length =
      1 := by
    rw [CheckRequest.output_of_json rfl, length_map]
    decide +kernel
  obtain ⟨output, outputs_eq⟩ := length_eq_one_iff.mp single
  have missing : load (store.files []) "/B.g4" =
      .error (.unreadable "/B.g4" .notFound) := by
    have named : Path.fileName? "/B.g4" = some "B.g4" := by decide +kernel
    have read : (store.files []).read "/B.g4" = .error .notFound := by rfl
    rw [load, named, read]
  have exits := ((checks (store.files []) ["/A.g4", "/B.g4"] false).1 true).mpr
    ⟨"/B.g4", by decide, Or.inl ⟨_, missing⟩⟩
  have sameFiles : ((start store [] none).after [.connect]).files = store.files [] := rfl
  rw [sameFiles, outputs_eq] at shown
  obtain ⟨diagnostic, others, ⟨object, rfl, isShown⟩, rest, rfl⟩ :=
    forall₂_cons_right_iff.mp shown
  cases rest
  exact ⟨store, uri, diagnostic,
    object, by decide +kernel, isPublished, outputs_eq, isShown, exits⟩

end GrammarInspector
