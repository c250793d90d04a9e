import GrammarInspector.Editor.Session
import Mathlib.Data.List.Induction

/-! # What a session knows of a document

The history of a session alone, without the grammars that it keeps, tells how it answers:
by the content that was read when the document was last opened or saved, or else by the
first content read for a question since then.
-/

namespace GrammarInspector

/-- The content of the grammar file that a URI names. -/
def Uri.content? (uri : Uri) (files : Files) : Option String :=
  uri.filePath?.bind fun path => (Path.fileName? path).bind fun _ =>
    (files.read path).toOption

theorem Uri.load?_eq (uri : Uri) (files : Files) :
    (uri.load? files).map (·.grammar) = (uri.content? files).map Grammar.ofSource := by
  unfold load? content?
  cases uri.filePath? with
  | none => rfl
  | some path =>
    cases named : Path.fileName? path with
    | none => simp [GrammarFile.load, named, Except.toOption]
    | some fileName =>
      cases read : files.read path with
      | error fault => simp [GrammarFile.load, named, read, Except.toOption]
      | ok source => simp [GrammarFile.load, named, read, Except.toOption]

namespace Editor

/-! ## Histories -/

/-- A step at the time when it was taken. -/
structure Moment where
  step : Step
  files : Files
  /-- Whether an editor had been connected. -/
  connected : Bool

namespace Step

/-- The files behind a step. -/
def store (step : Step) (store : FileStore) : FileStore :=
  match step with
  | .write route entry => store.write route entry
  | .remove route => store.remove route
  | _ => store

def isConnect : Step → Bool
  | .connect => true
  | _ => false

end Step

/-- The moments of some steps. -/
def history (current : Route) (store : FileStore) (connected : Bool) :
    List Step → List Moment
  | [] => []
  | step :: rest =>
    ⟨step, store.files current, connected⟩ :: history current (step.store store)
      (connected || step.isConnect) rest

namespace Moment

/-- Whether what was known of a document before counts no longer: the session was shut
down, or the document was opened or saved and an editor was there. -/
def resets (moment : Moment) (name : String) : Bool :=
  match moment.step with
  | .shutdown => true
  | .opened uri | .saved uri => moment.connected && uri.text = name
  | _ => false

/-- Whether a question was asked about a document. -/
def asks (moment : Moment) (name : String) : Bool :=
  match moment.step with
  | .ask uri _ _ => uri.text = name
  | _ => false

/-- The content of the document that a step is about. -/
def content? (moment : Moment) : Option String :=
  match moment.step with
  | .opened uri | .saved uri | .ask uri _ _ => uri.content? moment.files
  | _ => none

end Moment

/-- The content that a session knows of a document: what was read at the last reset, or
else what was read first for a question since then. -/
def known? (name : String) (moments : List Moment) : Option String :=
  let last? := moments.reverse.find? (·.resets name)
  let since := (moments.reverse.takeWhile (!·.resets name)).reverse
  (last?.bind Moment.content?).or ((since.filter (·.asks name)).findSome? Moment.content?)

theorem known?_append (name : String) (moments : List Moment) (moment : Moment) :
    known? name (moments ++ [moment]) =
      if moment.resets name then moment.content?
      else if moment.asks name then (known? name moments).or moment.content?
      else known? name moments := by
  unfold known?
  cases resets : moment.resets name with
  | true => simp [resets]
  | false =>
    cases asks : moment.asks name with
    | true => simp [resets, asks, Option.or_assoc]
    | false => simp [resets, asks]

theorem history_append (current : Route) (store : FileStore) (connected : Bool)
    (steps rest : List Step) :
    history current store connected (steps ++ rest) =
      history current store connected steps ++
      history current (steps.foldl (fun store step => step.store store) store)
        (connected || steps.any Step.isConnect) rest := by
  induction steps generalizing store connected with
  | nil => simp [history]
  | cons step steps induction => simp [history, induction, Bool.or_assoc]

/-! ## Steps without influence -/

/-- Whether a step can have to do with a document, given whether an editor has
been connected. -/
def Step.concerns (step : Step) (connected : Bool) (name : String) : Bool :=
  match step with
  | .write _ _ | .remove _ | .connect | .shutdown => true
  | .opened uri | .saved uri => connected && uri.text = name
  | .changed _ | .isKept _ => false
  | .ask uri _ _ => uri.text = name

theorem known?_insert {name : String} {moment : Moment}
    (resets : moment.resets name = false) (asks : moment.asks name = false)
    (before behind : List Moment) :
    known? name (before ++ moment :: behind) = known? name (before ++ behind) := by
  induction behind using List.reverseRecOn with
  | nil => simp [known?_append, resets, asks]
  | append_singleton behind last induction =>
    have left := known?_append name (before ++ moment :: behind) last
    have right := known?_append name (before ++ behind) last
    rw [induction] at left
    simpa using left.trans right.symm

theorem known?_history_insert {name : String} {step : Step} (current : Route)
    (store : FileStore) {connected : Bool} (before behind : List Step)
    (unconcerned : step.concerns (connected || before.any Step.isConnect) name = false) :
    known? name (history current store connected (before ++ step :: behind)) =
      known? name (history current store connected (before ++ behind)) := by
  have noFiles : ∀ store, step.store store = store := by
    intro store
    cases step <;> simp_all [Step.concerns, Step.store]
  have noConnect : step.isConnect = false := by
    cases step <;> simp_all [Step.concerns, Step.isConnect]
  rw [history_append, history_append, history, noFiles, noConnect, Bool.or_false]
  apply known?_insert
  · cases step <;> simp_all [Step.concerns, Moment.resets]
  · cases step <;> simp_all [Step.concerns, Moment.asks]

/-! ## Sessions -/

namespace Workspace

variable {workspace : Workspace} {files : Files} {uri other : Uri}

theorem grammar?_refresh (workspace : Workspace) (files : Files) (uri : Uri) :
    (workspace.refresh files uri).grammar? uri =
      (uri.content? files).map Grammar.ofSource := by
  rw [← Uri.load?_eq, refresh]
  cases uri.load? files with
  | none => simp
  | some file => simp

theorem grammar?_refresh_of_ne (workspace : Workspace) (files : Files)
    (different : other.text ≠ uri.text) :
    (workspace.refresh files uri).grammar? other = workspace.grammar? other := by
  rw [refresh]
  cases uri.load? files with
  | none => exact grammar?_forget_of_ne workspace different
  | some file => exact grammar?_keep_of_ne workspace file.grammar different

theorem connected_refresh (workspace : Workspace) (files : Files) (uri : Uri) :
    (workspace.refresh files uri).connected = workspace.connected := by
  rw [refresh]
  cases uri.load? files with
  | none => rfl
  | some file => rfl

theorem grammar?_congr (workspace : Workspace) (same : uri.text = other.text) :
    workspace.grammar? uri = workspace.grammar? other := by
  rw [grammar?, grammar?, same]

theorem ask_workspace (workspace : Workspace) (files : Files) (uri : Uri) (query : Query)
    (place : Place) :
    (workspace.ask files uri query place).1 =
      if (workspace.grammar? uri).isSome then workspace
      else workspace.refresh files uri := by
  rw [ask]
  split
  · next grammar kept => simp [kept]
  · next missing =>
    dsimp only
    split <;> simp [missing]

/-- The answer comes from the grammar that is kept then. -/
theorem ask_answer (workspace : Workspace) (files : Files) (uri : Uri) (query : Query)
    (place : Place) :
    (workspace.ask files uri query place).2 =
      ((workspace.ask files uri query place).1.grammar? uri).elim query.emptyAnswer
        (·.answer place query) := by
  rw [ask]
  split
  · next grammar kept => simp [kept]
  · dsimp only
    split
    · next grammar kept => simp [kept]
    · next missing => simp [missing]

theorem grammar?_ask (workspace : Workspace) (files : Files) (uri : Uri) (query : Query)
    (place : Place) :
    (workspace.ask files uri query place).1.grammar? uri =
      (workspace.grammar? uri).or ((uri.content? files).map Grammar.ofSource) := by
  rw [ask_workspace]
  cases kept : workspace.grammar? uri with
  | some grammar => simp [kept]
  | none => simp [grammar?_refresh]

theorem grammar?_ask_of_ne (workspace : Workspace) (files : Files) (query : Query)
    (place : Place) (different : other.text ≠ uri.text) :
    (workspace.ask files uri query place).1.grammar? other =
      workspace.grammar? other := by
  rw [ask_workspace]
  split
  · rfl
  · exact grammar?_refresh_of_ne workspace files different

theorem connected_ask (workspace : Workspace) (files : Files) (uri : Uri) (query : Query)
    (place : Place) :
    (workspace.ask files uri query place).1.connected = workspace.connected := by
  rw [ask_workspace]
  split
  · rfl
  · exact connected_refresh workspace files uri

end Workspace

namespace Session

/-- Whether a session is as its history tells. -/
structure Follows (session : Session) (current : Route) (store : FileStore)
    (connected : Bool) (moments : List Moment) : Prop where
  current : session.current = current
  store : session.store = store
  connected : session.workspace.connected = connected
  known : ∀ uri, session.workspace.grammar? uri =
      (known? uri.text moments).map Grammar.ofSource

variable {session : Session} {current : Route} {store : FileStore} {connected : Bool}
  {moments : List Moment}

theorem Follows.files (follows : session.Follows current store connected moments) :
    session.files = store.files current := by
  rw [Session.files, follows.store, follows.current]

/-- A step that the documents have no part in. -/
theorem Follows.pass (follows : session.Follows current store connected moments)
    {moment : Moment} (resets : ∀ name, moment.resets name = false)
      (asks : ∀ name, moment.asks name = false) :
    session.Follows current store connected (moments ++ [moment]) where
  current := follows.current
  store := follows.store
  connected := follows.connected
  known uri := by simp [known?_append, resets, asks, follows.known uri]

theorem Follows.inspect (follows : session.Follows current store connected moments)
    {uri : Uri} {step : Step} (ofUri : step = .opened uri ∨ step = .saved uri) :
    (session.inspect uri).1.Follows current store connected
      (moments ++ [⟨step, store.files current, connected⟩]) := by
  have asks : ∀ name, (⟨step, store.files current, connected⟩ : Moment).asks
      name = false := by
    intro name
    cases ofUri with
    | inl opened => simp [Moment.asks, opened]
    | inr saved => simp [Moment.asks, saved]
  have resets : ∀ name, (⟨step, store.files current, connected⟩ : Moment).resets name =
      (connected && decide (uri.text = name)) := by
    intro name
    cases ofUri with
    | inl opened => simp [Moment.resets, opened]
    | inr saved => simp [Moment.resets, saved]
  have content : (⟨step, store.files current, connected⟩ : Moment).content? =
      uri.content? (store.files current) := by
    cases ofUri with
    | inl opened => simp [Moment.content?, opened]
    | inr saved => simp [Moment.content?, saved]
  unfold Session.inspect Workspace.inspect
  rw [follows.connected]
  cases connected with
  | false =>
    apply follows.pass _ asks
    simp [resets]
  | true =>
    refine ⟨follows.current, follows.store, ?_, ?_⟩
    · exact (Workspace.connected_refresh ..).trans follows.connected
    · intro other
      simp only [known?_append, resets, asks, content, follows.files]
      by_cases same : uri.text = other.text
      · simp [same, Workspace.grammar?_congr _ same.symm, Workspace.grammar?_refresh]
      · simp [same, Workspace.grammar?_refresh_of_ne _ _ (Ne.symm same),
          follows.known other]

theorem Follows.ask (follows : session.Follows current store connected moments)
    (uri : Uri) (query : Query) (place : Place) :
    (session.step (.ask uri query place)).1.Follows current store connected
      (moments ++ [⟨.ask uri query place, store.files current, connected⟩]) where
  current := follows.current
  store := follows.store
  connected := (Workspace.connected_ask ..).trans follows.connected
  known other := by
    simp only [known?_append, Moment.resets, Moment.asks, Moment.content?, Session.step,
      follows.files]
    by_cases same : uri.text = other.text
    · simp [same, Workspace.grammar?_congr _ same.symm, Workspace.grammar?_ask,
        follows.known uri, Option.map_or]
    · simp [same, Workspace.grammar?_ask_of_ne _ _ _ _ (Ne.symm same),
        follows.known other]

theorem Follows.step (follows : session.Follows current store connected moments)
    (step : Step) :
    (session.step step).1.Follows current (step.store store) (connected || step.isConnect)
      (moments ++ [⟨step, store.files current, connected⟩]) := by
  cases step
  all_goals simp only [Step.isConnect, Bool.or_false, Bool.or_true]
  case write route entry =>
    have passed : session.Follows current store connected
        (moments ++ [⟨.write route entry, store.files current, connected⟩]) :=
      follows.pass (fun _ => rfl) fun _ => rfl
    exact ⟨passed.current, congrArg (·.write route entry) passed.store, passed.connected,
      passed.known⟩
  case remove route =>
    have passed : session.Follows current store connected
        (moments ++ [⟨.remove route, store.files current, connected⟩]) :=
      follows.pass (fun _ => rfl) fun _ => rfl
    exact ⟨passed.current, congrArg (·.remove route) passed.store, passed.connected,
      passed.known⟩
  case connect =>
    have passed : session.Follows current store connected
        (moments ++ [⟨.connect, store.files current, connected⟩]) :=
      follows.pass (fun _ => rfl) fun _ => rfl
    exact ⟨passed.current, passed.store, rfl, passed.known⟩
  case opened uri =>
    exact follows.inspect (.inl rfl)
  case saved uri =>
    exact follows.inspect (.inr rfl)
  case changed uri =>
    exact follows.pass (fun _ => rfl) fun _ => rfl
  case shutdown =>
    refine ⟨follows.current, follows.store, follows.connected, ?_⟩
    intro uri
    simp [known?_append, Moment.resets, Moment.content?]
    rfl
  case isKept uri =>
    exact follows.pass (fun _ => rfl) fun _ => rfl
  case ask uri query place =>
    exact follows.ask uri query place

theorem Follows.after (follows : session.Follows current store connected moments)
    (steps : List Step) :
    (session.after steps).Follows current
      (steps.foldl (fun store step => step.store store) store)
      (connected || steps.any Step.isConnect)
        (moments ++ history current store connected steps) := by
  induction steps generalizing session store connected moments with
  | nil => simpa [history, Session.after] using follows
  | cons step rest induction =>
    have later := induction (follows.step step)
    simpa [history, Session.after, Bool.or_assoc] using later

/-! ## Runs -/

theorem length_run (session : Session) (steps : List Step) :
    (session.run steps).length = steps.length := by
  induction steps generalizing session with
  | nil => rfl
  | cons step rest induction => simp [run, induction]

theorem run_append (session : Session) (steps rest : List Step) :
    session.run (steps ++ rest) = session.run steps ++
      (session.after steps).run rest := by
  induction steps generalizing session with
  | nil => rfl
  | cons step steps induction => simp [run, induction, after]

theorem getElem?_run (session : Session) (steps rest : List Step) (step : Step) :
    (session.run (steps ++ step :: rest))[steps.length]? =
      some ((session.after steps).step step).2 := by
  rw [run_append, List.getElem?_append_right (by simp [length_run])]
  simp [length_run, run]

/-- The direct reply to a step of a run. -/
def reply? (session : Session) (steps : List Step) (position : Nat) : Option Reply :=
  (session.run steps)[position]?.map Outcome.reply

theorem reply?_append (session : Session) (steps rest : List Step) (step : Step) :
    session.reply? (steps ++ step :: rest) steps.length =
      some ((session.after steps).step step).2.reply := by
  rw [reply?, getElem?_run, Option.map_some]

theorem after_append_singleton (session : Session) (steps : List Step) (step : Step) :
    session.after (steps ++ [step]) = ((session.after steps).step step).1 := by
  simp [after]

theorem step_ask (session : Session) (uri : Uri) (query : Query) (place : Place) :
    (session.step (.ask uri query place)).2.reply =
      .answer uri (((session.step (.ask uri query place)).1.workspace.grammar? uri).elim
        query.emptyAnswer (·.answer place query)) :=
  congrArg (Reply.answer uri) (session.workspace.ask_answer session.files uri query place)

/-- A session at its beginning. -/
def start (store : FileStore) (current : Route) (library : Option String) : Session :=
  ⟨store, current, .start library⟩

theorem follows_start (store : FileStore) (current : Route) (library : Option String) :
    (start store current library).Follows current store false [] :=
  ⟨rfl, rfl, rfl, fun _ => rfl⟩

variable (store : FileStore) (current : Route) (library : Option String)
  (steps rest : List Step)

/-- A question is answered by the content that the history gives for the document. -/
theorem reply?_ask (uri : Uri) (query : Query) (place : Place) :
    (start store current library).reply? (steps ++ .ask uri query place :: rest)
      steps.length = some (.answer uri ((known? uri.text
        (history current store false (steps ++ [.ask uri query place]))).elim
          query.emptyAnswer
          fun source => (Grammar.ofSource source).answer place query)) := by
  have follows :=
    (follows_start store current library).after (steps ++ [.ask uri query place])
  rw [reply?_append, step_ask, ← after_append_singleton, follows.known, Option.elim_map]
  rfl

/-- A grammar is kept if and only if the history gives content for the document. -/
theorem reply?_isKept (uri : Uri) :
    (start store current library).reply? (steps ++ .isKept uri :: rest) steps.length =
      some (.isKept (known? uri.text (history current store false steps)).isSome) := by
  have follows := (follows_start store current library).after steps
  rw [reply?_append]
  simp [Session.step, follows.known]

end Session

/-- Whether a step asks about a document. -/
def Step.IsAbout (name : String) : Step → Prop
  | .ask uri _ _ | .isKept uri => uri.text = name
  | _ => False

/-- Whatever happens in a session, a question about a document is answered by the content
that the history of the session gives for it, and by an empty answer if there is none. A
grammar is kept if and only if there is such content. Steps that do not concern a document
have no influence on replies about it. -/
theorem Session.reply?_eq_history (store : FileStore) (current : Route)
    (library : Option String) (steps rest : List Step) :
    (∀ uri query place, (start store current library).reply?
          (steps ++ .ask uri query place :: rest) steps.length =
        some (.answer uri ((known? uri.text
          (history current store false (steps ++ [.ask uri query place]))).elim
            query.emptyAnswer
            fun source => (Grammar.ofSource source).answer place query))) ∧
      (∀ uri, (start store current library).reply?
          (steps ++ .isKept uri :: rest) steps.length =
        some (.isKept (known? uri.text (history current store false steps)).isSome)) ∧
      ∀ step behind last name, step.concerns (steps.any Step.isConnect) name = false →
        last.IsAbout name →
        (start store current library).reply? (steps ++ step :: behind ++ last :: rest)
            (steps ++ step :: behind).length =
          (start store current library).reply? (steps ++ behind ++ last :: rest)
            (steps ++ behind).length := by
  refine ⟨?_, ?_, ?_⟩
  · exact reply?_ask store current library steps rest
  · exact reply?_isKept store current library steps rest
  · intro step behind last name unconcerned isAbout
    cases last with
    | ask uri query place =>
      subst isAbout
      rw [reply?_ask, reply?_ask]
      simp only [List.append_assoc, List.cons_append]
      rw [known?_history_insert current store steps _ (by simpa using unconcerned)]
    | isKept uri =>
      subst isAbout
      rw [reply?_isKept, reply?_isKept]
      rw [known?_history_insert current store steps _ (by simpa using unconcerned)]
    | _ => cases isAbout

/-- A grammar that was read when its document was opened is still kept after a change. -/
theorem Session.reply?_eq_history_changed :
    ∃ (store : FileStore) (uri : Uri), uri.text = "file:///A.g4" ∧
      (start store [] none).reply? [.connect, .opened uri, .changed uri, .isKept uri] 3 =
        some (.isKept true) := by
  let store := FileStore.empty.write ["A.g4".toList] (.text "grammar A; a : b ;")
  let uri : Uri := ⟨"file", some ⟨none, "", none⟩, .segments ["A.g4"], none, none⟩
  have kept : (known? uri.text (history [] store false [.connect, .opened uri])).isSome =
      true := by
    decide +kernel
  obtain ⟨_, ofKept, unconcerned⟩ :=
    reply?_eq_history store [] none [.connect, .opened uri] []
  refine ⟨store, uri, by decide +kernel, ?_⟩
  calc
    _ = (start store [] none).reply? [.connect, .opened uri, .isKept uri] 2 :=
      unconcerned (.changed uri) [] (.isKept uri) uri.text rfl rfl
    _ = some (.isKept
          (known? uri.text (history [] store false [.connect, .opened uri])).isSome) :=
      ofKept uri
    _ = some (.isKept true) := by rw [kept]

end Editor

end GrammarInspector
