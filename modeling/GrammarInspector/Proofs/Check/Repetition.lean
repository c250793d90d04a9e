import GrammarInspector.Proofs.Check.AltLabels
import GrammarInspector.Proofs.Editor.SourceOrder

/-! # Repeated names and labels

A name is declared by one rule, and a label occurs in one rule. All that repeats an
earlier declaration, or the label of an earlier rule, is reported with a reference to the
first one, and nothing else is.
-/

namespace GrammarInspector

open List

open Grammar (labelledOf nameOf nameOf_spec)

/-! ## First occurrences -/

section

variable {α β γ : Type} [DecidableEq β] {values : List α} {key : α → β}

/-- The first of some values with the key of a value. -/
def firstOf (values : List α) (key : α → β) (value : α) : α :=
  (values.find? (key · = key value)).getD value

theorem find?_eq_firstOf {value : α} (member : value ∈ values) :
    values.find? (key · = key value) = some (firstOf values key value) := by
  rw [firstOf]
  cases found : values.find? (key · = key value) with
  | some first => rfl
  | none => exact absurd (decide_eq_true rfl) (find?_eq_none.mp found value member)

theorem firstOf_eq {name : β} {first : α} {rest : List α}
    (alike : values.filter (key · = name) = first :: rest) {value : α}
    (named : key value = name) : firstOf values key value = first := by
  rw [firstOf, named, ← head?_filter, alike]
  rfl

/-- Reports on values that differ from the first one with their key, sorted
out by the key. -/
theorem filter_reports (subject : γ → Option β) (differs : α → α → Bool)
    (make : α → α → γ)
    (about : ∀ first value, subject (make first value) = some (key value)) {name : β}
    {first : α} {rest : List α} (alike : values.filter (key · = name) = first :: rest)
    (same : differs first first = false) :
    ((values.filter fun value => differs (firstOf values key value) value).map
      fun value => make (firstOf values key value) value).filter (subject · = some name) =
        (rest.filter (differs first)).map (make first) := by
  have ofName : ∀ value ∈ first :: rest, firstOf values key value = first :=
    fun value member => by
    rw [← alike] at member
    exact firstOf_eq alike (of_decide_eq_true (mem_filter.mp member).2)
  have subjects :
      (fun value => decide (subject (make (firstOf values key value) value) =
      some name)) = fun value => decide (key value = name) := by
    funext value
    rw [about, decide_eq_decide, Option.some_inj]
  calc
    _ = ((values.filter fun value => differs (firstOf values key value) value).filter
          (key · = name)).map fun value => make (firstOf values key value) value := by
      rw [filter_map]
      exact congrArg (fun accepts => (List.filter accepts _).map _) subjects
    _ = ((first :: rest).filter fun value => differs (firstOf values key value) value).map
          fun value => make (firstOf values key value) value := by
      rw [filter_comm, alike]
    _ = ((first :: rest).filter (differs first)).map (make first) := by
      rw [filter_congr fun value member =>
        congrArg (differs · value) (ofName value member)]
      refine map_congr_left fun value member => ?_
      rw [ofName value (mem_filter.mp member).1]
    _ = (rest.filter (differs first)).map (make first) := by
      rw [filter_cons_of_neg (by simp [same])]

end

theorem flatMap_filter {α β : Type} {values : List α} {keeps : α → Bool}
    {parts : α → List β}
    (dropped : ∀ value ∈ values, keeps value = false → parts value = []) :
    (values.filter keeps).flatMap parts = values.flatMap parts := by
  induction values with
  | nil => rfl
  | cons value rest induction =>
    obtain ⟨head, tail⟩ := forall_mem_cons.mp dropped
    rw [filter_cons, flatMap_cons, ← induction tail]
    split
    · exact flatMap_cons
    · next notKept => rw [head (Bool.eq_false_iff.mpr notKept), nil_append]

namespace Grammar

/-! ## Declarations -/

variable {source : String} {rule : Node}

/-- The name that a rule declares. -/
def declared (rule : Node) : String := (nameOf rule).text

/-- The rules that declare a name. -/
def declaring (grammar : Grammar) (name : String) : List Node :=
  grammar.tree.rules.filter (declared · = name)

/-- The first rule that declares the name of a rule. -/
def firstNamesake (grammar : Grammar) (rule : Node) : Node :=
  firstOf grammar.tree.rules declared rule

/-- The first entry with the label of an entry. -/
def firstAlike (grammar : Grammar) (entry : Labelled) : Labelled :=
  firstOf grammar.labels (·.label.name) entry

theorem nameOf_mem_declarations (isRule : rule ∈ (ofSource source).tree.rules) :
    nameOf rule ∈ (ofSource source).declarations ∧
    (nameOf rule).index = rule.index + 1 := by
  obtain ⟨name, isDeclared, _, index⟩ := exists_declaration_of_rule isRule
  obtain ⟨first, _⟩ := nameOf_spec isRule
  have member := Tree.firstChild_mem_nodes (mem_filter.mp isRule).1 first
  have isNode := (mem_names.mp (mem_filter.mp isDeclared).1).1
  rw [Tree.eq_of_index_eq member isNode
    ((Node.above_of_firstChild? first).2.trans index.symm)]
  exact ⟨isDeclared, index⟩

/-- Without errors rules declare their names in the order of the source. -/
theorem pairwise_earlier_nameOf (none : (ofSource source).errors = []) :
    ((ofSource source).tree.rules.map nameOf).Pairwise Node.Earlier := by
  have inOrder := (pairwise_earlier_iff source).mp (pairwise_earlier_of_errors_nil none)
  refine pairwise_map.mpr ((ofSource source).tree.pairwise_index_rules.imp_of_mem ?_)
  intro left right isLeft isRight numbers
  obtain ⟨leftMember, leftIndex⟩ := nameOf_mem_declarations isLeft
  obtain ⟨rightMember, rightIndex⟩ := nameOf_mem_declarations isRight
  exact earlier_of_declarations inOrder leftMember rightMember (by omega)

theorem line_nameOf (isRule : rule ∈ (ofSource source).tree.rules) :
    (ofSource source).line (nameOf rule) = (ofSource source).line rule := by
  obtain ⟨member, ofKind⟩ := mem_filter.mp isRule
  obtain ⟨noSpan, _⟩ :=
    (Reading.sourced_of_mem member).declared (of_decide_eq_true ofKind)
  rw [line, line, position?, position?, Node.anchor_of_firstChild? noSpan
    (nameOf_spec isRule).1]

end Grammar

namespace Check

variable {source : String} {file : GrammarFile}

/-- The message about a rule whose name another one declares first. -/
def repeatedRule (file : GrammarFile) (first rule : Node) : Message :=
  file.messageAtNode .ruleRedefinition (nameOf rule)
    [Grammar.declared rule, (file.grammar.line (nameOf first)).repr]

/-- The message about a label that occurs in another rule first. -/
def repeatedLabel (file : GrammarFile) (first entry : Grammar.Labelled) : Message :=
  file.messageAtSpan .altLabelRedef entry.label.span
    [entry.label.name, Grammar.declared entry.rule, Grammar.declared first.rule]

theorem filter_declaration {scope : Scope} {rule name : Node}
    (isName : rule.firstChild? = some name) {first : Node}
    (found : scope.firstRule? name.text = some first) :
    (declaration scope rule).filter (·.kind = .ruleRedefinition) =
      if first.index ≠ rule.index then
        [scope.file.messageAtNode .ruleRedefinition name
          [name.text, (scope.grammar.line first).repr]]
      else [] := by
  have others (kind : MessageKind) (condition : Bool)
      (other : .ruleRedefinition ∉ [kind]) :
      (if condition then [scope.file.messageAtNode kind name [name.text]] else []).filter
        (·.kind = .ruleRedefinition) = [] :=
    (Reports.choose (.atNode (mem_singleton_self kind)) .nil).filter_eq_nil other
  unfold declaration
  simp only [isName, found]
  rw [filter_append, filter_append, others _ _ (by decide),
    others _ _ (by decide), nil_append,
    nil_append, ite_not]
  split <;> rfl

/-- A rule is reported if another one declares its name first. -/
theorem filter_declarations (isFile : file.grammar = .ofSource source)
    (external : Vocabulary) :
    (declarations (file.scope external)).filter (·.kind = .ruleRedefinition) =
      (file.grammar.tree.rules.filter fun rule =>
        (file.grammar.firstNamesake rule).index ≠ rule.index).map fun rule =>
        repeatedRule file (file.grammar.firstNamesake rule) rule := by
  have noModes : (modes (file.scope external)).filter
      (·.kind = .ruleRedefinition) = [] := by
    have reports : Reports [.modeNotInLexer] (modes (file.scope external)) :=
      .choose .nil (.map fun _ => mem_singleton_self _)
    exact reports.filter_eq_nil (by decide)
  have noRules : (someRule (file.scope external)).filter
      (·.kind = .ruleRedefinition) = [] := by
    have reports : Reports [.noRules] (someRule (file.scope external)) := by
      refine .choose ?_ .nil
      split
      · exact .atNode (mem_singleton_self _)
      · exact .atNode (mem_singleton_self _)
    exact reports.filter_eq_nil (by decide)
  have named {rule : Node} (isRule : rule ∈ file.grammar.tree.rules) :
      rule.firstChild? = some (nameOf rule) ∧
      rule.tree.ruleName? = some (Grammar.declared rule) := by
    rw [isFile] at isRule
    exact ⟨(nameOf_spec isRule).1, (nameOf_spec isRule).2.2⟩
  rw [declarations, filter_append, filter_append, noModes, noRules,
    nil_append, append_nil, filter_flatMap]
  refine flatMap_eq_map_filter fun rule isRule => ?_
  have earliest : file.grammar.tree.rules.find?
      (Grammar.declared · = Grammar.declared rule) =
      some (file.grammar.firstNamesake rule) := find?_eq_firstOf isRule
  have found : (file.scope external).firstRule? (Grammar.declared rule) =
      some (file.grammar.firstNamesake rule) := by
    rw [← earliest, Scope.firstRule?, Nullability.firstRule?, ← head?_filter,
      ← head?_filter]
    refine congrArg List.head? (filter_congr fun other isOther => ?_)
    rw [(named isOther).2]
    exact decide_eq_decide.mpr Option.some_inj
  have line : file.grammar.line (nameOf (file.grammar.firstNamesake rule)) =
      file.grammar.line (file.grammar.firstNamesake rule) := by
    have isFirst := mem_of_find?_eq_some earliest
    rw [isFile] at isFirst ⊢
    exact Grammar.line_nameOf isFirst
  rw [filter_declaration (named isRule).1 found, repeatedRule, line]
  exact if_congr decide_eq_true_iff.symm rfl rfl

/-! ## Labels -/

theorem filter_label {scope : Scope} {all : List Grammar.Labelled}
    {entry first : Grammar.Labelled}
    (found : all.find? (·.label.name = entry.label.name) = some first) :
    (label scope all entry).filter (·.kind = .altLabelRedef) =
      if first.rule.index ≠ entry.rule.index then
        [scope.file.messageAtSpan .altLabelRedef entry.label.span
          [entry.label.name, entry.rule.tree.ruleName?.getD "",
            first.rule.tree.ruleName?.getD ""]]
      else [] := by
  have noConflict : (if scope.definesParserRule (decapitalized entry.label.name) then
      [scope.file.messageAtSpan .altLabelConflictsWithRule entry.label.span
        [entry.label.name, decapitalized entry.label.name]] else []).filter
          (·.kind = .altLabelRedef) = [] :=
    (Reports.choose (.atSpan (mem_singleton_self _)) .nil).filter_eq_nil (by decide)
  unfold label
  simp only [found]
  rw [filter_append, noConflict, nil_append, ite_not]
  split <;> rfl

theorem filter_redef_labelsOfRule {rule : Node} (scope : Scope)
    (all : List Grammar.Labelled)
    (unlabelled : rule.tree.isLexerRule = true → labelledOf rule = []) :
    (labelsOfRule scope all rule).filter (·.kind = .altLabelRedef) =
      (labelledOf rule).flatMap fun entry =>
        (label scope all entry).filter (·.kind = .altLabelRedef) := by
  have noCount : (tooFewLabels scope rule).filter (·.kind = .altLabelRedef) = [] :=
    (Reports.choose (.atNode (mem_singleton_self _)) .nil).filter_eq_nil (by decide)
  rw [labelsOfRule_eq scope all unlabelled, filter_append, noCount, nil_append,
    filter_flatMap]

/-- Without errors the labels of one rule after the other are those of the source. -/
theorem labelled_eq (isFile : file.grammar = .ofSource source)
    (none : file.grammar.errors = []) (external : Vocabulary) :
    labelled (file.scope external) = file.grammar.labels := by
  change (file.grammar.tree.rules.filter (!·.tree.isLexerRule)).flatMap labelledOf = _
  rw [isFile] at none ⊢
  rw [Grammar.labels_eq_of_errors_nil none]
  refine flatMap_filter fun rule isRule isLexer =>
    Grammar.labelledOf_of_isLexerRule isRule ?_
  simpa using isLexer

/-- A label is reported if it occurs in another rule first. -/
theorem filter_redef_labels (isFile : file.grammar = .ofSource source)
    (none : file.grammar.errors = []) (external : Vocabulary) :
    (labels (file.scope external)).filter (·.kind = .altLabelRedef) =
        (file.grammar.labels.filter fun entry =>
        (file.grammar.firstAlike entry).rule.index ≠ entry.rule.index).map fun entry =>
          repeatedLabel file (file.grammar.firstAlike entry) entry := by
  have named {entry : Grammar.Labelled} (isEntry : entry ∈ file.grammar.labels) :
      entry.rule.tree.ruleName?.getD "" = Grammar.declared entry.rule := by
    rw [isFile] at isEntry
    rw [(nameOf_spec (Grammar.mem_labels.mp isEntry).1).2.2]
    rfl
  calc
    _ = (file.grammar.tree.rules.flatMap labelledOf).flatMap fun entry =>
          (label (file.scope external) file.grammar.labels entry).filter
            (·.kind = .altLabelRedef) := by
      rw [labels, filter_flatMap, labelled_eq isFile none, flatMap_assoc]
      refine flatMap_congr fun rule isRule => filter_redef_labelsOfRule _ _ ?_
      have isOwn : rule ∈ file.grammar.tree.rules := isRule
      exact Grammar.labelledOf_of_isLexerRule (isFile ▸ isOwn)
    _ = file.grammar.labels.flatMap fun entry =>
          (label (file.scope external) file.grammar.labels entry).filter
            (·.kind = .altLabelRedef) := by
      have inOrder : file.grammar.labels =
          file.grammar.tree.rules.flatMap labelledOf := by
        rw [isFile] at none ⊢
        exact Grammar.labels_eq_of_errors_nil none
      rw [← inOrder]
    _ = _ := by
      refine flatMap_eq_map_filter fun entry isEntry => ?_
      have found : file.grammar.labels.find? (·.label.name = entry.label.name) =
          some (file.grammar.firstAlike entry) := find?_eq_firstOf isEntry
      rw [filter_label found, named isEntry, named (mem_of_find?_eq_some found)]
      exact if_congr decide_eq_true_iff.symm rfl rfl

end Check

namespace GrammarFile

variable {source : String} {file : GrammarFile}

theorem filter_ruleRedefinition (isFile : file.grammar = .ofSource source)
    (none : file.grammar.errors = []) (files : Files) (library : Option String) :
    (file.inspect files library).messages.filter (·.kind = .ruleRedefinition) =
      (file.grammar.tree.rules.filter fun rule =>
        (file.grammar.firstNamesake rule).index ≠ rule.index).map fun rule =>
        Check.repeatedRule file (file.grammar.firstNamesake rule) rule := by
  obtain ⟨external, messages⟩ := exists_scope none files library
  rw [messages _ (by decide), (Check.reports_labels _).filter_eq_nil
    (by decide), append_nil, Check.filter_declarations isFile]

theorem filter_altLabelRedef (isFile : file.grammar = .ofSource source)
    (none : file.grammar.errors = []) (files : Files) (library : Option String) :
    (file.inspect files library).messages.filter (·.kind = .altLabelRedef) =
        (file.grammar.labels.filter fun entry =>
        (file.grammar.firstAlike entry).rule.index ≠ entry.rule.index).map fun entry =>
          Check.repeatedLabel file (file.grammar.firstAlike entry) entry := by
  obtain ⟨external, messages⟩ := exists_scope none files library
  rw [messages _ (by decide), (Check.reports_declarations _).filter_eq_nil
    (by decide), nil_append, Check.filter_redef_labels isFile none]

/-- All declarations of a name but the first are reported, and the labels that occur in
another rule first. -/
theorem repetitions_reported (isFile : file.grammar = .ofSource source)
    (noErrors : file.grammar.errors = []) (files : Files) (library : Option String) :
    ((∀ rule ∈ file.grammar.tree.rules, rule.firstChild? = some (nameOf rule)) ∧
      (file.grammar.tree.rules.map nameOf).Pairwise Node.Earlier ∧
      (∀ name first rest, file.grammar.declaring name = first :: rest →
        ((file.inspect files library).messages.filter (·.kind = .ruleRedefinition)).filter
          (·.arguments.head? = some name) = rest.map (Check.repeatedRule file first)) ∧
      ∀ message ∈ (file.inspect files library).messages,
        message.kind = .ruleRedefinition → ∃ rule ∈ file.grammar.tree.rules,
          message.arguments.head? = some (Grammar.declared rule)) ∧
    file.grammar.labels.Pairwise Grammar.Labelled.Before ∧
      (∀ name first rest,
        file.grammar.labels.filter (·.label.name = name) = first :: rest →
        ((file.inspect files library).messages.filter (·.kind = .altLabelRedef)).filter
          (·.arguments.head? = some name) =
            (rest.filter (first.rule.index ≠ ·.rule.index)).map
              (Check.repeatedLabel file first)) ∧
      ∀ message ∈ (file.inspect files library).messages, message.kind = .altLabelRedef →
        ∃ entry ∈ file.grammar.labels,
          message.arguments.head? = some entry.label.name := by
  have ofKind {message : Message} {kind : MessageKind}
      (member : message ∈ (file.inspect files library).messages)
      (isKind : message.kind = kind) :
        message ∈ (file.inspect files library).messages.filter (·.kind = kind) :=
    mem_filter.mpr ⟨member, decide_eq_true isKind⟩
  have rules := filter_ruleRedefinition isFile noErrors files library
  have labels := filter_altLabelRedef isFile noErrors files library
  refine ⟨⟨fun rule isRule => (nameOf_spec (isFile ▸ isRule)).1, ?_, ?_, ?_⟩, ?_, ?_, ?_⟩
  · rw [isFile] at noErrors ⊢
    exact Grammar.pairwise_earlier_nameOf noErrors
  · intro name first rest alike
    have numbers : (file.grammar.declaring name).Pairwise (·.index < ·.index) :=
      file.grammar.tree.pairwise_index_rules.filter _
    rw [alike, pairwise_cons] at numbers
    have reports :=
      filter_reports (·.arguments.head?) (fun first rule => first.index ≠ rule.index)
      (Check.repeatedRule file) (fun _ _ => rfl) alike (by simp)
    rw [filter_eq_self.mpr fun rule member =>
      decide_eq_true (numbers.1 rule member).ne] at reports
    exact (congrArg (List.filter _) rules).trans reports
  · intro message member isKind
    have reported := ofKind member isKind
    rw [rules] at reported
    obtain ⟨rule, isRepeated, rfl⟩ := mem_map.mp reported
    exact ⟨rule, (mem_filter.mp isRepeated).1, rfl⟩
  · rw [isFile]
    exact Grammar.pairwise_before source
  · intro name first rest alike
    have reports := filter_reports (·.arguments.head?) (fun first entry =>
        first.rule.index ≠ entry.rule.index)
      (Check.repeatedLabel file) (fun _ _ => rfl) alike (by simp)
    exact (congrArg (List.filter _) labels).trans reports
  · intro message member isKind
    have reported := ofKind member isKind
    rw [labels] at reported
    obtain ⟨entry, isRepeated, rfl⟩ := mem_map.mp reported
    exact ⟨entry, (mem_filter.mp isRepeated).1, rfl⟩

/-- A grammar that declares a name three times, twice in a mode. -/
def threefold : GrammarFile :=
  ⟨"L.g4", none,
    .ofSource "lexer grammar L;\nA : 'a' ; B : 'b' ; mode M; A : 'c' ;\nA : 'd' ;"⟩

/-- A grammar with a label twice in one rule and once in another. -/
def threeLabels : GrammarFile :=
  ⟨"G.g4", none, .ofSource "grammar G; a : b # L | c # L ; d : e # L ;"⟩

/-- The declarations in the mode are reported, and the label in the other rule. -/
theorem repetitions_reported_threefold :
    threefold.grammar.errors = [] ∧ threeLabels.grammar.errors = [] ∧
      ∀ files library, (((threefold.inspect files library).messages.filter
        (·.kind = .ruleRedefinition)).filter (·.arguments.head? = some "A")).map
          (fun message => (message.arguments, message.position)) =
        [(["A", "2"], ⟨2, 28⟩), (["A", "2"], ⟨3, 0⟩)] ∧
      (((threeLabels.inspect files library).messages.filter
        (·.kind = .altLabelRedef)).filter (·.arguments.head? = some "L")).map
          (·.arguments) = [["L", "d", "a"]] := by
  have noErrors : threefold.grammar.errors = [] := by decide +kernel
  have noLabelErrors : threeLabels.grammar.errors = [] := by decide +kernel
  have some : threefold.grammar.declaring "A" ≠ [] :=
    ne_nil_of_length_pos (by decide +kernel)
  have someLabel : (threeLabels.grammar.tree.rules.flatMap labelledOf).filter
      (·.label.name = "L") ≠ [] :=
    ne_nil_of_length_pos (by decide +kernel)
  have labels : threeLabels.grammar.labels.filter (·.label.name = "L") =
      ((threeLabels.grammar.tree.rules.flatMap labelledOf).filter
        (·.label.name = "L")).head someLabel ::
        ((threeLabels.grammar.tree.rules.flatMap labelledOf).filter
          (·.label.name = "L")).tail := by
    rw [cons_head_tail]
    exact congrArg (List.filter _) (Grammar.labels_eq_of_errors_nil noLabelErrors)
  refine ⟨noErrors, noLabelErrors, fun files library => ⟨?_, ?_⟩⟩
  · rw [(repetitions_reported rfl noErrors files library).1.2.2.1 _ _ _
      (cons_head_tail some).symm]
    revert some
    decide +kernel
  · rw [(repetitions_reported rfl noLabelErrors files library).2.2.1 _ _ _ labels]
    clear labels
    revert someLabel
    decide +kernel

end GrammarFile

end GrammarInspector
