import GrammarInspector.Proofs.Check.Quoted

/-! # What messages point at

Every message points at a node or a label of the grammar, at an escape, or at a syntax
error. Where it quotes the text of a node, that node shows one line of the source.
-/

namespace GrammarInspector

open List

namespace Check

/-! ## Messages -/

/-- The kinds of messages that point at something else than their first argument. -/
def looseKinds : List MessageKind :=
  [.epsilonClosure, .epsilonOptional, .cannotFindTokensFile]

/-- What a message about a file can point at. -/
inductive Points (source : String) (file : GrammarFile) : Message → Prop
  | node {kind : MessageKind} {node : Node} {arguments : List String}
      (member : node ∈ (Grammar.ofSource source).tree.nodes)
      (loose : arguments = [] ∨ kind ∈ looseKinds) :
      Points source file (file.messageAtNode kind node arguments)
  | quoted {kind : MessageKind} {node : Node} {more : List String}
      (quoted : node.Quoted source) :
      Points source file (file.messageAtNode kind node (node.text :: more))
  | label {kind : MessageKind} {node : Node} {label : AltLabel} {more : List String}
      (member : node ∈ (Grammar.ofSource source).tree.nodes)
      (hasLabel : node.tree.data.label = some label) :
      Points source file (file.messageAtSpan kind label.span (label.name :: more))
  | escape {node : Node} {span : Span} {escape : Escape} (quoted : node.Quoted source)
      (begins : node.tree.anchor = some span)
        (isEscape : escape ∈ escapesFrom 0 0 node.text.toList) :
      Points source file (file.messageAt .invalidEscapeSequence
        ⟨(file.grammar.lines.position span.start).line,
          (file.grammar.lines.position span.start).column + escape.units⟩
        ⟨span.start + escape.bytes,
          span.start + escape.bytes + 1 + escape.escaped.utf8Size⟩
        [String.ofList ['\\', escape.escaped]])
  | error {error : SyntaxError} (isError : error ∈ (Grammar.ofSource source).errors) :
      Points source file (file.messageAtSpan .syntaxError error.span [error.offending,
        error.message])

/-- No message is in front of the first line. -/
theorem Points.one_le_line {source : String} {file : GrammarFile} {message : Message}
    (points : Points source file message) : 1 ≤ message.position.line := by
  cases points with
  | _ => exact Nat.le_max_right _ 1

/-- Whether all of some messages point at something. -/
def AllPoint (source : String) (file : GrammarFile) (messages : List Message) : Prop :=
  ∀ message ∈ messages, Points source file message

namespace AllPoint

variable {source : String} {file : GrammarFile} {messages others : List Message}
  {α : Type}

theorem nil : AllPoint source file [] := fun message member => by cases member

theorem single {message : Message} (points : Points source file message) :
    AllPoint source file [message] :=
  forall_mem_singleton.mpr points

theorem append (left : AllPoint source file messages)
    (right : AllPoint source file others) : AllPoint source file (messages ++ others) :=
  forall_mem_append.mpr ⟨left, right⟩

theorem flatMap {values : List α} {check : α → List Message}
    (each : ∀ value ∈ values, AllPoint source file (check value)) :
    AllPoint source file (values.flatMap check) := by
  intro message member
  obtain ⟨value, included, found⟩ := mem_flatMap.mp member
  exact each value included message found

theorem map {values : List α} {make : α → Message}
    (each : ∀ value ∈ values, Points source file (make value)) :
    AllPoint source file (values.map make) :=
  forall_mem_map.mpr each

theorem choose {condition : Prop} [Decidable condition]
    (left : condition → AllPoint source file messages)
    (right : ¬condition → AllPoint source file others) :
    AllPoint source file (if condition then messages else others) := by
  split
  · next holds => exact left holds
  · next fails => exact right fails

end AllPoint

section

variable {source : String} {file : GrammarFile} {scope : Scope} {nodes : List Node}
  {node rule : Node} {all : List Grammar.Labelled} {progress : Nullability.Progress}

/-! ## In front of the rules -/

theorem allPoint_fileName (opened : file.grammar = .ofSource source) :
    AllPoint source file (fileName file) := by
  unfold fileName
  rw [opened]
  split
  · exact .nil
  · next name found =>
    exact .choose (fun _ => .nil) fun _ =>
      .single (.quoted (Grammar.quoted_nameNode? found))

theorem mem_of_mem_repetitions {seen : List NodeKind}
    (member : node ∈ repetitions seen nodes) : node ∈ nodes := by
  fun_induction repetitions seen nodes with
  | case1 => cases member
  | case2 seen first rest isSeen induction =>
    exact (mem_cons.mp member).elim (fun same => same ▸ mem_cons_self ..)
      fun later => mem_cons_of_mem _ (induction later)
  | case3 seen first rest isNew induction => exact mem_cons_of_mem _ (induction member)

theorem allPoint_prequels (opened : file.grammar = .ofSource source) :
    AllPoint source file (prequels file) := by
  refine .map fun node isRepeated => .node ?_ (Or.inl rfl)
  rw [opened] at isRepeated
  have isChild := (mem_filter.mp (mem_of_mem_repetitions isRepeated)).1
  exact Tree.child_mem_nodes (Grammar.root_mem source) isChild

theorem allPoint_options (opened : file.grammar = .ofSource source) :
    AllPoint source file (options file) := by
  refine .map fun option isUnknown => .quoted ?_
  rw [opened] at isUnknown
  exact (Grammar.quoted_option (mem_filter.mp isUnknown).1).1

theorem allPoint_loadEach {load? : String → Option (String × Vocabulary)} {note : String}
    {missing : MessageKind} (each : ∀ node ∈ nodes,
      Points source file (file.messageAtNode missing node [node.text])) :
    AllPoint source file (loadEach file load? note missing nodes).findings.messages := by
  induction nodes with
  | nil => exact .nil
  | cons node rest induction =>
    obtain ⟨first, others⟩ := forall_mem_cons.mp each
    rw [loadEach]
    split
    · exact induction others
    · exact .append (.single first) (induction others)

/-! ## Rules -/

theorem points_ruleName {kind : MessageKind}
    (isRule : rule ∈ (Grammar.ofSource source).tree.rules) :
    Points source file (file.messageAtNode kind (rule.firstChild?.getD rule)
      [rule.tree.ruleName?.getD ""]) := by
  obtain ⟨name, first, quoted, ruleName⟩ := Grammar.quoted_ruleName isRule
  rw [first, ruleName]
  exact .quoted quoted

theorem allPoint_modes (opened : scope.grammar = .ofSource source) :
    AllPoint source scope.file (modes scope) := by
  refine .choose (fun _ => .nil) fun _ => .map fun mode isMode => ?_
  rw [opened] at isMode
  obtain ⟨member, ofKind, _⟩ := Grammar.section_mem isMode
  obtain ⟨name, first, quoted⟩ :=
    Grammar.quoted_firstChild member (by rw [ofKind]; rfl) (by simp [ofKind])
  rw [first]
  exact .quoted quoted

theorem allPoint_declaration (isRule : rule ∈ (Grammar.ofSource source).tree.rules) :
    AllPoint source scope.file (declaration scope rule) := by
  obtain ⟨name, first, quoted, _⟩ := Grammar.quoted_ruleName isRule
  unfold declaration
  rw [first]
  refine .append (.append ?_ ?_) ?_
  · exact .choose (fun _ => .single (.quoted quoted)) fun _ => .nil
  · exact .choose (fun _ => .single (.quoted quoted)) fun _ => .nil
  · split
    · exact .nil
    · exact .choose (fun _ => .nil) fun _ => .single (.quoted quoted)

theorem allPoint_someRule (opened : scope.grammar = .ofSource source)
    (wellFormed : (Grammar.ofSource source).errors = []) :
    AllPoint source scope.file (someRule scope) := by
  refine .choose (fun _ => ?_) fun _ => .nil
  rw [opened]
  split
  · next name found => exact .single (.quoted (Grammar.quoted_nameNode? found))
  · next none => exact absurd none (Grammar.nameNode?_ne_none wellFormed)

theorem allPoint_label {entry : Grammar.Labelled}
    (member : entry.alternative ∈ (Grammar.ofSource source).tree.nodes)
    (hasLabel : entry.alternative.tree.data.label = some entry.label) :
    AllPoint source scope.file (label scope all entry) := by
  refine .append (.choose (fun _ => .single (.label member hasLabel)) fun _ => .nil) ?_
  split
  · exact .nil
  · exact .choose (fun _ => .nil) fun _ => .single (.label member hasLabel)

theorem allPoint_labelsOfRule (isRule : rule ∈ (Grammar.ofSource source).tree.rules) :
    AllPoint source scope.file (labelsOfRule scope all rule) := by
  refine .choose (fun _ => .nil) fun _ => .append ?_ (.flatMap fun entry isEntry => ?_)
  · exact .choose (fun _ => .single (points_ruleName isRule)) fun _ => .nil
  · obtain ⟨_, block, isBlock, isChild, hasLabel⟩ := Grammar.mem_labelledOf.mp isEntry
    have blockMember :=
      Tree.child_mem_nodes (mem_filter.mp isRule).1 (mem_of_find?_eq_some isBlock)
    exact allPoint_label (Tree.child_mem_nodes blockMember isChild) hasLabel

theorem allPoint_commands (opened : file.grammar = .ofSource source) :
    AllPoint source file (commands file) := by
  refine .flatMap fun alternative isAlternative => .flatMap fun node isCommand => ?_
  rw [opened] at isAlternative
  have quoted := Grammar.quoted_command isAlternative isCommand
  refine .choose (fun _ => .single (.quoted quoted)) fun _ => ?_
  refine .choose (fun _ => .single (.quoted quoted)) fun _ => ?_
  exact .choose (fun _ => .single (.quoted quoted)) fun _ => .nil

/-! ## Elements -/

theorem allPoint_escapes {valid : List Char} (quoted : node.Quoted source) :
    AllPoint source file (escapes file valid node) := by
  unfold escapes
  split
  · next span position begins placed =>
    rw [Grammar.position?, begins] at placed
    cases placed
    exact .map fun escape isFaulty => .escape quoted begins (mem_filter.mp isFaulty).1
  · exact .nil

theorem allPoint_lexerElement (quoted : node.kind.isOneLine = true → node.Quoted source) :
    AllPoint source scope.file (lexerElement scope rule node) := by
  unfold lexerElement
  split
  · next kind =>
    exact .choose (fun _ => .nil) fun _ => .single (.quoted (quoted (by rw [kind]; rfl)))
  · next kind => exact .single (.quoted (quoted (by rw [kind]; rfl)))
  · exact .nil

theorem allPoint_parserElement
    (quoted : node.kind.isOneLine = true → node.Quoted source) :
    AllPoint source scope.file (parserElement scope node) := by
  unfold parserElement
  split
  · next kind =>
    exact .choose (fun _ => .nil) fun _ => .single (.quoted (quoted (by rw [kind]; rfl)))
  · next kind =>
    exact .choose (fun _ => .nil) fun _ => .single (.quoted (quoted (by rw [kind]; rfl)))
  · next kind =>
    exact .choose (fun _ => .single (.quoted (quoted (by rw [kind]; rfl)))) fun _ => .nil
  · exact .nil

theorem allPoint_references (opened : scope.grammar = .ofSource source) :
    AllPoint source scope.file (references scope) := by
  refine .flatMap fun node isElement => ?_
  rw [opened] at isElement
  obtain ⟨member, isElement⟩ := Walk.mem_elements_iff.mp isElement
  have quoted (isOneLine : node.kind.isOneLine = true) : node.Quoted source := by
    refine Grammar.quoted_of_isOneLine member isOneLine fun isIdentifier => ?_
    simp [Node.category?, Node.isSubrule, isIdentifier, NodeKind.isElement] at isElement
  unfold element
  split
  · exact .nil
  · refine .choose (fun isEmpty => .single (.quoted (quoted ?_))) fun _ => .append ?_ ?_
    · unfold emptyText? at isEmpty
      split at isEmpty <;> first
        | cases isEmpty
        | next kind => rw [kind]; rfl
    · split
      · next isWritten =>
        refine allPoint_escapes (quoted ?_)
        unfold validEscapes? at isWritten
        split at isWritten <;> first
          | next kind => rw [kind]; rfl
          | cases isWritten
      · exact .nil
    · exact .choose (fun _ => allPoint_lexerElement quoted) fun _ =>
        allPoint_parserElement quoted

/-! ## Empty matches -/

theorem allPoint_inTurn {check : Nullability.Progress → Node → WithProgress}
    (each : ∀ progress, ∀ node ∈ nodes, AllPoint source file (check progress node).1)
    (progress : Nullability.Progress) :
    AllPoint source file (inTurn check progress nodes).1 := by
  induction nodes generalizing progress with
  | nil => exact .nil
  | cons node rest induction =>
    refine .append (each progress node (mem_cons_self ..)) (induction ?_ _)
    exact fun progress other member => each progress other (mem_cons_of_mem _ member)

theorem allPoint_tokenNotEmpty (isRule : rule ∈ (Grammar.ofSource source).tree.rules) :
    AllPoint source scope.file (tokenNotEmpty scope progress rule).1 := by
  unfold tokenNotEmpty
  split
  · exact .choose (fun _ => .single (points_ruleName isRule)) fun _ => .nil
  · exact .nil

theorem allPoint_suffixNotEmpty {ruleName : String} {suffix : Node}
    (member : suffix ∈ (Grammar.ofSource source).tree.nodes) :
    AllPoint source scope.file (suffixNotEmpty scope ruleName progress suffix).1 := by
  unfold suffixNotEmpty
  split
  · exact .nil
  · next block first =>
    refine .choose (fun _ =>
      .single (.node (Tree.firstChild_mem_nodes member first) (Or.inr ?_))) fun _ => .nil
    split
    · decide
    · decide

theorem allPoint_emptyMatches
    (sameRules : scope.rules = (Grammar.ofSource source).tree.rules) :
    AllPoint source scope.file (emptyMatches scope) := by
  refine allPoint_inTurn (fun progress rule isRule => ?_) _
  rw [sameRules] at isRule
  refine .append (allPoint_tokenNotEmpty isRule)
    (allPoint_inTurn (fun progress suffix isSuffix => ?_) _)
  have inside := (mem_filter.mp isSuffix).1
  exact allPoint_suffixNotEmpty
    (Tree.mem_nodes_of_mem_descendants (mem_filter.mp isRule).1 inside)

end

end Check

namespace GrammarFile

open Check (AllPoint Points)

variable {source : String} {file : GrammarFile}

/-- A file that is loaded is read from its source. -/
theorem exists_source {files : Files} {path : String}
    (loaded : load files path = .ok file) :
    ∃ source, files.read path = .ok source ∧ file.grammar = .ofSource source := by
  unfold load at loaded
  split at loaded
  · cases loaded
  · split at loaded
    · cases loaded
    · next source isRead =>
      cases loaded
      exact ⟨source, isRead, rfl⟩

theorem allPoint_check (opened : file.grammar = .ofSource source) (files : Files)
    (library : Option String) :
    AllPoint source file (file.check files library).messages := by
  unfold check
  split
  · exact .nil
  · next isWellFormed =>
    have wellFormed : (Grammar.ofSource source).errors = [] := by
      rw [← opened]
      simpa [Grammar.isWellFormed] using isWellFormed
    have sameGrammar (external : Vocabulary) :
        (file.scope external).grammar = .ofSource source := opened
    have sameRules (external : Vocabulary) :
        (file.scope external).rules = (Grammar.ofSource source).tree.rules := by
      rw [← opened]
      rfl
    apply AllPoint.append
    apply AllPoint.append
    apply AllPoint.append
    · apply AllPoint.append
      apply AllPoint.append
      · exact Check.allPoint_fileName opened
      · exact Check.allPoint_prequels opened
      · exact Check.allPoint_options opened
    · refine Check.allPoint_loadEach fun node isName => .node ?_ (Or.inr (by decide))
      rw [opened] at isName
      exact Grammar.vocabularyName_mem isName
    · refine Check.allPoint_loadEach fun node isName => .quoted ?_
      rw [opened] at isName
      exact Grammar.quoted_importName isName
    · apply AllPoint.append
      apply AllPoint.append
      apply AllPoint.append
      apply AllPoint.append
      · apply AllPoint.append
        apply AllPoint.append
        · exact Check.allPoint_modes (sameGrammar _)
        · refine .flatMap fun rule isRule => Check.allPoint_declaration ?_
          rwa [sameRules] at isRule
        · exact Check.allPoint_someRule (sameGrammar _) wellFormed
      · exact Check.allPoint_references (sameGrammar _)
      · refine .flatMap fun rule isRule => Check.allPoint_labelsOfRule ?_
        rwa [sameRules] at isRule
      · exact Check.allPoint_commands opened
      · exact Check.allPoint_emptyMatches (sameRules _)

theorem allPoint_inspect (opened : file.grammar = .ofSource source) (files : Files)
    (library : Option String) :
    AllPoint source file (file.inspect files library).messages := by
  refine AllPoint.append (.map fun error isError => .error ?_)
    (allPoint_check opened files library)
  rwa [opened] at isError

end GrammarFile

end GrammarInspector
