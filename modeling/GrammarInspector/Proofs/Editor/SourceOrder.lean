import GrammarInspector.Proofs.Editor.Occurrences
import GrammarInspector.Proofs.Grammar.Modes
import GrammarInspector.Proofs.Grammar.Texts
import GrammarInspector.Proofs.Sorting

/-! # The order of references

Names are listed outside of modes first and in modes behind them, and references are
listed as their names are. That is the order of the source where the names of the rules
are in that order, and only there. A faulty `mode` line can move a rule in front of a mode
that precedes it; without errors nothing is moved.
-/

namespace GrammarInspector

open List

namespace Node

/-- Whether a node begins and ends before another one begins. -/
def Earlier (left right : Node) : Prop :=
  ∃ own other, left.tree.span = some own ∧ right.tree.span = some other ∧
    own.start < other.start ∧ own.stop ≤ other.start

/-- The order in which names are listed. -/
def Listed (left right : Node) : Prop :=
  left.inMode = right.inMode ∧ left.Earlier right ∨ left.inMode = false ∧
    right.inMode = true

/-- What is listed in order is first what stands outside of modes and then what
stands in modes. -/
theorem eq_append_of_listed {nodes : List Node} (listed : nodes.Pairwise Listed) :
    nodes = nodes.filter (!·.inMode) ++ nodes.filter (·.inMode) := by
  refine eq_filter_append_filter (listed.imp ?_)
  rintro left right (⟨same, _⟩ | ⟨outside, _⟩) inside
  · exact same.symm.trans inside
  · cases outside.symm.trans inside

/-- What is listed in order, and stands on one side, is in the order of the source. -/
theorem earlier_of_listed {nodes : List Node} (listed : nodes.Pairwise Listed)
    {keeps : Node → Bool} (side : Bool)
    (onSide : ∀ node, keeps node = true → node.inMode = side) :
    (nodes.filter keeps).Pairwise Earlier := by
  refine pairwise_filter.mpr (listed.imp ?_)
  rintro left right (⟨_, earlier⟩ | ⟨outside, inside⟩) keepsLeft keepsRight
  · exact earlier
  · have same := (onSide left keepsLeft).trans (onSide right keepsRight).symm
    rw [outside, inside] at same
    cases same

end Node

namespace Editor.Range

/-- Whether a range begins and ends before another one begins. -/
def Earlier (left right : Range) : Prop :=
  left.start.toPosition.Before right.start.toPosition ∧
    ¬right.start.toPosition.Before left.stop.toPosition

instance (left right : Range) : Decidable (left.Earlier right) :=
  inferInstanceAs (Decidable (_ ∧ _))

end Editor.Range

namespace Grammar

open Editor (Place Range)

variable {source : String} {place : Place} {left right name rule symbol : Node}

/-! ## Names -/

/-- All names in a grammar, in pre-order. -/
def names (grammar : Grammar) : List Node := grammar.tree.nodes.filter (·.kind.isName)

/-- The names of rules, in pre-order. -/
def declarations (grammar : Grammar) : List Node := grammar.names.filter isDeclaration

theorem mem_names {grammar : Grammar} : name ∈ grammar.names ↔ grammar.IsName name :=
  mem_filter.trans ⟨fun ⟨member, ofKind⟩ => ⟨member, ofKind⟩,
    fun ⟨member, ofKind⟩ => ⟨member, ofKind⟩⟩

theorem nodesOfKind_sublist {grammar : Grammar} {kind : NodeKind}
    (isName : kind.isName = true) :
    (grammar.tree.nodesOfKind kind).Sublist grammar.names := by
  have only : grammar.tree.nodesOfKind kind = grammar.names.filter (·.kind = kind) := by
    rw [Tree.nodesOfKind, names, filter_filter]
    refine filter_congr fun node _ => ?_
    cases same : decide (node.kind = kind) with
    | false => rfl
    | true =>
      rw [of_decide_eq_true same, isName]
      rfl
  rw [only]
  exact filter_sublist

/-- A name is a token of the source, and has its place. -/
theorem exists_span_of_name (member : name ∈ (ofSource source).names) :
    ∃ token ∈ significantTokens source, token.kind.isIdentifier = true ∧
      name.tree.span = some token.span ∧ name.tree.anchor = some token.span ∧
      name.text = token.text := by
  have isName := mem_names.mp member
  obtain ⟨token, tokenMember, isIdentifier, _, begins, text⟩ :=
    exists_token_of_name isName
  obtain ⟨_, _, _, own, _⟩ := Reading.shown_of_mem isName.member
    (NodeKind.isText_of_isName isName.ofKind) isName.ne_identifier
  have same := (Tree.anchor_of_span own).symm.trans begins
  exact ⟨token, tokenMember, isIdentifier, own.trans same, begins, text⟩

theorem earlier_of_precedes (leftMember : left ∈ (ofSource source).names)
    (rightMember : right ∈ (ofSource source).names) (precedes : left.Precedes right) :
    left.Earlier right := by
  obtain ⟨token, tokenMember, _, own, begins, _⟩ := exists_span_of_name leftMember
  obtain ⟨next, _, _, nextOwn, nextBegins, _⟩ := exists_span_of_name rightMember
  have leftText := NodeKind.isText_of_isName (mem_names.mp leftMember).2
  have rightText := NodeKind.isText_of_isName (mem_names.mp rightMember).2
  have apart :=
    precedes.places leftText (NodeKind.not_isModifier_of_isText rightText) _ _ begins
    nextBegins
  exact ⟨_, _, own, nextOwn, Nat.lt_of_lt_of_le (start_lt_stop tokenMember) apart, apart⟩

theorem pairwise_listed (source : String) :
    (ofSource source).names.Pairwise Node.Listed := by
  refine (Reading.pairwise_names (ordered_significantTokens source)).imp_of_mem ?_
  intro left right leftMember rightMember related
  exact related.imp_left fun ⟨same, precedes⟩ =>
    ⟨same, earlier_of_precedes leftMember rightMember precedes⟩

/-! ## Names of rules -/

theorem exists_declaration_of_rule (member : rule ∈ (ofSource source).tree.rules) :
    ∃ name ∈ (ofSource source).declarations, name ∈ rule.descendants ∧
    name.index = rule.index + 1 := by
  obtain ⟨isNode, ofKind⟩ := mem_filter.mp member
  obtain ⟨_, _, name, first, isName⟩ :=
    (Reading.sourced_of_mem isNode).declared (of_decide_eq_true ofKind)
  obtain ⟨above, index⟩ := Node.above_of_firstChild? first
  have nameMember := mem_names.mpr ⟨Tree.firstChild_mem_nodes isNode first, isName⟩
  refine ⟨name, mem_filter.mpr ⟨nameMember, ?_⟩, ?_, index⟩
  · rw [isDeclaration, Node.parent?, above]
    exact ofKind
  · exact Node.mem_descendants_of_mem_children (mem_of_mem_head? first)

theorem earlier_of_declarations {first second : Node}
    (inOrder : (ofSource source).declarations.Pairwise Node.Earlier)
    (firstMember : first ∈ (ofSource source).declarations)
    (secondMember : second ∈ (ofSource source).declarations)
    (numbers : first.index < second.index) : first.Earlier second := by
  rw [declarations, names, filter_filter] at *
  obtain ⟨firstNode, firstKept⟩ := mem_filter.mp firstMember
  obtain ⟨secondNode, secondKept⟩ := mem_filter.mp secondMember
  exact Tree.rel_of_index_lt (pairwise_filter.mp inOrder) firstNode secondNode
    numbers firstKept secondKept

/-- Names are in the order of the source if the names of rules are. -/
theorem pairwise_earlier_iff (source : String) :
    (ofSource source).names.Pairwise Node.Earlier ↔
    (ofSource source).declarations.Pairwise Node.Earlier := by
  refine ⟨fun inOrder => inOrder.filter _, fun inOrder => ?_⟩
  refine (pairwise_listed source).imp_of_mem ?_
  rintro left right leftMember rightMember (⟨_, earlier⟩ | ⟨outside, inside⟩)
  · exact earlier
  obtain ⟨leftNode, leftName⟩ := mem_names.mp leftMember
  obtain ⟨rightNode, rightName⟩ := mem_names.mp rightMember
  rcases Reading.precedes_or_rules (ordered_significantTokens source) leftNode
    leftName rightNode rightName outside inside with
      precedes | ⟨rule, isRule, other, otherRule, numbers, before⟩
  · exact earlier_of_precedes leftMember rightMember precedes
  -- The names of the two rules would be in order, and they are not.
  · obtain ⟨first, firstMember, inRule, firstIndex⟩ := exists_declaration_of_rule isRule
    obtain ⟨second, secondMember, inOther, secondIndex⟩ :=
      exists_declaration_of_rule otherRule
    obtain ⟨own, next, ownSpan, nextSpan, starts, _⟩ :=
      earlier_of_declarations inOrder firstMember secondMember (by omega)
    obtain ⟨token, tokenMember, _, span, _⟩ :=
      exists_span_of_name (mem_filter.mp secondMember).1
    have positive := start_lt_stop tokenMember
    cases span.symm.trans nextSpan
    have stops :=
      (before second inOther first inRule).places _ _ (Tree.anchor_of_span nextSpan)
      (Tree.anchor_of_span ownSpan)
    omega

/-- Without errors names are in the order of the source. -/
theorem pairwise_earlier_of_errors_nil (none : (ofSource source).errors = []) :
    (ofSource source).names.Pairwise Node.Earlier := by
  have noFaults := ((errors_eq_nil_iff source).mp none).2
  have inOrder :=
    (Reading.nonempty_listing_of_faults_nil noFaults (ordered_significantTokens source)).2
  exact (List.Pairwise.filter _ inOrder).imp_of_mem earlier_of_precedes

/-! ## Ranges -/

theorem rangeOf_earlier (leftMember : left ∈ (ofSource source).names)
    (rightMember : right ∈ (ofSource source).names) (earlier : left.Earlier right) :
    ((ofSource source).rangeOf left).Earlier ((ofSource source).rangeOf right) := by
  obtain ⟨token, tokenMember, isIdentifier, span, begins, text⟩ :=
    exists_span_of_name leftMember
  obtain ⟨next, nextMember, nextIdentifier, nextSpan, nextBegins, _⟩ :=
    exists_span_of_name rightMember
  obtain ⟨_, _, own, other, _, apart⟩ := earlier
  cases span.symm.trans own
  cases nextSpan.symm.trans other
  obtain ⟨_, positioned, counted, _, range⟩ := exists_rangeOf (mem_names.mp leftMember)
  obtain ⟨_, nextPositioned, nextCounted, _, nextRange⟩ :=
    exists_rangeOf (mem_names.mp rightMember)
  cases (position?_eq begins rfl).symm.trans positioned
  cases (position?_eq nextBegins rfl).symm.trans nextPositioned
  have lines := Token.line_le (mem_ofText tokenMember) (mem_ofText nextMember) apart
  have columns := Token.column_lt_of_names (mem_ofText tokenMember)
      (mem_ofText nextMember) isIdentifier
    nextIdentifier apart
  rw [range, nextRange, text]
  simp only [Range.Earlier, Range.ofLength, Place.ofPosition, Place.toPosition,
    Position.Before]
  omega

theorem pairwise_rangeOf {nodes : List Node} (included : nodes ⊆ (ofSource source).names)
    (inOrder : nodes.Pairwise Node.Earlier) :
    (nodes.map (ofSource source).rangeOf).Pairwise Range.Earlier := by
  refine pairwise_map.mpr (inOrder.imp_of_mem ?_)
  intro left right leftMember rightMember earlier
  exact rangeOf_earlier (included leftMember) (included rightMember) earlier

/-- The occurrences of a symbol, with or without those that declare it. -/
def referring (grammar : Grammar) (symbol : Node) (withDeclaration : Bool) : List Node :=
  (grammar.occurrences symbol).filter fun node => withDeclaration || !isDeclaration node

theorem referring_sublist (grammar : Grammar) (isName : symbol.kind.isName = true)
    (withDeclaration : Bool) :
    (grammar.referring symbol withDeclaration).Sublist grammar.names :=
  filter_sublist.trans (filter_sublist.trans (nodesOfKind_sublist isName))

/-- References on one side of a grammar are in the order of the source. -/
theorem pairwise_referring (isName : symbol.kind.isName = true) (withDeclaration : Bool)
    {keeps : Node → Bool} (side : Bool)
    (onSide : ∀ node, keeps node = true → node.inMode = side) :
    ((((ofSource source).referring symbol withDeclaration).filter keeps).map
      (ofSource source).rangeOf).Pairwise Range.Earlier := by
  have sublist := referring_sublist (ofSource source) isName withDeclaration
  refine pairwise_rangeOf (filter_sublist.trans sublist).subset ?_
  exact Node.earlier_of_listed ((pairwise_listed source).sublist sublist) side onSide

/-- Names, and the references to a symbol, are listed outside of modes first, and on each
side in the order of the source. All of them are in the order of the source if the names
of rules are, which is so without errors. -/
theorem references_listed_by_mode (source : String) :
    (∀ kind : NodeKind, kind = .tokenRef ∨ kind = .ruleRef →
      ((ofSource source).tree.nodesOfKind kind).Pairwise Node.Listed) ∧
    (∀ place symbol, (ofSource source).symbol? place = some symbol →
      symbol.kind = .tokenRef ∨ symbol.kind = .ruleRef → ∀ withDeclaration,
        ∃ outside inside : List Node,
          (ofSource source).references place withDeclaration =
            (outside ++ inside).map (ofSource source).rangeOf ∧
          (∀ name ∈ outside, name.inMode = false) ∧
          (∀ name ∈ inside, name.inMode = true) ∧
          (outside.map (ofSource source).rangeOf).Pairwise Range.Earlier ∧
          (inside.map (ofSource source).rangeOf).Pairwise Range.Earlier) ∧
    ((ofSource source).names.Pairwise Node.Earlier ↔
      (ofSource source).declarations.Pairwise Node.Earlier) ∧
    ((ofSource source).declarations.Pairwise Node.Earlier →
      (∀ kind : NodeKind, kind = .tokenRef ∨ kind = .ruleRef →
        ((ofSource source).tree.nodesOfKind kind).Pairwise Node.Earlier) ∧
      ∀ place symbol, (ofSource source).symbol? place = some symbol →
        symbol.kind = .tokenRef ∨ symbol.kind = .ruleRef → ∀ withDeclaration,
          ((ofSource source).references place withDeclaration).Pairwise Range.Earlier) ∧
    ((ofSource source).errors = [] →
      (ofSource source).declarations.Pairwise Node.Earlier) := by
  have isName {kind : NodeKind} := @NodeKind.isName_of_eq_or_eq kind
  refine ⟨?_, ?_, pairwise_earlier_iff source, ?_, ?_⟩
  · exact fun kind ofKind =>
      (pairwise_listed source).sublist (nodesOfKind_sublist (isName ofKind))
  · intro place symbol found ofKind withDeclaration
    have listed :=
      (pairwise_listed source).sublist
        (referring_sublist _ (isName ofKind) withDeclaration)
    have onOuter (node : Node) (kept : (!node.inMode) = true) :
        node.inMode = false := by simpa using kept
    have onInner (node : Node) (kept : node.inMode = true) : node.inMode = true := kept
    refine ⟨_, _, ?_, ?_, ?_, pairwise_referring (isName ofKind) withDeclaration
      false onOuter, pairwise_referring (isName ofKind) withDeclaration true onInner⟩
    · rw [← Node.eq_append_of_listed listed]
      exact references_eq found withDeclaration
    · exact fun name member => onOuter name (mem_filter.mp member).2
    · exact fun name member => onInner name (mem_filter.mp member).2
  · intro declared
    have inOrder := (pairwise_earlier_iff source).mpr declared
    refine ⟨fun kind ofKind => inOrder.sublist (nodesOfKind_sublist (isName ofKind)), ?_⟩
    intro place symbol found ofKind withDeclaration
    have sublist := referring_sublist (ofSource source) (isName ofKind) withDeclaration
    rw [references_eq found]
    exact pairwise_rangeOf sublist.subset (inOrder.sublist sublist)
  · exact fun none => (pairwise_earlier_iff source).mp
      (pairwise_earlier_of_errors_nil none)

/-- Without errors the two references to `a` and its declaration are in order.
The reference to `A` behind a faulty `mode` line is outside of modes, the other
two are in one. -/
theorem references_listed_by_mode_twice :
    ((ofSource "grammar T; r : a B a ; a : B ;").references ⟨0, 15⟩ true).Pairwise
      Range.Earlier ∧
      ((ofSource "grammar T; r : a B a ; a : B ;").references ⟨0, 15⟩ true).length = 3 ∧
      ((ofSource "lexer grammar G; mode M; A : A ; mode ; B : A ;").tree.nodesOfKind
        .tokenRef).Pairwise Node.Listed ∧
      ∃ outside inside : List Node,
        (ofSource "lexer grammar G; mode M; A : A ; mode ; B : A ;").references
          ⟨0, 25⟩ true = (outside ++ inside).map
            (ofSource "lexer grammar G; mode M; A : A ; mode ; B : A ;").rangeOf ∧
        (∀ name ∈ outside, name.inMode = false) ∧
        ∀ name ∈ inside, name.inMode = true := by
  have noErrors : (ofSource "grammar T; r : a B a ; a : B ;").errors = [] := by
    decide +kernel
  have finds : ((ofSource "grammar T; r : a B a ; a : B ;").symbol? ⟨0, 15⟩).any
      (·.kind = .ruleRef) = true := by
    decide +kernel
  have findsToken :
      ((ofSource "lexer grammar G; mode M; A : A ; mode ; B : A ;").symbol? ⟨0, 25⟩).any
      (·.kind = .tokenRef) = true := by
    decide +kernel
  obtain ⟨symbol, found, ofKind⟩ := (Option.any_eq_true _ _).mp finds
  obtain ⟨token, tokenFound, ofToken⟩ := (Option.any_eq_true _ _).mp findsToken
  obtain ⟨_, _, _, inOrder, declared⟩ :=
    references_listed_by_mode "grammar T; r : a B a ; a : B ;"
  obtain ⟨listed, split, _⟩ :=
    references_listed_by_mode "lexer grammar G; mode M; A : A ; mode ; B : A ;"
  obtain ⟨outside, inside, equal, areOutside, areInside, _⟩ :=
    split ⟨0, 25⟩ token tokenFound (Or.inl (of_decide_eq_true ofToken)) true
  exact ⟨(inOrder (declared noErrors)).2 ⟨0, 15⟩ symbol found
    (Or.inr (of_decide_eq_true ofKind)) true,
    by decide +kernel, listed .tokenRef (Or.inl rfl), outside, inside, equal,
      areOutside, areInside⟩

/-- The rule behind the line `mode ;` refers to `A`, and its reference is listed first. -/
theorem references_behind_faulty_mode_line :
    (ofSource "lexer grammar G;\nmode M;\nA : 'a' ;\nmode ;\nB : A ;\n").references
        ⟨2, 0⟩ true = [⟨⟨4, 4⟩, ⟨4, 5⟩⟩, ⟨⟨2, 0⟩, ⟨2, 1⟩⟩] ∧
      ¬((ofSource "lexer grammar G;\nmode M;\nA : 'a' ;\nmode ;\nB : A ;\n").references
        ⟨2, 0⟩ true).Pairwise Range.Earlier := by
  decide +kernel

end Grammar

end GrammarInspector
