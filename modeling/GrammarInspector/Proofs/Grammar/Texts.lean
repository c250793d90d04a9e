import GrammarInspector.Proofs.Editor.Covers
import GrammarInspector.Proofs.Grammar.Labels
import GrammarInspector.Proofs.Grammar.Language
import GrammarInspector.Proofs.Grammar.Listing
import GrammarInspector.Proofs.Grammar.Shape.Reading

/-! # The text of a source in its tree

Where a source is read without errors, no text is lost, duplicated or moved: each token
with a text is shown by one node or is one label, and the nodes that show text follow the
source.
-/

namespace GrammarInspector

open List

namespace Reading

/-- Without faults there are no strays, and modes are built without passing
over a text. -/
theorem built_modes_of_faults_nil {modes : List (List Token × ModeSection)}
    (took : ∀ part ∈ modes, TookMode part.1 part.2)
    (none : modes.flatMap (·.2.faults) = []) :
    modes.flatMap (·.2.strays) = [] ∧
        Tree.Built (fun token => token.kind.isText = false) false (modes.flatMap (·.1))
        (modes.filterMap (·.2.mode)) := by
  induction modes with
  | nil => exact ⟨rfl, .nothing⟩
  | cons part rest induction =>
    obtain ⟨headNone, tailNone⟩ := append_eq_nil_iff.mp none
    obtain ⟨head, tail⟩ := forall_mem_cons.mp took
    obtain ⟨noStrays, built⟩ := induction tail tailNone
    obtain ⟨taken, found⟩ := part
    rw [filterMap_mode_cons, flatMap_cons, noStrays]
    cases head with
    | mode _ _ reads => exact ⟨rfl, (reads headNone).built.append built⟩
    | strays _ _ => cases headNone

/-- Without faults a grammar is built from all its tokens, and none with a text is
passed over. -/
theorem built_of_faults_nil {tokens : List Token} (none : (ofTokens tokens).faults = []) :
    ∃ text span children, (ofTokens tokens).tree = .node ⟨.grammar, text, span,
      Option.none⟩ children ∧
      Tree.Built (fun token => token.kind.isText = false) false tokens children := by
  obtain ⟨division⟩ := nonempty_division tokens
  rw [division.faults_eq, append_eq_nil_iff, append_eq_nil_iff, append_eq_nil_iff] at none
  obtain ⟨⟨⟨noLine, noSections⟩, noRules⟩, noModes⟩ := none
  obtain ⟨noStrays, modes⟩ := built_modes_of_faults_nil division.tookModes noModes
  have line := (division.tookLine.reads noLine).built
  have sections := (division.tookSections.reads noSections).built
  have declared := (division.tookDeclared.reads noRules).built
  have rules : Tree.Built (fun token => token.kind.isText = false) false
      division.declaredTokens
      [.group .rules division.declared.trees] := .group rfl declared
  have whole := line.append (sections.append (rules.append modes))
  have tokensEqual := division.tokens_eq
  rw [division.complete noModes, append_nil] at tokensEqual
  refine ⟨_, _, _, division.tree_eq, ?_⟩
  rw [noStrays, append_nil, append_assoc, append_assoc]
  exact (congrArg (Tree.Built _ false · _) tokensEqual).mpr whole

/-- Without faults the nodes that stand for text have a listing, and those that show it
follow the source. -/
theorem nonempty_listing_of_faults_nil {tokens : List Token}
    (none : (ofTokens tokens).faults = []) (ordered : Token.Ordered tokens) :
    Nonempty (Listing tokens (ofTokens tokens).tree.nodes) ∧
    (ofTokens tokens).tree.nodes.Pairwise Node.Precedes := by
  obtain ⟨text, span, children, equal, built⟩ := built_of_faults_nil none
  rw [equal, Tree.nodes_eq, Node.ofTree_node]
  constructor
  · obtain ⟨listing⟩ :=
      built.nonempty_listing 1 [(0, .node ⟨.grammar, text, span, Option.none⟩ children)]
    exact ⟨listing.hide rfl⟩
  · refine pairwise_cons.mpr ⟨fun _ _ => ?_, built.pairwise_precedes ordered _ _⟩
    exact .of_neither Bool.false_ne_true rfl

end Reading

namespace Token

theorem start_lt_stop {source : List Char} {token : Token}
    (member : token ∈ ofText source) (notEnd : token.kind ≠ .eof) :
    token.span.start < token.span.stop := by
  obtain ⟨placed⟩ := nonempty_placed member
  have positive := Text.utf8Length_pos (placed.text_ne_nil notEnd)
  rw [placed.start_eq, placed.stop_eq, Text.utf8Length_append]
  omega

theorem isSignificant_of_isText {token : Token} (isText : token.kind.isText = true) :
    token.isSignificant = true := by
  unfold isSignificant
  cases kind : token.kind <;> simp_all [TokenKind.isText]

end Token

/-- The only member of a list that satisfies a predicate is what filtering leaves. -/
theorem filter_eq_singleton {α : Type} {values : List α} {value : α} {accepts : α → Bool}
    (distinct : values.Nodup) (member : value ∈ values) (accepted : accepts value = true)
    (only : ∀ other ∈ values, accepts other = true → other = value) :
    values.filter accepts = [value] := by
  apply perm_singleton.mp
  apply (perm_ext_iff_of_nodup (distinct.filter _) (nodup_singleton value)).mpr
  intro other
  rw [mem_filter, mem_singleton]
  constructor
  · exact fun ⟨inside, isAccepted⟩ => only other inside isAccepted
  · rintro rfl
    exact ⟨member, accepted⟩

theorem NodeKind.not_isModifier_of_isText {kind : NodeKind}
    (isText : kind.isText = true) : kind.isModifier = false := by
  cases kind <;> cases isText <;> rfl

namespace Node

/-- Whether a node was built from tokens that enclose a span. -/
def encloses (node : Node) (span : Span) : Bool := node.tree.span.any (·.encloses span)

/-- Whether a node is the value of an option, made of several names with dots
between them. -/
structure DottedValue (names : List Token) (node : Node) : Prop where
  several : 2 ≤ names.length
  areNames : ∀ name ∈ names, name.kind.isIdentifier = true
  dotted : ∃ first rest, names = first :: rest ∧ node.tree = Tree.dotted first rest
  value : ∃ option options, node.parent? = some option ∧ option.kind = .assign ∧
    option.parent? = some options ∧ options.kind = .options

end Node

namespace Grammar

/-- The nodes that show text, in pre-order. -/
def textNodes (grammar : Grammar) : List Node := grammar.tree.nodes.filter (·.kind.isText)

/-- The labels at a span. -/
def labelsAt (grammar : Grammar) (span : Span) : List Labelled :=
  grammar.labels.filter (·.label.span = span)

section

variable {source : String} {node : Node} {token : Token} {entry : Labelled}

theorem known_of_isText (member : token ∈ Token.ofText source.toList)
    (isText : token.kind.isText = true) : token ∈ significantTokens source :=
  mem_filter.mpr ⟨member, Token.isSignificant_of_isText isText⟩

theorem start_lt_stop (member : token ∈ significantTokens source) :
    token.span.start < token.span.stop := by
  obtain ⟨inSource, significant⟩ := mem_filter.mp member
  refine Token.start_lt_stop inSource fun isEnd => ?_
  rw [Token.isSignificant, isEnd] at significant
  cases significant

/-- Whether a node carries a text whose span encloses a token. -/
def CarriesText (source : String) (token : Token) (node : Node) : Prop :=
  node ∈ (ofSource source).tree.nodes ∧ node.carriesText = true ∧
    ∃ span, node.textSpan? = some span ∧ span.encloses token.span = true

theorem CarriesText.eq
    (listing : Listing (significantTokens source) (ofSource source).tree.nodes)
    (isKnown : token ∈ significantTokens source) {other : Node}
    (carries : CarriesText source token node)
    (otherCarries : CarriesText source token other) : node = other := by
  obtain ⟨member, carriesText, own, ownSpan, encloses⟩ := carries
  obtain ⟨otherMember, otherText, otherOwn, otherSpan, otherEncloses⟩ := otherCarries
  exact listing.eq_of_encloses (ordered_significantTokens source) member
    carriesText otherMember
    otherText (start_lt_stop isKnown) ownSpan otherSpan encloses otherEncloses

theorem carriesText_of_textNodes (member : node ∈ (ofSource source).textNodes)
    (encloses : node.encloses token.span = true) : CarriesText source token node := by
  obtain ⟨inTree, isText⟩ := mem_filter.mp member
  obtain ⟨span, own, inside⟩ := (Option.any_eq_true _ _).mp encloses
  exact ⟨inTree, by simp [Node.carriesText, isText],
    span, by simp [Node.textSpan?, isText, own], inside⟩

/-- An alternative with a label carries the text of the label. -/
theorem carriesText_of_labelsAt
    (isEntry : entry ∈ (ofSource source).labelsAt token.span) :
    CarriesText source token entry.alternative ∧
    entry.alternative.kind.isText = false := by
  obtain ⟨isLabel, atToken⟩ := mem_filter.mp isEntry
  obtain ⟨_, member, _, _, hasLabel⟩ := exists_block_of_mem_labels isLabel
  have stands := (Reading.stands_tree (significantTokens source)).of_mem member
  have isAlternative := (stands.allowed.labelled (by simp [hasLabel])).1
  have notText : entry.alternative.kind.isText = false := by
    rw [Node.kind, isAlternative]
    rfl
  refine ⟨⟨member, by simp [Node.carriesText, hasLabel], entry.label.span, ?_, ?_⟩,
    notText⟩
  · simp [Node.textSpan?, notText, hasLabel]
  · rw [of_decide_eq_true atToken]
    exact Span.encloses_refl _

theorem nodup_textNodes (grammar : Grammar) : grammar.textNodes.Nodup := by
  refine (grammar.tree.pairwise_index_nodes.filter _).imp ?_
  intro left right before same
  simp [same] at before

/-- A token whose text a node shows is no label, and no other node shows it. -/
theorem shown_once
    (listing : Listing (significantTokens source) (ofSource source).tree.nodes)
    (isKnown : token ∈ significantTokens source)
    (member : node ∈ (ofSource source).textNodes)
    (encloses : node.encloses token.span = true) :
    (ofSource source).textNodes.filter (·.encloses token.span) = [node] ∧
      (ofSource source).labelsAt token.span = [] := by
  have carries := carriesText_of_textNodes member encloses
  constructor
  · refine filter_eq_singleton (nodup_textNodes _) member encloses
      fun other otherMember inside => ?_
    exact (carriesText_of_textNodes otherMember inside).eq listing isKnown carries
  · refine eq_nil_iff_forall_not_mem.mpr fun entry isEntry => ?_
    obtain ⟨labelCarries, notText⟩ := carriesText_of_labelsAt isEntry
    rw [labelCarries.eq listing isKnown carries, (mem_filter.mp member).2] at notText
    cases notText

/-- A token that is a label is one label, and no node shows it. -/
theorem labelled_once
    (listing : Listing (significantTokens source) (ofSource source).tree.nodes)
    (isKnown : token ∈ significantTokens source)
    (isEntry : entry ∈ (ofSource source).labelsAt token.span) :
    (ofSource source).labelsAt token.span = [entry] ∧
      (ofSource source).textNodes.filter (·.encloses token.span) = [] := by
  obtain ⟨carries, notText⟩ := carriesText_of_labelsAt isEntry
  obtain ⟨isLabel, atToken⟩ := mem_filter.mp isEntry
  constructor
  · refine filter_eq_singleton (nodup_labels _) isLabel atToken
      fun other isOther otherAt => ?_
    have otherEntry : other ∈ (ofSource source).labelsAt token.span :=
      mem_filter.mpr ⟨isOther, otherAt⟩
    have same := (carriesText_of_labelsAt otherEntry).1.eq listing isKnown carries
    exact eq_of_alternative isOther isLabel same
  · refine filter_eq_nil_iff.mpr fun node member encloses => ?_
    have shown := (carriesText_of_textNodes member encloses).eq listing isKnown carries
    rw [← shown, (mem_filter.mp member).2] at notText
    cases notText

theorem span_eq_of_encloses {other : Token} (isKnown : token ∈ significantTokens source)
    (otherKnown : other ∈ significantTokens source)
    (encloses : other.span.encloses token.span = true) : other.span = token.span := by
  let apart (left right : Token) : Prop := left.span.Apart right.span
  have symmetric : Std.Symm apart := ⟨fun _ _ => Or.symm⟩
  have pairs : (significantTokens source).Pairwise apart :=
    (ordered_significantTokens source).imp Or.inl
  by_contra different
  have isApart :=
    pairs.forall otherKnown isKnown fun same => different (congrArg Token.span same)
  exact Span.not_apart (start_lt_stop isKnown) encloses (Span.encloses_refl _) isApart

/-- Several names that are shown together are the value of an option. -/
theorem span_eq_or_dottedValue {first second : Token} {rest : List Token}
    (member : node ∈ (ofSource source).tree.nodes)
    (isKnown : token ∈ significantTokens source)
    (isDotted : node.tree = Tree.dotted first (second :: rest))
    (areNames : ∀ name ∈ first :: second :: rest, name.kind.isIdentifier = true)
    (encloses : node.encloses token.span = true) :
    node.tree.span = some token.span ∨ node.DottedValue (first :: second :: rest) := by
  have stands := (Reading.stands_tree (significantTokens source)).of_mem member
  have isIdentifier : node.tree.kind = .identifier := by
    rw [isDotted]
    rfl
  rcases stands.allowed.named isIdentifier with
    ⟨shown, shownKnown, own⟩ | ⟨further, kinds⟩
  · left
    rw [Node.encloses, own] at encloses
    rw [own, span_eq_of_encloses isKnown shownKnown encloses]
  · right
    refine ⟨by simp, areNames, ⟨first, second :: rest, rfl, isDotted⟩, ?_⟩
    obtain ⟨index, tree, above⟩ := node
    obtain ⟨⟨_, option⟩, behind, rfl, isAssign, kinds⟩ := map_eq_cons_iff.mp kinds
    obtain ⟨⟨_, options⟩, behind, rfl, isOptions, kinds⟩ := map_eq_cons_iff.mp kinds
    exact ⟨_, _, rfl, isAssign, rfl, isOptions⟩

/-- A token with a text is shown by one node or is one label. -/
theorem shown_or_labelled
    (listing : Listing (significantTokens source) (ofSource source).tree.nodes)
    (isKnown : token ∈ significantTokens source) (isText : token.kind.isText = true) :
    (∃ node, (ofSource source).textNodes.filter (·.encloses token.span) = [node] ∧
      (ofSource source).labelsAt token.span = [] ∧
      (node.tree.span = some token.span ∨ ∃ names, token ∈ names ∧
        (∀ name ∈ names, name ∈ Token.ofText source.toList) ∧ node.DottedValue names)) ∨
    ∃ entry, (ofSource source).labelsAt token.span = [entry] ∧
      (ofSource source).textNodes.filter (·.encloses token.span) = [] := by
  obtain ⟨⟨tokens, node⟩, isEntry, shown⟩ :=
    mem_flatMap.mp (listing.complete token isKnown isText)
  have inTree : node ∈ (ofSource source).tree.nodes := listing.mem_nodes isEntry
  have standsFor : node.StandsFor tokens := listing.standsFor _ isEntry
  obtain ⟨span, ofText, _, inside⟩ := standsFor.exists_span
  -- A node that shows text has the span of its text.
  have ofShown (nodeText : node.kind.isText = true) :
      node ∈ (ofSource source).textNodes ∧ node.encloses token.span = true := by
    rw [Node.textSpan?, if_pos nodeText] at ofText
    refine ⟨mem_filter.mpr ⟨inTree, nodeText⟩, ?_⟩
    rw [Node.encloses, ofText]
    exact inside token shown
  cases standsFor with
  | shows nodeText own =>
    left
    cases mem_singleton.mp shown
    obtain ⟨member, encloses⟩ := ofShown nodeText
    obtain ⟨once, noLabel⟩ := shown_once listing isKnown member encloses
    exact ⟨node, once, noLabel, .inl own⟩
  | @dotted first second rest _ isDotted areNames =>
    left
    have nodeText : node.kind.isText = true := by
      rw [Node.kind, isDotted]
      rfl
    obtain ⟨member, encloses⟩ := ofShown nodeText
    obtain ⟨once, noLabel⟩ := shown_once listing isKnown member encloses
    refine ⟨node, once, noLabel, ?_⟩
    apply (span_eq_or_dottedValue inTree isKnown isDotted areNames encloses).imp_right
    intro isValue
    refine ⟨first :: second :: rest, shown, fun name member => ?_, isValue⟩
    exact mem_ofText (listing.mem_taken isEntry member)
  | label notText hasLabel own =>
    right
    cases mem_singleton.mp shown
    have stands : (ofSource source).tree.Stands (· ∈ significantTokens source) [] :=
      Reading.stands_tree (significantTokens source)
    obtain ⟨entry, isLabel, _, sameLabel⟩ := exists_entry_of_label stands inTree hasLabel
    have atToken : entry ∈ (ofSource source).labelsAt token.span := by
      refine mem_filter.mpr ⟨isLabel, decide_eq_true ?_⟩
      rw [sameLabel, own]
    exact ⟨entry, labelled_once listing isKnown atToken⟩

/-- A node that shows text has a span, and it is not empty. -/
theorem exists_span_of_textNodes
    (listing : Listing (significantTokens source) (ofSource source).tree.nodes)
    (member : node ∈ (ofSource source).textNodes) :
    ∃ span, node.tree.span = some span ∧ span.start < span.stop := by
  obtain ⟨inTree, isText⟩ := mem_filter.mp member
  obtain ⟨tokens, isEntry⟩ :=
    listing.exists_entry inTree (by simp [Node.carriesText, isText])
  obtain ⟨span, ofText, ⟨⟨first, isFirst, _⟩, _⟩, inside⟩ :=
    (listing.standsFor _ isEntry).exists_span
  rw [Node.textSpan?, if_pos isText] at ofText
  have encloses := Span.encloses_iff.mp (inside first isFirst)
  have nonempty := start_lt_stop (listing.mem_taken isEntry isFirst)
  exact ⟨span, ofText, by omega⟩

end

/-- Where a source is read without errors, each token with a text is either shown by
exactly one node, which shows nothing else unless it is the dotted value of an option, or
it is exactly one label. The nodes that show text have spans that are not empty and follow
one another in pre-order. -/
theorem text_preserved (source : String) (wellFormed : (ofSource source).errors = []) :
    (∀ token ∈ Token.ofText source.toList, token.kind.isText = true →
      (∃ node, (ofSource source).textNodes.filter (·.encloses token.span) = [node] ∧
        (ofSource source).labelsAt token.span = [] ∧
        (node.tree.span = some token.span ∨ ∃ names, token ∈ names ∧
          (∀ name ∈ names, name ∈ Token.ofText source.toList) ∧ node.DottedValue names)) ∨
      ∃ entry, (ofSource source).labelsAt token.span = [entry] ∧
        (ofSource source).textNodes.filter (·.encloses token.span) = []) ∧
      (∀ node ∈ (ofSource source).textNodes,
        ∃ span, node.tree.span = some span ∧ span.start < span.stop) ∧
      (ofSource source).textNodes.Pairwise fun left right =>
        ∀ own other, left.tree.span = some own → right.tree.span = some other →
          own.stop ≤ other.start := by
  obtain ⟨⟨listing⟩, precedes⟩ := Reading.nonempty_listing_of_faults_nil
    ((errors_eq_nil_iff source).mp wellFormed).2 (ordered_significantTokens source)
  refine ⟨?_, fun node => exists_span_of_textNodes listing, ?_⟩
  · intro token inSource isText
    exact shown_or_labelled listing (known_of_isText inSource isText) isText
  · refine (precedes.filter _).imp_of_mem ?_
    intro left right isLeft isRight inOrder own other ownSpan otherSpan
    have leftText := (mem_filter.mp isLeft).2
    have rightText := (mem_filter.mp isRight).2
    exact inOrder.places leftText (NodeKind.not_isModifier_of_isText rightText) own other
      (Tree.anchor_of_span ownSpan) (Tree.anchor_of_span otherSpan)

/-- A source with a dotted value and a label. -/
def labelledSource : String := "grammar G; options { superClass = a.B; } r : x=ID # one ;"

/-- Its label is no node, and it is listed once. -/
theorem text_preserved_label :
    (ofSource labelledSource).errors = [] ∧
      ∃ token ∈ Token.ofText labelledSource.toList, token.text = "one" ∧ ∃ entry,
        (ofSource labelledSource).labelsAt token.span = [entry] ∧
        (ofSource labelledSource).textNodes.filter (·.encloses token.span) = [] := by
  have noErrors : (ofSource labelledSource).errors = [] := by decide +kernel
  have labels : ((Token.ofText labelledSource.toList).any fun token =>
      token.text == "one" && token.kind.isText &&
        !((ofSource labelledSource).labelsAt token.span).isEmpty) =
          true := by decide +kernel
  obtain ⟨token, member, facts⟩ := any_eq_true.mp labels
  simp only [Bool.and_eq_true, beq_iff_eq, Bool.not_eq_true'] at facts
  obtain ⟨⟨text, isText⟩, isLabel⟩ := facts
  refine ⟨noErrors, token, member, text, ?_⟩
  rcases (text_preserved labelledSource noErrors).1 token member isText with
    ⟨_, _, noLabel, _⟩ | labelled
  · simp [noLabel] at isLabel
  · exact labelled

end Grammar

end GrammarInspector
