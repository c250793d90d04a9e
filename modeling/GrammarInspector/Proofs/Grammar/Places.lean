import GrammarInspector.Proofs.Arena.Reading
import GrammarInspector.Proofs.Grammar.Alike.Reading
import GrammarInspector.Proofs.Grammar.Texts
import GrammarInspector.Proofs.Token.Slices

/-! # Texts, spans, positions and ranges of nodes

A grammar shows the same place of a node in several ways: as a span of bytes, as a line
with a column, as a range for an editor, and by the text of the node. They agree, also
where the source has errors.
-/

namespace GrammarInspector

open List

/-- Spans of a source, each going with itself only. -/
def Span.inSource (source : String) : Span.Pairing where
  pairs span other := span = other ∧ span.Within source
  merge first second := ⟨by rw [first.1, second.1], first.2.merge second.2⟩

/-- Whether a token is a name that lies in a span. -/
def Span.holdsName (span : Span) (token : Token) : Bool :=
  token.kind.isIdentifier && span.encloses token.span

namespace Token

variable {tokens : List Token} {first : Token} {rest : List (Token × Token)}

theorem filter_pairs {accepts : Token → Bool}
    (each : ∀ pair ∈ rest, accepts pair.1 = false ∧ accepts pair.2 = true) :
    (rest.flatMap fun pair => [pair.1, pair.2]).filter accepts = rest.map (·.2) := by
  induction rest with
  | nil => rfl
  | cons pair rest induction =>
    obtain ⟨⟨left, right⟩, others⟩ := forall_mem_cons.mp each
    rw [flatMap_cons, filter_append, induction others]
    simp [left, right]

/-- Of all tokens in order, the names inside of a dotted name are those it was
joined from. -/
theorem filter_names (ordered : Ordered tokens)
    (nonempty : ∀ token ∈ tokens, token.span.start < token.span.stop)
    (together : (first :: rest.flatMap fun pair => [pair.1, pair.2]) <:+: tokens)
    (joined : first.Joined rest) {span : Span}
    (own : (Tree.dotted first (rest.map (·.2))).span = some span) :
    tokens.filter span.holdsName = first :: rest.map (·.2) := by
  obtain ⟨before, behind, rfl⟩ := together
  cases own
  obtain ⟨ofFirst, ofRest⟩ := Span.encloses_foldl_merge (rest.map (·.2)) first.span
  obtain ⟨⟨starting, startMember, start⟩, ending, stopMember, stop⟩ :=
    Tree.from_foldl_merge rest first
  generalize (rest.map (·.2)).foldl (fun span name => span.merge name.span)
    first.span = span at *
  obtain ⟨frontOrdered, _, apartBehind⟩ := pairwise_append.mp ordered
  obtain ⟨_, _, apartBefore⟩ := pairwise_append.mp frontOrdered
  have noneBefore : before.filter span.holdsName = [] := by
    refine filter_eq_nil_iff.mpr fun token member isInside => ?_
    have inOrder := apartBefore token member starting startMember
    have positive := nonempty token (by simp [member])
    have inside := Span.encloses_iff.mp (Bool.and_eq_true_iff.mp isInside).2
    omega
  have noneBehind : behind.filter span.holdsName = [] := by
    refine filter_eq_nil_iff.mpr fun token member isInside => ?_
    have inOrder := apartBehind ending (mem_append_right _ stopMember) token member
    have positive := nonempty token (by simp [member])
    have inside := Span.encloses_iff.mp (Bool.and_eq_true_iff.mp isInside).2
    omega
  have accepted : span.holdsName first = true := by
    rw [Span.holdsName, joined.isName, ofFirst]
    rfl
  rw [filter_append, filter_append, noneBefore, noneBehind, nil_append, append_nil,
    filter_cons_of_pos accepted]
  refine congrArg (first :: ·) (filter_pairs fun pair member => ?_)
  obtain ⟨isDot, isName⟩ := joined.areNames pair member
  rw [Span.holdsName, Span.holdsName, isDot, isName,
    ofRest pair.2 (mem_map_of_mem member)]
  exact ⟨rfl, rfl⟩

end Token

namespace Grammar

variable {source : String} {node : Node} {span : Span}

/-! ## Spans -/

theorem shows_of_mem {token : Token} (member : token ∈ significantTokens source) :
    token.span.Shows source token.text :=
  Token.shows_of_mem (mem_ofText member)

/-- All spans of a grammar lie in its source. -/
theorem alike_self (source : String) :
    (ofSource source).tree.Alike (Span.inSource source) (ofSource source).tree := by
  have tokens : Forall₂ (Token.Alike (Span.inSource source)) (significantTokens source)
      (significantTokens source) := by
    refine forall₂_same.mpr fun token member => ⟨rfl, rfl, rfl, ?_⟩
    exact (shows_of_mem member).within
  exact (Reading.ofTokens_alike tokens).tree

theorem node_alike_self (member : node ∈ (ofSource source).tree.nodes) :
    node.Alike (Span.inSource source) node :=
  forall₂_same.mp (alike_self source).nodes node member

theorem within_of_span (member : node ∈ (ofSource source).tree.nodes)
    (own : node.tree.span = some span) : span.Within source := by
  have places : Option.Rel (Span.inSource source).pairs node.tree.span node.tree.span :=
    (node_alike_self member).tree.data.span
  rw [own] at places
  cases places with
  | some paired => exact paired.2

theorem within_of_anchor (member : node ∈ (ofSource source).tree.nodes)
    (begins : node.tree.anchor = some span) : span.Within source := by
  have places := (node_alike_self member).tree.anchor
  rw [begins] at places
  cases places with
  | some paired => exact paired.2

theorem within_of_label {label : AltLabel} (member : node ∈ (ofSource source).tree.nodes)
    (hasLabel : node.tree.data.label = some label) : label.span.Within source := by
  have labels := (node_alike_self member).tree.data.label
  rw [hasLabel] at labels
  cases labels with
  | some paired => exact paired.span.2

/-! ## Texts -/

theorem filter_holdsName (source : String) (span : Span) :
    (Token.ofText source.toList).filter span.holdsName =
      (significantTokens source).filter span.holdsName := by
  rw [significantTokens, filter_filter]
  refine filter_congr fun token _ => ?_
  rw [Span.holdsName]
  cases isName : token.kind.isIdentifier with
  | false => rfl
  | true =>
    have significant : token.isSignificant = true := by
      unfold Token.isSignificant
      cases kind : token.kind <;> simp_all [TokenKind.isIdentifier]
    rw [significant, Bool.and_true]

/-- Names that were joined are the value of an option, and they are all names of the
source that lie in its span. -/
theorem dottedValue_of_joined (member : node ∈ (ofSource source).tree.nodes)
    {first : Token} {rest : List (Token × Token)}
    (together : (first :: rest.flatMap fun pair => [pair.1, pair.2]) <:+:
      significantTokens source)
    (joined : first.Joined rest) (equal : node.tree = Tree.dotted first (rest.map (·.2)))
    (own : node.tree.span = some span) :
    node.DottedValue (first :: rest.map (·.2)) ∧
      (Token.ofText source.toList).filter span.holdsName = first :: rest.map (·.2) := by
  rw [filter_holdsName]
  rw [equal] at own
  have names :=
    Token.filter_names (ordered_significantTokens source) (fun token => start_lt_stop)
    together joined own
  refine ⟨?_, names⟩
  have held (name : Token) (included : name ∈ first :: rest.map (·.2)) :
      name ∈ significantTokens source ∧ name.kind.isIdentifier = true ∧
      span.encloses name.span = true := by
    rw [← names] at included
    exact (mem_filter.mp included).imp_right Bool.and_eq_true_iff.mp
  obtain ⟨pair, others, rfl⟩ := exists_cons_of_ne_nil joined.several
  obtain ⟨firstKnown, _, firstInside⟩ := held first (mem_cons_self ..)
  obtain ⟨secondKnown, _, secondInside⟩ := held pair.2 (by simp)
  have encloses : node.encloses first.span = true := by
    rw [Node.encloses, equal, own]
    exact firstInside
  rcases span_eq_or_dottedValue member firstKnown equal (fun name included =>
    (held name included).2.1)
    encloses with single | isValue
  · -- The first name ends in front of the second one, so it alone is not the whole value.
    rw [equal, own, Option.some.injEq] at single
    subst single
    have inOrder : first.span.stop ≤ pair.2.span.start := by
      have pairs := (ordered_significantTokens source).sublist together.sublist
      exact rel_of_pairwise_cons pairs (by simp)
    have inside := Span.encloses_iff.mp secondInside
    have positive := start_lt_stop secondKnown
    omega
  · exact isValue

theorem ne_root_of_plain (plain : node.kind.fixedText? = none) :
    node ≠ (ofSource source).tree.root := by
  rintro rfl
  cases plain

/-- A node that shows text has the text of its span, unless it is a dotted value. -/
theorem shows_or_dottedValue (member : node ∈ (ofSource source).tree.nodes)
    (plain : node.kind.fixedText? = none) :
    ∃ span, node.tree.span = some span ∧ (span.Shows source node.text ∨
      ∃ names, node.DottedValue names ∧
        (Token.ofText source.toList).filter span.holdsName = names ∧
        node.text = ".".intercalate (names.map Token.text)) := by
  cases (Reading.worded_of_mem member (ne_root_of_plain plain)).text with
  | byKind text =>
    rw [text] at plain
    cases plain
  | byToken known _ _ own text =>
    refine ⟨_, own, Or.inl ?_⟩
    rw [text]
    exact shows_of_mem known
  | @byNames first rest together joined equal =>
    have own : node.tree.span = some _ := congrArg Tree.span equal
    obtain ⟨isValue, names⟩ := dottedValue_of_joined member together joined equal own
    refine ⟨_, own, Or.inr ⟨_, isValue, names, ?_⟩⟩
    rw [Node.text, equal]
    exact Tree.text_dotted first (rest.map (·.2))

theorem text_of_fixedText? (member : node ∈ (ofSource source).tree.nodes)
    (inner : node ≠ (ofSource source).tree.root) {text : String}
    (fixed : node.kind.fixedText? = some text) : node.text = text := by
  cases (Reading.worded_of_mem member inner).text with
  | byKind own => exact Option.some.inj (own.symm.trans fixed)
  | byToken _ plain =>
    rw [plain] at fixed
    cases fixed
  | byNames _ _ equal =>
    rw [Node.kind, equal] at fixed
    cases fixed

/-! ## Ranges -/

theorem rangeOf_eq {position : Position}
    (placed : (ofSource source).position? node = some position) :
    (ofSource source).rangeOf node =
      .ofLength position (Text.utf16Length node.text.toList) := by
  rw [rangeOf, rangeWithLength, line, column, placed]
  rfl

/-! ## Positions -/

/-- What is stored for a node of the grammar, where the walk through the arena meets it. A
node without a position of its own has the position of its first child, if it has one. -/
theorem exists_stored_of_mem (member : node ∈ (ofSource source).tree.nodes) :
    ∃ ids id, (Arena.ofSource source).descendants Arena.root = some ids ∧
      (id, node) ∈ ids.zip (ofSource source).tree.nodes ∧
      (Arena.ofSource source).data? id = some node.tree.data ∧
      (Arena.ofSource source).ownPosition? id =
        node.tree.span.map (fun span => (ofSource source).lines.position span.start) ∧
      (Arena.ofSource source).anchor id = some node.tree.anchor ∧
      (Arena.ofSource source).position id = some ((ofSource source).position? node) := by
  have forest := Arena.isForest_ofSource source
  have placed := Arena.isPlaced_after (prefix_refl (Arena.stepsOf source))
  obtain ⟨ids, id, walk, paired, holds⟩ := Arena.exists_holds_of_mem member
  exact ⟨ids, id, walk, paired, holds.data?_eq, placed.ownPosition?_eq holds.data?_eq,
    holds.anchor_eq forest, holds.position_eq forest placed⟩

/-- A node without a span has the position of its first child, if it has one. -/
theorem position?_eq_or (grammar : Grammar) (node : Node) :
    grammar.position? node =
      (node.tree.span.map fun span => grammar.lines.position span.start).or
        (node.firstChild?.bind grammar.position?) := by
  obtain ⟨index, ⟨data, children⟩, above⟩ := node
  rw [position?, Node.firstChild?_eq, Tree.anchor, Tree.span, Tree.data_node]
  cases data.span with
  | some span => rfl
  | none =>
    cases children with
    | nil => rfl
    | cons first rest => rfl

/-- What a grammar says about the place of a node in different ways agrees. All the time
while a source is read, the position that is stored at a node is where its span begins. In
the end a node has a position of its own exactly if it has a span. A node without one has
the position of its first child, and this is what a walk over the stored positions finds.
Each span lies in the source. The text of a node below the root is the text of its kind,
or else what the source has at its span, but for the names of a dotted value, which are
joined. The range of a text from the source that has no line break reaches from one end of
the span to the other. -/
theorem node_places_agree (source : String) (node : Node)
    (member : node ∈ (ofSource source).tree.nodes) : let grammar := ofSource source
    let arena := Arena.ofSource source
    (∀ front, front <+: Arena.stepsOf source →
        (Arena.start.after front).IsPlaced grammar.lines) ∧
      (∃ ids id, arena.descendants Arena.root = some ids ∧
        (id, node) ∈ ids.zip grammar.tree.nodes ∧
        arena.data? id = some node.tree.data ∧
        ((arena.ownPosition? id).isSome = node.tree.span.isSome) ∧
        (∀ span, node.tree.span = some span → span.Within source ∧
          arena.ownPosition? id = some (grammar.lines.position span.start)) ∧
        (grammar.position? node =
          (arena.ownPosition? id).or (node.firstChild?.bind grammar.position?)) ∧
        arena.anchor id = some node.tree.anchor ∧
        arena.position id = some (grammar.position? node)) ∧
      (grammar.position? node =
        node.tree.anchor.map fun span => grammar.lines.position span.start) ∧
      (∀ span, node.tree.anchor = some span → span.Within source) ∧
      (node ≠ grammar.tree.root →
        ∀ text, node.kind.fixedText? = some text → node.text = text) ∧
      (node.kind.fixedText? = none → ∃ span, node.tree.span = some span ∧
        (span.Shows source node.text ∨ ∃ names, node.DottedValue names ∧
          (Token.ofText source.toList).filter span.holdsName = names ∧
          node.text = ".".intercalate (names.map Token.text))) ∧
      (∀ span, node.tree.span = some span → span.Shows source node.text →
        '\n' ∉ node.text.toList →
        grammar.rangeOf node = ⟨.ofPosition (grammar.lines.position span.start),
          .ofPosition (grammar.lines.position span.stop)⟩) := by
  intro grammar arena
  refine ⟨fun front => Arena.isPlaced_after, ?_, rfl,
    fun span => within_of_anchor member, fun inner text =>
      text_of_fixedText? member inner,
    shows_or_dottedValue member, ?_⟩
  · obtain ⟨ids, id, walk, paired, isData, own, anchor, position⟩ :=
      exists_stored_of_mem member
    refine ⟨ids, id, walk, paired, isData, ?_, fun span hasSpan => ?_, ?_,
      anchor, position⟩
    · rw [own, Option.isSome_map]
    · rw [own, hasSpan]
      exact ⟨within_of_span member hasSpan, rfl⟩
    · rw [own]
      exact grammar.position?_eq_or node
  · intro span own shows oneLine
    have placed : grammar.position? node = some (grammar.lines.position span.start) := by
      rw [position?, Tree.anchor_of_span own]
      rfl
    rw [rangeOf_eq placed]
    exact shows.range_eq oneLine

/-- A source with a comment inside of a dotted value. -/
def commentedSource : String :=
  "grammar G; options { superClass = a /* of */ . B; } r : ID ;"

/-- The text of the value has the names only, and no slice of the source is like it. -/
theorem node_places_agree_commented :
    ∃ node ∈ (ofSource commentedSource).tree.nodes, node.kind.fixedText? = none ∧
      node.text = "a.B" ∧ node.tree.span = some ⟨34, 48⟩ ∧
      (Span.mk 34 48).Within commentedSource ∧
      (∃ id, (Arena.ofSource commentedSource).ownPosition? id = some ⟨1, 34⟩ ∧
        (Arena.ofSource commentedSource).data? id = some node.tree.data) ∧
      ∃ names, node.DottedValue names ∧
        (Token.ofText commentedSource.toList).filter (Span.mk 34 48).holdsName =
          names := by
  have found : ((ofSource commentedSource).tree.nodes.any fun node =>
      node.kind.fixedText? == none && node.text == "a.B" &&
        node.tree.span == some ⟨34, 48⟩) = true := by
    decide +kernel
  obtain ⟨node, member, facts⟩ := any_eq_true.mp found
  simp only [Bool.and_eq_true, beq_iff_eq] at facts
  obtain ⟨⟨plain, text⟩, own⟩ := facts
  obtain ⟨_, ⟨_, id, _, _, isData, _, places, _⟩, _, _, _, texts, _⟩ :=
    node_places_agree commentedSource node member
  obtain ⟨within, position⟩ := places _ own
  have begins : (ofSource commentedSource).lines.position 34 =
      ⟨1, 34⟩ := by decide +kernel
  rw [begins] at position
  refine ⟨node, member, plain, text, own, within, ⟨id, position, isData⟩, ?_⟩
  obtain ⟨span, sameSpan, shows | ⟨names, isValue, held, _⟩⟩ := texts plain
  · cases own.symm.trans sameSpan
    obtain ⟨before, behind, _, ends⟩ := shows
    rw [text, String.utf8ByteSize_append] at ends
    injection ends with start stop
    rw [← start] at stop
    cases stop
  · cases own.symm.trans sameSpan
    exact ⟨names, isValue, held⟩

end Grammar

end GrammarInspector
