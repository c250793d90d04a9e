import GrammarInspector.Editor.Locate
import GrammarInspector.Proofs.Grammar.Order
import GrammarInspector.Proofs.Token.Names

/-! # What covers a place

A name covers the columns of its text and the place just behind it. Of the nodes that come
later in pre-order only those can cover one of these places that begin just behind the
name, and no other name does.
-/

namespace GrammarInspector

namespace NodeKind

variable {kind : NodeKind}

/-- The kinds of nodes that are elements of rule bodies, blocks included. -/
def isReportable (kind : NodeKind) : Bool := kind.isElement || kind = .block

/-- How the text of an element is known: it has no place, or it shows a token, or its text
is fixed and short. -/
theorem cases_of_isReportable (reportable : kind.isReportable = true) :
    kind = .epsilon ∨ (kind.isText = true ∧ kind ≠ .identifier) ∨ (kind.isHolder = true ∧
        ∀ text, kind.fixedText? = some text → Text.utf16Length text.toList ≤ 5) := by
  cases kind <;> cases reportable <;> first
    | exact Or.inl rfl
    | exact Or.inr (Or.inl ⟨rfl, NodeKind.noConfusion⟩)
    | exact Or.inr (Or.inr ⟨rfl, by rintro text ⟨⟩; decide⟩)

theorem not_isModifier_of_isReportable (reportable : kind.isReportable = true) :
    kind.isModifier = false ∧ kind ≠ .grammar := by
  cases kind <;> cases reportable <;> exact ⟨rfl, NodeKind.noConfusion⟩

theorem isElement_of_isName (isName : kind.isName = true) : kind.isElement = true := by
  cases kind <;> cases isName <;> rfl

theorem isReportable_of_isName (isName : kind.isName = true) :
    kind.isReportable = true := by
  cases kind <;> cases isName <;> rfl

end NodeKind

namespace Grammar

open Editor (Place)

variable {source : String} {token : Token} {node : Node} {span : Span} {place : Place}

/-! ## Tokens of a grammar -/

/-- The tokens that a source is read from. -/
def significantTokens (source : String) : List Token :=
  (Token.ofText source.toList).filter (·.isSignificant)

theorem ordered_significantTokens (source : String) :
    Token.Ordered (significantTokens source) :=
  (Token.ordered_ofText source.toList).filter _

theorem mem_ofText (member : token ∈ significantTokens source) :
    token ∈ Token.ofText source.toList :=
  (List.mem_filter.mp member).1

theorem utf16Length_text_pos (member : token ∈ significantTokens source) :
    0 < Text.utf16Length token.text.toList := by
  refine Token.utf16Length_text_pos (mem_ofText member) fun isEnd => ?_
  have significant := (List.mem_filter.mp member).2
  rw [Token.isSignificant, isEnd] at significant
  cases significant

theorem position?_eq (begins : node.tree.anchor = some span)
    (start : token.span.start = span.start) :
    (ofSource source).position? node = some (token.positionIn source.toList) := by
  rw [position?, begins, Token.positionIn, start]
  rfl

/-- A name that occurs in the tree of a grammar. -/
structure IsName (grammar : Grammar) (node : Node) : Prop where
  member : node ∈ grammar.tree.nodes
  ofKind : node.kind.isName = true

theorem IsName.ne_identifier {grammar : Grammar} (isName : grammar.IsName node) :
    node.kind ≠ .identifier := by
  intro isIdentifier
  have ofKind := isName.ofKind
  rw [isIdentifier] at ofKind
  cases ofKind

theorem exists_token_of_name (isName : (ofSource source).IsName node) :
    ∃ token ∈ significantTokens source, token.kind.isIdentifier = true ∧
      node.kind.fits token.kind = true ∧ node.tree.anchor = some token.span ∧
      node.text = token.text := by
  obtain ⟨token, tokenMember, fitting, own, text⟩ := Reading.shown_of_mem isName.member
    (NodeKind.isText_of_isName isName.ofKind) isName.ne_identifier
  refine ⟨token, tokenMember, ?_, fitting, Tree.anchor_of_span own, text⟩
  have ofKind := isName.ofKind
  generalize node.kind = kind at ofKind fitting
  generalize token.kind = shown at fitting
  cases kind <;> cases ofKind <;> cases shown <;> first
    | rfl
    | cases fitting

/-! ## Places covered -/

theorem covers_iff {grammar : Grammar} :
    grammar.covers node place = true ↔ ∃ position, grammar.position? node =
      some position ∧
      position.line = place.line + 1 ∧ position.column ≤ place.character ∧
      place.character ≤ position.column + Text.utf16Length node.text.toList := by
  rw [covers]
  cases grammar.position? node with
  | none => simp
  | some position => simp [and_assoc]

/-- A place with a `mode` line between an element and itself is not covered by
the element. -/
theorem not_covers_of_beforeMode (member : node ∈ (ofSource source).tree.nodes)
    (reportable : node.kind.isReportable = true) (begins : node.tree.anchor = some span)
    (tokenMember : token ∈ significantTokens source)
    (before : span.BeforeMode (significantTokens source) token.span)
    (line : (token.positionIn source.toList).line = place.line + 1)
    (column : (token.positionIn source.toList).column ≤ place.character) :
    ¬(ofSource source).covers node place = true := by
  intro covered
  obtain ⟨first, firstMember, keyword, keywordMember, semicolon, semicolonMember,
      start, firstStop, spanStop, isMode, onLine, semicolonStop⟩ := before
  obtain ⟨position, positioned, nodeLine, _, right⟩ := covers_iff.mp covered
  rw [position?_eq begins start, Option.some.injEq] at positioned
  subst positioned
  -- The element, the keyword, the semicolon and the place are all on one line.
  have firstLine :=
    Token.line_le (mem_ofText firstMember) (mem_ofText keywordMember) firstStop
  have keywordLine :=
    Token.line_le (mem_ofText keywordMember) (mem_ofText semicolonMember) onLine
  have semicolonLine :=
    Token.line_le (mem_ofText semicolonMember) (mem_ofText tokenMember) semicolonStop
  have firstColumn :=
    Token.column_le (mem_ofText firstMember) (mem_ofText keywordMember) firstStop
    (by omega)
  have keywordColumn :=
    Token.column_le (mem_ofText keywordMember) (mem_ofText semicolonMember) onLine
    (by omega)
  have semicolonColumn :=
    Token.column_le (mem_ofText semicolonMember) (mem_ofText tokenMember)
      semicolonStop (by omega)
  have firstLength := utf16Length_text_pos firstMember
  have semicolonLength := utf16Length_text_pos semicolonMember
  have keywordLength : Text.utf16Length keyword.text.toList = 4 := by
    rw [Token.text_of_keyword (mem_ofText keywordMember) isMode]
    rfl
  rcases NodeKind.cases_of_isReportable reportable with
    isEpsilon | ⟨isText, single⟩ | ⟨isHolder, short⟩
  · rw [(Reading.sourced_of_mem member).unplaced isEpsilon] at begins
    cases begins
  · obtain ⟨shown, shownMember, _, own, text⟩ := Reading.shown_of_mem member isText single
    cases begins.symm.trans (Tree.anchor_of_span own)
    have sameStart : shown.positionIn source.toList = first.positionIn source.toList := by
      rw [Token.positionIn, Token.positionIn, start]
    have shownColumn :=
      Token.column_le (mem_ofText shownMember) (mem_ofText keywordMember) spanStop
      (by rw [sameStart]; omega)
    rw [sameStart, ← text] at shownColumn
    omega
  · have inner : node ≠ (ofSource source).tree.root := by
      rintro rfl
      cases isHolder
    have length := short _ ((Reading.worded_of_mem member inner).fixed isHolder)
    omega

variable {name other : Node}

/-- An element behind a name in pre-order that covers a place of the name
begins behind it. -/
theorem stop_le_of_later (isName : (ofSource source).IsName name)
    (otherMember : other ∈ (ofSource source).tree.nodes)
    (reportable : other.kind.isReportable = true) (later : name.index < other.index)
    (covered : (ofSource source).covers name place = true)
    (otherCovered : (ofSource source).covers other place = true) {own next : Span}
    (nameBegins : name.tree.anchor = some own)
    (otherBegins : other.tree.anchor = some next) : own.stop ≤ next.start := by
  have follows := Tree.rel_of_index_lt
    (Reading.pairwise_follows (ordered_significantTokens source)) isName.member
      otherMember later
  obtain ⟨token, tokenMember, _, _, begins, _⟩ := exists_token_of_name isName
  cases nameBegins.symm.trans begins
  rcases follows.places (NodeKind.isText_of_isName isName.ofKind)
    (NodeKind.not_isModifier_of_isReportable reportable).1 _ _ begins otherBegins with
      behind | before
  · exact behind
  · obtain ⟨position, positioned, line, column, _⟩ := covers_iff.mp covered
    rw [position?_eq begins rfl, Option.some.injEq] at positioned
    subst positioned
    exact absurd otherCovered (not_covers_of_beforeMode otherMember reportable
      otherBegins tokenMember before line column)

/-- Such an element begins just behind the name, and the place is there. -/
theorem starts_behind_of_later (isName : (ofSource source).IsName name)
    (otherMember : other ∈ (ofSource source).tree.nodes)
    (reportable : other.kind.isReportable = true) (later : name.index < other.index)
    (covered : (ofSource source).covers name place = true)
    (otherCovered : (ofSource source).covers other place = true) :
    (ofSource source).position? other = some place.toPosition ∧
      ∀ position, (ofSource source).position? name = some position →
        place.character = position.column + Text.utf16Length name.text.toList := by
  obtain ⟨token, tokenMember, _, _, begins, text⟩ := exists_token_of_name isName
  obtain ⟨position, positioned, line, _, right⟩ := covers_iff.mp covered
  obtain ⟨otherPosition, otherPositioned, otherLine, otherColumn, _⟩ :=
    covers_iff.mp otherCovered
  obtain ⟨next, otherBegins, _⟩ := Option.map_eq_some_iff.mp otherPositioned
  have behind := stop_le_of_later isName otherMember reportable later covered otherCovered
    begins otherBegins
  obtain ⟨⟨first, firstMember, start⟩, _⟩ := Reading.anchor_from_of_mem otherMember
    (NodeKind.not_isModifier_of_isReportable reportable).2 otherBegins
  rw [position?_eq otherBegins start, Option.some.injEq] at otherPositioned
  rw [position?_eq begins rfl, Option.some.injEq] at positioned
  subst positioned otherPositioned
  rw [← start] at behind
  have column :=
    Token.column_le (mem_ofText tokenMember) (mem_ofText firstMember) behind (by omega)
  rw [text] at right
  constructor
  · rw [position?_eq otherBegins start, Place.toPosition, ← otherLine]
    have atPlace : (first.positionIn source.toList).column = place.character := by omega
    rw [← atPlace]
  · rintro _ positioned
    rw [position?_eq begins rfl, Option.some.injEq] at positioned
    subst positioned
    rw [text]
    omega

theorem not_later_of_names (isName : (ofSource source).IsName name)
    (otherName : (ofSource source).IsName other)
    (covered : (ofSource source).covers name place = true)
    (otherCovered : (ofSource source).covers other place = true) :
    ¬name.index < other.index := by
  intro later
  obtain ⟨token, tokenMember, isIdentifier, _, begins, text⟩ :=
    exists_token_of_name isName
  obtain ⟨next, nextMember, nextIdentifier, _, nextBegins, _⟩ :=
    exists_token_of_name otherName
  have behind := stop_le_of_later isName otherName.member
    (NodeKind.isReportable_of_isName otherName.ofKind) later covered otherCovered
      begins nextBegins
  obtain ⟨position, positioned, line, _, right⟩ := covers_iff.mp covered
  obtain ⟨otherPosition, otherPositioned, otherLine, otherColumn, _⟩ :=
    covers_iff.mp otherCovered
  rw [position?_eq begins rfl, Option.some.injEq] at positioned
  rw [position?_eq nextBegins rfl, Option.some.injEq] at otherPositioned
  subst positioned otherPositioned
  have column := Token.column_lt_of_names (mem_ofText tokenMember)
      (mem_ofText nextMember) isIdentifier
    nextIdentifier behind (by omega)
  rw [text] at right
  omega

/-- No two names cover the same place. -/
theorem name_unique (isName : (ofSource source).IsName name)
    (otherName : (ofSource source).IsName other)
    (covered : (ofSource source).covers name place = true)
    (otherCovered : (ofSource source).covers other place = true) : name = other := by
  have notBefore := not_later_of_names isName otherName covered otherCovered
  have notBehind := not_later_of_names otherName isName otherCovered covered
  exact Tree.eq_of_index_eq isName.member otherName.member (by omega)

end Grammar

end GrammarInspector
