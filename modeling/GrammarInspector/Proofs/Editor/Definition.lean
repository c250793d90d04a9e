import GrammarInspector.Proofs.Editor.References

/-! # Definitions

The definition of a reference is found from each of its places if some rule has its name,
and from none of them otherwise. The text of a name tells whether that rule belongs to the
lexer or to the parser.
-/

namespace GrammarInspector.Grammar

open List

open Editor (Place Range)

variable {source : String} {place : Place} {node name rule : Node}

/-! ## Names and rules -/

/-- Whether some rule of a grammar has a name. -/
def Declares (grammar : Grammar) (name : String) : Prop :=
  ∃ rule ∈ grammar.tree.rules, rule.tree.ruleName? = some name

/-- Names with the same text are of the same kind. -/
theorem kind_eq_of_names {other : Node} (isName : (ofSource source).IsName name)
    (otherName : (ofSource source).IsName other) (sameText : name.text = other.text) :
    name.kind = other.kind := by
  obtain ⟨left, leftMember, leftIdentifier, leftFits, _, leftText⟩ :=
    exists_token_of_name isName
  obtain ⟨right, rightMember, rightIdentifier, rightFits, _, rightText⟩ :=
    exists_token_of_name otherName
  have sameKind : left.kind = right.kind :=
    Token.kind_eq_of_text_eq (mem_ofText leftMember) (mem_ofText rightMember)
      leftIdentifier rightIdentifier (by rw [← leftText, ← rightText, sameText])
  rw [sameKind] at leftFits
  exact NodeKind.eq_of_fits isName.ofKind otherName.ofKind leftFits rightFits

/-- A rule is declared by its first child, which has its name and tells what kind
of rule it is. -/
theorem exists_declaration {text : String} (member : rule ∈ (ofSource source).tree.rules)
    (named : rule.tree.ruleName? = some text) :
    ∃ name, (ofSource source).IsName name ∧ name.parent? = some rule ∧
      name.text = text ∧ rule.tree.isLexerRule = decide (name.kind = .tokenRef) := by
  obtain ⟨isNode, ofKind⟩ := mem_filter.mp member
  have isRule : rule.tree.kind = .rule := of_decide_eq_true ofKind
  obtain ⟨_, _, name, first, isName⟩ := (Reading.sourced_of_mem isNode).declared isRule
  refine ⟨name, ⟨Tree.firstChild_mem_nodes isNode first, isName⟩, ?_, ?_, ?_⟩
  · rw [Node.parent?, (Node.above_of_firstChild? first).1]
  all_goals
    rw [Node.firstChild?_eq] at first
    obtain ⟨tree, isFirst, rfl⟩ := Option.map_eq_some_iff.mp first
  · rw [Tree.ruleName?, if_pos isRule, isFirst] at named
    exact Option.some.inj named
  · rw [Tree.isLexerRule, isFirst, decide_eq_true isRule]
    rfl

/-- A rule whose name occurs as a name somewhere is a rule of the kind that the
occurrence tells. -/
theorem isLexerRule_eq_of_name (isName : (ofSource source).IsName name)
    (member : rule ∈ (ofSource source).tree.rules)
    (named : rule.tree.ruleName? = some name.text) :
    rule.tree.isLexerRule = decide (name.kind = .tokenRef) := by
  obtain ⟨declared, declaredName, _, sameText, isLexer⟩ := exists_declaration member named
  rw [isLexer, kind_eq_of_names declaredName isName sameText]

/-! ## References in rule bodies -/

/-- A name in a rule that does not declare the rule. -/
structure IsReference (grammar : Grammar) (rule node : Node) : Prop where
  member : node ∈ grammar.tree.nodes
  isName : node.kind.isName = true
  notDeclared : isDeclaration node = false
  inRule : node.enclosingRule? = some rule

theorem IsReference.named {grammar : Grammar}
    (reference : grammar.IsReference rule node) :
    grammar.IsName node :=
  ⟨reference.member, reference.isName⟩

theorem inBodyOf_iff (isName : (ofSource source).IsName name) :
    Walk.inBodyOf name.above = true ↔ isDeclaration name = false := by
  constructor
  · intro inBody
    rw [← Bool.not_eq_true]
    intro isDeclared
    obtain ⟨rule, isParent, isRule⟩ := (Option.any_eq_true _ _).mp isDeclared
    have member := Tree.parent_mem_nodes isName.member isParent
    have ruleKind : rule.tree.kind = .rule := of_decide_eq_true isRule
    obtain ⟨_, outside, _⟩ := (Reading.sourced_of_mem member).declared ruleKind
    rw [Node.above_of_parent? isParent, Walk.inBodyOf, ruleKind] at inBody
    cases outside.symm.trans inBody
  · intro notDeclared
    rcases (Reading.sourced_of_mem isName.member).named isName.ofKind with
      inBody | ⟨rule, isParent, isRule, _⟩
    · exact inBody
    · rw [isDeclaration, isParent, Option.any_some, isRule] at notDeclared
      cases notDeclared

/-- The names among the elements of rule bodies are those that declare nothing. -/
theorem mem_elements_iff (isName : name.kind.isName = true) :
    name ∈ (ofSource source).tree.elements ↔ name ∈ (ofSource source).tree.nodes ∧
    isDeclaration name = false := by
  rw [Walk.mem_elements_iff]
  refine and_congr_right fun member => ?_
  have notRule : name.kind ≠ .rule := of_decide_eq_false (not_isRule_of_isName isName)
  rw [← inBodyOf_iff ⟨member, isName⟩, Node.category?, if_neg notRule,
    NodeKind.isElement_of_isName isName, Bool.or_true, Bool.and_true]
  cases Walk.inBodyOf name.above <;> simp

theorem eq_of_position?_eq {other : Node} {position : Position}
    (isName : (ofSource source).IsName name) (otherName : (ofSource source).IsName other)
    (positioned : (ofSource source).position? name = some position)
    (otherPositioned : (ofSource source).position? other = some position) :
    name = other := by
  obtain ⟨found, isFound, counted, _⟩ := exists_rangeOf isName
  cases positioned.symm.trans isFound
  have line : (Place.ofPosition position).line + 1 = position.line :=
    Nat.sub_add_cancel counted
  have covers {node : Node} (positioned : (ofSource source).position? node =
      some position) : (ofSource source).covers node (.ofPosition position) = true :=
    covers_iff.mpr ⟨position, positioned, line.symm, Nat.le_refl _, Nat.le_add_right ..⟩
  exact name_unique isName otherName (covers positioned) (covers otherPositioned)

theorem eq_of_anchor_eq {other : Node} (isName : (ofSource source).IsName name)
    (otherName : (ofSource source).IsName other)
    (same : name.tree.anchor = other.tree.anchor) : name = other := by
  obtain ⟨position, positioned, _⟩ := exists_rangeOf isName
  have otherPositioned : (ofSource source).position? other = some position := by
    rw [position?, ← same]
    exact positioned
  exact eq_of_position?_eq isName otherName positioned otherPositioned

/-! ## Places on references -/

/-- What is located at a name is defined if some rule has its name. -/
theorem definition_eq_nil_iff (located : (ofSource source).locate? place = some name)
    (isName : (ofSource source).IsName name) :
    (ofSource source).definition place = [] ↔ ¬(ofSource source).Declares name.text := by
  rw [definition, located]
  dsimp only
  rw [map_eq_nil_iff, filter_eq_nil_iff]
  constructor
  · rintro nothing ⟨rule, member, named⟩
    obtain ⟨declared, declaredName, isParent, sameText, _⟩ :=
      exists_declaration member named
    have sameKind := kind_eq_of_names declaredName isName sameText
    refine nothing declared
      (mem_filter.mpr ⟨declaredName.member, decide_eq_true sameKind⟩) ?_
    rw [declares, isParent]
    exact decide_eq_true named
  · intro undeclared candidate included holds
    obtain ⟨rule, isParent, named⟩ := Option.bind_eq_some_iff.mp (of_decide_eq_true holds)
    have member := Tree.parent_mem_nodes (mem_filter.mp included).1 isParent
    have isRule : rule.tree.kind = .rule := by
      by_contra notRule
      rw [Tree.ruleName?, if_neg notRule] at named
      cases named
    exact undeclared ⟨rule, mem_filter.mpr ⟨member, decide_eq_true isRule⟩, named⟩

/-- Whether no place inside the text of a node leads to a definition. -/
def LeadsNowhere (grammar : Grammar) (node : Node) : Prop :=
  ∀ place : Place, (grammar.rangeOf node).Contains place.toPosition →
    grammar.definition place = []

/-- References lead nowhere if no rule has their name. -/
theorem IsReference.leadsNowhere_iff
    (reference : (ofSource source).IsReference rule node) :
    (ofSource source).LeadsNowhere node ↔ ¬(ofSource source).Declares node.text := by
  have inBody := (inBodyOf_iff reference.named).mpr reference.notDeclared
  have onPlace {place : Place}
      (inside : ((ofSource source).rangeOf node).Contains place.toPosition) :
      (ofSource source).definition place = [] ↔
      ¬(ofSource source).Declares node.text := by
    have located := locate?_of_contains reference.named inside
    rw [selected_of_inBody reference.member inBody] at located
    exact definition_eq_nil_iff located reference.named
  constructor
  · intro nowhere
    -- The text of a name is not empty, so there is a place to ask at.
    obtain ⟨position, _, counted, positive, range⟩ := exists_rangeOf reference.named
    have inside : ((ofSource source).rangeOf node).Contains
        (Place.ofPosition position).toPosition := by
      rw [range, Range.contains_ofLength_iff counted, Place.toPosition_ofPosition counted]
      exact ⟨rfl, Nat.le_refl _, Nat.lt_add_of_pos_right positive⟩
    exact (onPlace inside).mp (nowhere _ inside)
  · intro undeclared place inside
    exact (onPlace inside).mpr undeclared

end GrammarInspector.Grammar
