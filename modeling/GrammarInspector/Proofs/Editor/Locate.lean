import GrammarInspector.Proofs.Editor.Covers

/-! # Locating names

The node that a place selects is the last one in pre-order that the search chooses. On a
name this is the name itself, or the rule if the name is that of a parser rule.
-/

namespace GrammarInspector

open List

/-- What a place on a name selects: the rule that it names, if that is a parser rule, and
else the name itself. -/
def Node.selected (name : Node) : Node :=
  match name.parent? with
  | none => name
  | some parent =>
    if parent.isRule && parent.firstChild?.any (·.index = name.index) &&
        !parent.tree.isLexerRule then
      parent
    else name

/-- Whether a node stands in the body of a rule and can be found there. -/
abbrev Node.isFindable (node : Node) : Bool :=
  Walk.inBodyOf node.above && (node.isSubrule || node.kind.isElement)

theorem Node.selected_index_le (name : Node) : name.selected.index ≤ name.index := by
  unfold selected
  split
  · exact Nat.le_refl _
  · split
    · rename_i names
      rw [Bool.and_eq_true, Bool.and_eq_true] at names
      obtain ⟨child, first, same⟩ := (Option.any_eq_true _ _).mp names.1.2
      rw [← of_decide_eq_true same, (above_of_firstChild? first).2]
      exact Nat.le_succ _
    · exact Nat.le_refl _

namespace Grammar

open Editor (Place)

variable {grammar : Grammar} {place : Place} {node found : Node}

/-! ## The search as a selection -/

/-- What the search for a place makes of a node. -/
def chosen? (grammar : Grammar) (place : Place) (node : Node) : Option Node :=
  ((grammar.search place).report? node).bind (grammar.selection? place)

theorem locate?_eq_getLast? (grammar : Grammar) (place : Place) :
    grammar.locate? place =
      (grammar.tree.nodes.filterMap (grammar.chosen? place)).getLast? := by
  rw [locate?, Walk.events_root, filterMap_filterMap]
  rfl

theorem locate?_of_last (member : node ∈ grammar.tree.nodes)
    (chosen : grammar.chosen? place node = some found)
    (last : ∀ other ∈ grammar.tree.nodes, node.index < other.index →
      grammar.chosen? place other = none) :
    grammar.locate? place = some found := by
  have ordered := grammar.tree.pairwise_index_nodes
  rw [locate?_eq_getLast?]
  obtain ⟨before, behind, equal⟩ := append_of_mem member
  rw [equal] at ordered last ⊢
  have nothing : behind.filterMap (grammar.chosen? place) = [] := by
    rw [filterMap_eq_nil_iff]
    intro other otherMember
    have later := (pairwise_cons.mp (pairwise_append.mp ordered).2.1).1 other otherMember
    exact last other (mem_append_right _ (mem_cons_of_mem _ otherMember)) later
  rw [filterMap_append, filterMap_cons_some chosen, nothing, getLast?_append]
  rfl

/-- What is located is chosen last. -/
theorem exists_of_locate? (located : grammar.locate? place = some found) :
    ∃ node ∈ grammar.tree.nodes, grammar.chosen? place node = some found ∧
      ∀ other ∈ grammar.tree.nodes, node.index < other.index →
      grammar.chosen? place other = none := by
  have ordered := grammar.tree.pairwise_index_nodes
  rw [locate?_eq_getLast?] at located
  obtain ⟨front, equal⟩ := getLast?_eq_some_iff.mp located
  obtain ⟨before, behind, split, _, chosenBehind⟩ := filterMap_eq_append_iff.mp equal
  obtain ⟨skipped, node, rest, rfl, none, chosen, nothing⟩ :=
    filterMap_eq_cons_iff.mp chosenBehind
  rw [← append_assoc] at split
  rw [split] at ordered ⊢
  refine ⟨node, by simp, chosen, ?_⟩
  intro other otherMember later
  rcases mem_append.mp otherMember with earlier | here
  · have before := (pairwise_append.mp ordered).2.2 other earlier node (mem_cons_self ..)
    omega
  · rcases mem_cons.mp here with rfl | behind
    · exact absurd later (Nat.lt_irrefl _)
    · exact filterMap_eq_nil_iff.mp nothing other behind

/-! ## What the search chooses -/

theorem chosen?_of_not_reaches
    (unreached : (grammar.search place).reaches node.above = false) :
    grammar.chosen? place node = none := by
  rw [chosen?, Walk.report?, unreached]
  rfl

theorem chosen?_of_rule (isRule : node.kind = .rule)
    (reached : (grammar.search place).reaches node.above = true) :
    grammar.chosen? place node = if grammar.coversName place node then
      if node.tree.isLexerRule then node.firstChild? else some node else none := by
  rw [chosen?, Walk.report?, if_pos reached, Walk.event?, Node.category?, if_pos isRule]
  cases node.tree.isLexerRule <;> rfl

theorem report?_of_element (notRule : node.kind ≠ .rule)
    (reached : (grammar.search place).reaches node.above = true)
    (isElement : node.isFindable = true) :
    (grammar.search place).report? node = some ⟨.element, node⟩ := by
  rw [Walk.report?, if_pos reached, Walk.event?, Node.category?, if_neg notRule,
    if_pos isElement]
  rfl

theorem chosen?_of_element (notRule : node.kind ≠ .rule)
    (reached : (grammar.search place).reaches node.above = true)
    (isElement : node.isFindable = true) :
    grammar.chosen? place node =
      if grammar.covers node place then some node else none := by
  rw [chosen?, report?_of_element notRule reached isElement]
  rfl

theorem chosen?_of_neither (notRule : node.kind ≠ .rule)
    (noElement : node.isFindable = false) : grammar.chosen? place node = none := by
  rw [chosen?, Walk.report?, Walk.event?, Node.category?, if_neg notRule,
    if_neg (ne_true_of_eq_false noElement)]
  split <;> rfl

theorem exists_of_coversName {rule : Node}
    (covered : grammar.coversName place rule = true) :
    ∃ name, rule.firstChild? = some name ∧ grammar.covers name place = true :=
  (Option.any_eq_true _ _).mp covered

theorem isReportable_of_isElement (isElement : node.isFindable = true) :
    Walk.inBodyOf node.above = true ∧ node.kind.isReportable = true := by
  rw [Node.isFindable, Bool.and_eq_true, Bool.or_eq_true] at isElement
  refine ⟨isElement.1, ?_⟩
  rw [NodeKind.isReportable, Bool.or_eq_true]
  rcases isElement.2 with isSubrule | isElement
  · rw [Node.isSubrule, Bool.and_eq_true] at isSubrule
    exact Or.inr isSubrule.1
  · exact Or.inl isElement

/-- The search chooses a rule by its name, and an element by its own text. -/
theorem cases_of_chosen? (chosen : grammar.chosen? place node = some found) :
    (node.kind = .rule ∧ (found = node ∨ node.firstChild? = some found) ∧
      grammar.coversName place node = true) ∨
      (found = node ∧ Walk.inBodyOf node.above = true ∧ node.kind.isReportable = true ∧
        grammar.covers node place = true ∧
        (grammar.search place).report? node = some ⟨.element, node⟩) := by
  cases reached : (grammar.search place).reaches node.above with
  | false =>
    rw [chosen?_of_not_reaches reached] at chosen
    cases chosen
  | true =>
    by_cases isRule : node.kind = .rule
    · left
      rw [chosen?_of_rule isRule reached] at chosen
      split at chosen
      · rename_i covered
        refine ⟨isRule, ?_, covered⟩
        split at chosen
        · exact Or.inr chosen
        · exact Or.inl (Option.some.inj chosen).symm
      · cases chosen
    · right
      cases isElement : node.isFindable with
      | false =>
        rw [chosen?_of_neither isRule isElement] at chosen
        cases chosen
      | true =>
        rw [chosen?_of_element isRule reached isElement] at chosen
        split at chosen
        · rename_i covered
          obtain ⟨inBody, reportable⟩ := isReportable_of_isElement isElement
          exact ⟨(Option.some.inj chosen).symm, inBody, reportable, covered,
            report?_of_element isRule reached isElement⟩
        · cases chosen

theorem index_le_of_chosen? (chosen : grammar.chosen? place node = some found) :
    node.index ≤ found.index := by
  rcases cases_of_chosen? chosen with ⟨_, isNode | isFirst, _⟩ | ⟨isNode, _⟩
  · exact Nat.le_of_eq (congrArg Node.index isNode.symm)
  · rw [(Node.above_of_firstChild? isFirst).2]
    exact Nat.le_succ _
  · exact Nat.le_of_eq (congrArg Node.index isNode.symm)

/-! ## Names -/

variable {source : String} {name rule : Node}

/-- The first child of a rule is its name, and it stands outside of rule bodies. -/
theorem isName_of_firstChild? (member : rule ∈ (ofSource source).tree.nodes)
    (isRule : rule.kind = .rule) (first : rule.firstChild? = some name) :
    (ofSource source).IsName name ∧ Walk.inBodyOf name.above = false := by
  obtain ⟨_, outside, child, isFirst, isName⟩ :=
    (Reading.sourced_of_mem member).declared isRule
  cases first.symm.trans isFirst
  refine ⟨⟨Tree.firstChild_mem_nodes member first, isName⟩, ?_⟩
  rw [(Node.above_of_firstChild? first).1, Walk.inBodyOf,
    show rule.tree.kind = .rule from isRule]
  exact outside

/-- A rule whose name covers a place of a name is named by it. -/
theorem firstChild?_of_coversName (isName : (ofSource source).IsName name)
    (covered : (ofSource source).covers name place = true)
    (member : rule ∈ (ofSource source).tree.nodes) (isRule : rule.kind = .rule)
    (ruleCovered : (ofSource source).coversName place rule = true) :
    rule.firstChild? = some name := by
  obtain ⟨child, first, childCovered⟩ := exists_of_coversName ruleCovered
  obtain ⟨childName, _⟩ := isName_of_firstChild? member isRule first
  rw [name_unique isName childName covered childCovered]
  exact first

/-- On a name, the search is stopped by no rule above except the one it names. -/
theorem search_reaches (isName : (ofSource source).IsName name)
    (covered : (ofSource source).covers name place = true) {above : List (Nat × Tree)}
    (held : above <:+ name.above)
    (unnamed : ∀ rule : Node, (rule.index, rule.tree) :: rule.above <:+ above →
      rule.kind = .rule → rule.firstChild? ≠ some name) :
    ((ofSource source).search place).reaches above = true := by
  refine Walk.reaches_of_forall fun holder holds => ?_
  rw [← Bool.not_eq_true]
  intro stops
  rw [Walk.stopsAt, Bool.and_eq_true] at stops
  obtain ⟨isRule, ruleCovered⟩ := Bool.and_eq_true_iff.mp stops.2
  have member := (Tree.holder_mem_nodes isName.member (holds.trans held)).1
  exact unnamed holder holds (of_decide_eq_true isRule) (firstChild?_of_coversName isName
    covered member (of_decide_eq_true isRule) ruleCovered)

theorem selected_of_inBody (nameMember : name ∈ (ofSource source).tree.nodes)
    (inBody : Walk.inBodyOf name.above = true) : name.selected = name := by
  unfold Node.selected
  split
  · rfl
  · rename_i parent isParent
    split
    · rename_i names
      rw [Bool.and_eq_true, Bool.and_eq_true] at names
      obtain ⟨child, first, sameIndex⟩ := (Option.any_eq_true _ _).mp names.1.2
      have member := Tree.parent_mem_nodes nameMember isParent
      obtain ⟨childName, outside⟩ :=
        isName_of_firstChild? member (of_decide_eq_true names.1.1) first
      rw [Tree.eq_of_index_eq childName.member nameMember (of_decide_eq_true sameIndex),
        inBody] at outside
      cases outside
    · rfl

theorem selected_of_firstChild? (isParent : name.parent? = some rule)
    (isRule : rule.isRule = true) (first : rule.firstChild? = some name) :
    name.selected = if rule.tree.isLexerRule then name else rule := by
  unfold Node.selected
  rw [isParent]
  cases isLexer : rule.tree.isLexerRule <;> simp [isRule, first, isLexer]

theorem chosen?_of_inBody (isName : (ofSource source).IsName name)
    (inBody : Walk.inBodyOf name.above = true)
    (covered : (ofSource source).covers name place = true) :
    (ofSource source).chosen? place name = some name := by
  have notRule : name.kind ≠ .rule := by
    intro isRule
    have ofKind := isName.ofKind
    rw [isRule] at ofKind
    cases ofKind
  have reached : ((ofSource source).search place).reaches name.above = true := by
    refine search_reaches isName covered suffix_rfl ?_
    intro rule held isRule first
    have member := (Tree.holder_mem_nodes isName.member held).1
    rw [(isName_of_firstChild? member isRule first).2] at inBody
    cases inBody
  have isElement : name.isFindable = true := by
    rw [Node.isFindable, inBody, NodeKind.isElement_of_isName isName.ofKind,
      Bool.or_true, Bool.and_true]
  rw [chosen?_of_element notRule reached isElement, if_pos covered]

/-- The search chooses a rule on its name, or the name of a lexer rule. -/
theorem chosen?_of_firstChild? (isName : (ofSource source).IsName name)
    (isRule : rule.kind = .rule) (first : rule.firstChild? = some name)
    (covered : (ofSource source).covers name place = true) :
    (ofSource source).chosen? place rule =
      some (if rule.tree.isLexerRule then name else rule) := by
  have above := (Node.above_of_firstChild? first).1
  have reached : ((ofSource source).search place).reaches rule.above = true := by
    refine search_reaches isName covered (by rw [above]; exact suffix_cons ..) ?_
    intro other held _ otherFirst
    have longer := held.length_le
    rw [← (Node.above_of_firstChild? otherFirst).1, above, length_cons] at longer
    omega
  have ruleCovered : (ofSource source).coversName place rule = true := by
    rw [coversName, first, Option.any_some]
    exact covered
  rw [chosen?_of_rule isRule reached, if_pos ruleCovered, first]
  split <;> rfl

/-- Some node selects a name on each of its places. What else is chosen behind that node
is an element behind the name. -/
theorem exists_selector (isName : (ofSource source).IsName name)
    (covered : (ofSource source).covers name place = true) :
    ∃ selector ∈ (ofSource source).tree.nodes, (ofSource source).chosen? place selector =
      some name.selected ∧
      selector.index ≤ name.index ∧
      ∀ other ∈ (ofSource source).tree.nodes, selector.index < other.index →
        ∀ found, (ofSource source).chosen? place other = some found →
          name.index < other.index ∧ other.kind.isReportable = true ∧
            (ofSource source).covers other place = true ∧
            ((ofSource source).search place).report? other = some ⟨.element, other⟩ := by
  rcases (Reading.sourced_of_mem isName.member).named isName.ofKind with
    inBody | ⟨rule, isParent, isRule, first⟩
  · refine ⟨name, isName.member, ?_, Nat.le_refl _, ?_⟩
    · rw [selected_of_inBody isName.member inBody]
      exact chosen?_of_inBody isName inBody covered
    · intro other otherMember later found chosen
      rcases cases_of_chosen? chosen with
        ⟨isRule, _, ruleCovered⟩ | ⟨_, _, reportable, also, reported⟩
      · have first :=
          firstChild?_of_coversName isName covered otherMember isRule ruleCovered
        have next := (Node.above_of_firstChild? first).2
        omega
      · exact ⟨later, reportable, also, reported⟩
  · have member := Tree.parent_mem_nodes isName.member isParent
    have isRuleKind : rule.kind = .rule := of_decide_eq_true isRule
    have next := (Node.above_of_firstChild? first).2
    refine ⟨rule, member, ?_, by omega, ?_⟩
    · rw [selected_of_firstChild? isParent isRule first]
      exact chosen?_of_firstChild? isName isRuleKind first covered
    · intro other otherMember later found chosen
      rcases cases_of_chosen? chosen with
        ⟨otherRule, _, ruleCovered⟩ | ⟨_, inBody, reportable, also, reported⟩
      · have otherFirst :=
          firstChild?_of_coversName isName covered otherMember otherRule ruleCovered
        have otherNext := (Node.above_of_firstChild? otherFirst).2
        omega
      · refine ⟨?_, reportable, also, reported⟩
        rcases Nat.lt_or_eq_of_le (show name.index ≤ other.index by omega) with
          behind | same
        · exact behind
        · cases Tree.eq_of_index_eq isName.member otherMember same
          rw [(isName_of_firstChild? member isRuleKind first).2] at inBody
          cases inBody

/-! ## Places on names -/

variable {position : Position}

/-- Each place inside a name selects it. -/
theorem locate?_of_inside (isName : (ofSource source).IsName name)
    (positioned : (ofSource source).position? name = some position)
    (line : place.line + 1 = position.line) (left : position.column ≤ place.character)
    (right : place.character < position.column + Text.utf16Length name.text.toList) :
    (ofSource source).locate? place = some name.selected := by
  have covered :=
    covers_iff.mpr ⟨position, positioned, line.symm, left, Nat.le_of_lt right⟩
  obtain ⟨selector, member, chosen, _, others⟩ := exists_selector isName covered
  refine locate?_of_last member chosen fun other otherMember later => ?_
  cases chosenOther : (ofSource source).chosen? place other with
  | none => rfl
  | some found =>
    obtain ⟨behind, reportable, otherCovered, _⟩ :=
      others other otherMember later found chosenOther
    have atEnd := (starts_behind_of_later isName otherMember reportable behind covered
      otherCovered).2 position positioned
    omega

/-- The place just behind a name selects it unless an element begins there that the search
gets to later. -/
theorem locate?_behind_iff (isName : (ofSource source).IsName name)
    (positioned : (ofSource source).position? name = some position)
    (line : place.line + 1 = position.line)
    (behind : place.character = position.column + Text.utf16Length name.text.toList) :
    (ofSource source).locate? place = some name.selected ↔
      ¬∃ event ∈ ((ofSource source).search place).events (ofSource source).tree.root,
        event.category = .element ∧ name.index < event.node.index ∧
          (ofSource source).position? event.node = some place.toPosition := by
  have covered := covers_iff.mpr ⟨position, positioned, line.symm, by omega, by omega⟩
  obtain ⟨selector, member, chosen, before, others⟩ := exists_selector isName covered
  rw [Walk.events_root]
  constructor
  · rintro located ⟨event, reported, isElement, later, starts⟩
    obtain ⟨other, otherMember, report⟩ := mem_filterMap.mp reported
    obtain ⟨category, eventNode⟩ := event
    have same : other = eventNode := (Walk.node_of_report? report).symm
    subst same
    cases isElement
    dsimp only at later starts
    have otherCovered : (ofSource source).covers other place = true :=
      covers_iff.mpr ⟨_, starts, rfl, Nat.le_refl _, Nat.le_add_right ..⟩
    have chosenOther : (ofSource source).chosen? place other = some other := by
      rw [chosen?, report, Option.bind_some, selection?]
      exact if_pos otherCovered
    obtain ⟨node, _, chosenNode, last⟩ := exists_of_locate? located
    have notLater : other.index ≤ node.index := by
      by_contra later
      rw [last other otherMember (by omega)] at chosenOther
      cases chosenOther
    have nodeIndex := index_le_of_chosen? chosenNode
    have nameIndex := name.selected_index_le
    omega
  · intro noOther
    refine locate?_of_last member chosen fun other otherMember later => ?_
    cases chosenOther : (ofSource source).chosen? place other with
    | none => rfl
    | some found =>
      obtain ⟨behindName, reportable, otherCovered, reported⟩ :=
        others other otherMember later found chosenOther
      have starts := (starts_behind_of_later isName otherMember reportable behindName
        covered otherCovered).1
      have event : (⟨.element, other⟩ : Walk.Event) ∈
          (ofSource source).tree.nodes.filterMap
          ((ofSource source).search place).report? :=
        mem_filterMap.mpr ⟨other, otherMember, reported⟩
      exact absurd ⟨_, event, rfl, behindName, starts⟩ noOther

/-- What a place selects is on the line of the place. -/
theorem line_of_locate? (located : (ofSource source).locate? place = some found) :
    (ofSource source).line found = place.line + 1 := by
  have ofCovers {node : Node} (covered : (ofSource source).covers node place = true) :
      (ofSource source).line node = place.line + 1 := by
    obtain ⟨position, positioned, line, _⟩ := covers_iff.mp covered
    rw [Grammar.line, positioned]
    exact line
  obtain ⟨node, member, chosen, _⟩ := exists_of_locate? located
  rcases cases_of_chosen? chosen with
    ⟨isRule, rfl | isFirst, ruleCovered⟩ | ⟨rfl, _, _, covered, _⟩
  · obtain ⟨name, first, covered⟩ := exists_of_coversName ruleCovered
    obtain ⟨noSpan, _⟩ := (Reading.sourced_of_mem member).declared isRule
    rw [← ofCovers covered, Grammar.line, Grammar.line, position?, position?,
      Node.anchor_of_firstChild? noSpan first]
  · obtain ⟨name, first, covered⟩ := exists_of_coversName ruleCovered
    cases isFirst.symm.trans first
    exact ofCovers covered
  · exact ofCovers covered

/-- Locating is exact on names. Every name of the tree has a position. Each place from
there to the end of its text selects the name, or the rule that it names if that is a
parser rule. The place just behind the text does so too unless an element that the search
gets to later begins there. Whatever a place selects is on the line of the place. -/
theorem locate?_exact (source : String) :
    (∀ name ∈ (ofSource source).tree.nodes, name.kind = .tokenRef ∨ name.kind = .ruleRef →
      ∃ position, (ofSource source).position? name = some position ∧
        ∀ place : Place, place.line + 1 = position.line →
          (position.column ≤ place.character →
            place.character < position.column + Text.utf16Length name.text.toList →
            (ofSource source).locate? place = some name.selected) ∧
          (place.character = position.column + Text.utf16Length name.text.toList →
            ((ofSource source).locate? place = some name.selected ↔
              ¬∃ event ∈
                  ((ofSource source).search place).events (ofSource source).tree.root,
                event.category = .element ∧ name.index < event.node.index ∧
                  (ofSource source).position? event.node = some place.toPosition))) ∧
      ∀ place node, (ofSource source).locate? place = some node →
        (ofSource source).line node = place.line + 1 := by
  refine ⟨fun name member ofKind => ?_, fun place node => line_of_locate?⟩
  have isName : (ofSource source).IsName name :=
    ⟨member, NodeKind.isName_of_eq_or_eq ofKind⟩
  obtain ⟨token, _, _, _, begins, _⟩ := exists_token_of_name isName
  refine ⟨_, position?_eq begins rfl, fun place line => ⟨?_, ?_⟩⟩
  · exact locate?_of_inside isName (position?_eq begins rfl) line
  · exact locate?_behind_iff isName (position?_eq begins rfl) line

/-- The reference to `b` is located at its first column. -/
theorem locate?_exact_reference :
    ∃ name ∈ (ofSource "grammar A; a : b ;").tree.nodes, name.text = "b" ∧
      (ofSource "grammar A; a : b ;").locate? ⟨0, 15⟩ = some name.selected := by
  have occurs : ((ofSource "grammar A; a : b ;").tree.nodes.any fun name =>
      name.text = "b" &&
      name.kind = .ruleRef && (ofSource "grammar A; a : b ;").position? name =
        some ⟨1, 15⟩) = true := by
    decide +kernel
  obtain ⟨name, member, facts⟩ := any_eq_true.mp occurs
  simp only [Bool.and_eq_true, decide_eq_true_eq] at facts
  obtain ⟨⟨text, isRule⟩, positioned⟩ := facts
  obtain ⟨position, samePosition, places⟩ :=
    (locate?_exact _).1 name member (Or.inr isRule)
  cases positioned.symm.trans samePosition
  refine ⟨name, member, text, (places ⟨0, 15⟩ rfl).1 (Nat.le_refl _) ?_⟩
  rw [text]
  decide

end Grammar

end GrammarInspector
