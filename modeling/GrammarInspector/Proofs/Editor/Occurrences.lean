import Mathlib.Data.List.Nodup
import GrammarInspector.Proofs.Editor.Definition

/-! # Occurrences of a name

The occurrences of a name are the nodes of one kind with its text. Those that stand
directly in a rule declare the name and the others refer to it. Definitions and references
are found by different tests, and still they share the occurrences out among them: the
only name that stands directly in a rule is the name of that rule.
-/

namespace GrammarInspector.Grammar

open List

open Editor (Place Range)

variable {source : String} {place : Place} {node name rule symbol : Node}

/-- The nodes that have the kind and the text of a symbol, in pre-order. -/
def occurrences (grammar : Grammar) (symbol : Node) : List Node :=
  (grammar.tree.nodesOfKind symbol.kind).filter (·.text = symbol.text)

theorem mem_occurrences {grammar : Grammar} : node ∈ grammar.occurrences symbol ↔
      node ∈ grammar.tree.nodes ∧ node.kind = symbol.kind ∧ node.text = symbol.text := by
  simp only [occurrences, Tree.nodesOfKind, mem_filter, decide_eq_true_eq, and_assoc]

/-! ## Declarations -/

theorem ruleName?_of_firstChild? (isRule : rule.isRule = true)
    (first : rule.firstChild? = some name) : rule.tree.ruleName? = some name.text := by
  rw [Node.firstChild?_eq] at first
  obtain ⟨tree, isFirst, rfl⟩ := Option.map_eq_some_iff.mp first
  have ofKind : rule.tree.kind = .rule := of_decide_eq_true isRule
  rw [Tree.ruleName?, if_pos ofKind, isFirst]
  rfl

/-- What stands directly in a rule that has a name stands in a rule. -/
theorem isDeclaration_of_declares {text : String} (holds : declares text node = true) :
    isDeclaration node = true := by
  obtain ⟨rule, isParent, named⟩ := Option.bind_eq_some_iff.mp (of_decide_eq_true holds)
  rw [isDeclaration, isParent, Option.any_some]
  refine decide_eq_true ?_
  by_contra notRule
  have other : rule.tree.kind ≠ .rule := notRule
  rw [Tree.ruleName?, if_neg other] at named
  cases named

/-- A name stands directly in the rule of some name if it is that name and stands
directly in a rule. -/
theorem declares_eq (isName : (ofSource source).IsName name) (text : String) :
    declares text name = (decide (name.text = text) && isDeclaration name) := by
  rcases (Reading.sourced_of_mem isName.member).named isName.ofKind with
    inBody | ⟨rule, isParent, isRule, first⟩
  · have notDeclared := (inBodyOf_iff isName).mp inBody
    rw [notDeclared, Bool.and_false, ← Bool.not_eq_true]
    intro holds
    rw [isDeclaration_of_declares holds] at notDeclared
    cases notDeclared
  · rw [declares, isDeclaration, isParent, Option.bind_some,
      ruleName?_of_firstChild? isRule first,
      Option.any_some, isRule, Bool.and_true]
    exact decide_eq_decide.mpr Option.some_inj

/-! ## Ranges of occurrences -/

theorem isName_of_mem_occurrences {grammar : Grammar} (isName : symbol.kind.isName = true)
    (member : node ∈ grammar.occurrences symbol) : grammar.IsName node := by
  obtain ⟨isNode, sameKind, _⟩ := mem_occurrences.mp member
  exact ⟨isNode, sameKind ▸ isName⟩

/-- Ranges with the length of a symbol's text are the ranges of its occurrences. -/
theorem map_rangeWithLength {grammar : Grammar} (keeps : Node → Bool) :
    ((grammar.occurrences symbol).filter keeps).map
        (grammar.rangeWithLength · (Text.utf16Length symbol.text.toList)) =
      ((grammar.occurrences symbol).filter keeps).map grammar.rangeOf := by
  refine map_congr_left fun node member => ?_
  rw [rangeOf, (mem_occurrences.mp (mem_filter.mp member).1).2.2]

/-- Definitions are the ranges of the occurrences that declare the name. -/
theorem definition_eq (located : (ofSource source).locate? place = some node)
    (isName : node.kind.isName = true) :
    (ofSource source).definition place =
      (((ofSource source).occurrences node).filter isDeclaration).map
        (ofSource source).rangeOf := by
  have candidates : ((ofSource source).tree.nodesOfKind node.kind).filter
      (declares node.text) =
      ((ofSource source).occurrences node).filter isDeclaration := by
    rw [occurrences, filter_filter]
    refine filter_congr fun name member => ?_
    obtain ⟨isNode, ofKind⟩ := mem_filter.mp member
    have sameKind : name.kind = node.kind := of_decide_eq_true ofKind
    rw [declares_eq ⟨isNode, sameKind ▸ isName⟩, Bool.and_comm]
  rw [definition, located]
  dsimp only
  rw [candidates, map_rangeWithLength]

/-- References are the ranges of all occurrences, or of those that declare nothing. -/
theorem references_eq {grammar : Grammar} (found : grammar.symbol? place = some symbol)
    (withDeclaration : Bool) :
    grammar.references place withDeclaration =
      ((grammar.occurrences symbol).filter fun node => withDeclaration ||
        !isDeclaration node).map grammar.rangeOf := by
  have candidates : ((grammar.tree.nodesOfKind symbol.kind).filter fun node =>
      node.text = symbol.text && (withDeclaration || !isDeclaration node)) =
      (grammar.occurrences symbol).filter fun node => withDeclaration ||
        !isDeclaration node := by
    rw [occurrences, filter_filter]
    exact filter_congr fun node _ => Bool.and_comm ..
  rw [references, found]
  dsimp only
  rw [candidates, map_rangeWithLength]

theorem eq_of_rangeOf_eq {other : Node} (isName : (ofSource source).IsName name)
    (otherName : (ofSource source).IsName other)
    (same : (ofSource source).rangeOf name = (ofSource source).rangeOf other) :
    name = other := by
  obtain ⟨position, positioned, counted, _, range⟩ := exists_rangeOf isName
  obtain ⟨further, otherPositioned, otherCounted, _, otherRange⟩ :=
    exists_rangeOf otherName
  rw [range, otherRange] at same
  have starts : Place.ofPosition position = Place.ofPosition further :=
    congrArg Range.start same
  have positions : position = further := by
    rw [← Place.toPosition_ofPosition counted, starts,
      Place.toPosition_ofPosition otherCounted]
  exact eq_of_position?_eq isName otherName positioned (positions ▸ otherPositioned)

theorem nodup_occurrences (isName : symbol.kind.isName = true) :
    (((ofSource source).occurrences symbol).map (ofSource source).rangeOf).Nodup := by
  have nodes : (ofSource source).tree.nodes.Nodup :=
    (ofSource source).tree.pairwise_index_nodes.imp fun earlier equal =>
      Nat.ne_of_lt earlier (congrArg Node.index equal)
  refine List.Nodup.map_on ?_ ((nodes.filter _).filter _)
  intro name member other otherMember same
  exact eq_of_rangeOf_eq (isName_of_mem_occurrences isName member)
    (isName_of_mem_occurrences isName otherMember) same

/-- Definitions and references share out the occurrences of a name. Asked at a place that
selects a name, the definitions are the ranges of the occurrences that stand directly in a
rule, the references without declarations are those of the others, and the references with
declarations are those of all of them, each in pre-order. No range is listed twice, so
none is both. -/
theorem occurrences_shared_out (source : String) (place : Place) (node : Node)
    (located : (ofSource source).locate? place = some node)
    (isName : node.kind = .tokenRef ∨ node.kind = .ruleRef) :
    (ofSource source).definition place =
        (((ofSource source).occurrences node).filter isDeclaration).map
          (ofSource source).rangeOf ∧
      (ofSource source).references place false =
        (((ofSource source).occurrences node).filter (!isDeclaration ·)).map
          (ofSource source).rangeOf ∧
      (ofSource source).references place true =
        ((ofSource source).occurrences node).map (ofSource source).rangeOf ∧
      ((ofSource source).references place true).Perm
        ((ofSource source).definition place ++ (ofSource source).references place false) ∧
      ((ofSource source).references place true).Nodup ∧
      ((ofSource source).definition place).Disjoint
        ((ofSource source).references place false) := by
  have named := NodeKind.isName_of_eq_or_eq isName
  have found : (ofSource source).symbol? place = some node := by
    rw [symbol?_eq located, nameOf?, not_isRule_of_isName named]
    rfl
  have definitions := definition_eq located named
  have uses : (ofSource source).references place false =
      (((ofSource source).occurrences node).filter (!isDeclaration ·)).map
        (ofSource source).rangeOf :=
    references_eq found false
  have all : (ofSource source).references place true =
      ((ofSource source).occurrences node).map (ofSource source).rangeOf := by
    rw [references_eq found true, filter_eq_self.mpr fun _ _ => Bool.true_or _]
  have together : ((ofSource source).references place true).Perm
      ((ofSource source).definition place ++ (ofSource source).references
        place false) := by
    rw [definitions, uses, all, ← map_append]
    exact (filter_append_perm isDeclaration _).symm.map _
  have once : ((ofSource source).references place true).Nodup := by
    rw [all]
    exact nodup_occurrences named
  exact ⟨definitions, uses, all, together, once,
    disjoint_of_nodup_append (together.nodup once)⟩

/-- Asked at the first reference to `a`, which is referred to twice and declared twice. -/
theorem occurrences_shared_out_twice :
    (ofSource "grammar T; r : a B a ; a : B ; a : ;").definition ⟨0, 15⟩ =
        [⟨⟨0, 23⟩, ⟨0, 24⟩⟩, ⟨⟨0, 31⟩, ⟨0, 32⟩⟩] ∧
      (ofSource "grammar T; r : a B a ; a : B ; a : ;").references ⟨0, 15⟩ false =
        [⟨⟨0, 15⟩, ⟨0, 16⟩⟩, ⟨⟨0, 19⟩, ⟨0, 20⟩⟩] ∧
      ((ofSource "grammar T; r : a B a ; a : B ; a : ;").references ⟨0, 15⟩ true).Nodup ∧
      ((ofSource "grammar T; r : a B a ; a : B ; a : ;").definition ⟨0, 15⟩).Disjoint
        ((ofSource "grammar T; r : a B a ; a : B ; a : ;").references ⟨0, 15⟩ false) := by
  have finds : ((ofSource "grammar T; r : a B a ; a : B ; a : ;").locate? ⟨0, 15⟩).any
      (·.kind = .ruleRef) = true := by decide +kernel
  obtain ⟨node, located, ofKind⟩ := (Option.any_eq_true _ _).mp finds
  have isName : node.kind = .tokenRef ∨ node.kind = .ruleRef :=
    Or.inr (of_decide_eq_true ofKind)
  obtain ⟨_, _, _, _, once, apart⟩ := occurrences_shared_out _ ⟨0, 15⟩ node located isName
  exact ⟨by decide +kernel, by decide +kernel, once, apart⟩

end GrammarInspector.Grammar
