import GrammarInspector.Editor.Resolve
import GrammarInspector.Proofs.Editor.Locate
import GrammarInspector.Proofs.Editor.RangeText

/-! # References

The occurrences of a name are the same from each of them, and their ranges cover the name.
-/

namespace GrammarInspector.Grammar

open Editor (Place Range)

variable {source : String} {place other : Place} {node name symbol : Node}
  {position : Position} {grammar : Grammar}

/-! ## Symbols -/

theorem mem_of_locate? (located : grammar.locate? place = some node) :
    node ∈ grammar.tree.nodes := by
  obtain ⟨chooser, member, chosen, _⟩ := exists_of_locate? located
  rcases cases_of_chosen? chosen with ⟨_, isNode | isFirst, _⟩ | ⟨isNode, _⟩
  · rwa [isNode]
  · exact Tree.firstChild_mem_nodes member isFirst
  · rwa [isNode]

/-- The node whose text is the name that a node stands for: the node, or the
name of a rule. -/
def nameOf? (node : Node) : Option Node :=
  if node.isRule then node.firstChild? else some node

theorem symbol?_eq (located : grammar.locate? place = some node) :
    grammar.symbol? place = nameOf? node := by
  rw [symbol?, located]
  rfl

theorem not_isRule_of_isName (isName : name.kind.isName = true) :
    name.isRule = false := by
  rw [Node.isRule]
  generalize name.kind = kind at isName
  cases kind <;> cases isName <;> rfl

/-- What a name selects leads back to the name. -/
theorem nameOf?_selected (isName : (ofSource source).IsName name) :
    nameOf? name.selected = some name := by
  have itself : nameOf? name = some name := by
    rw [nameOf?, not_isRule_of_isName isName.ofKind]
    rfl
  rcases (Reading.sourced_of_mem isName.member).named isName.ofKind with
    inBody | ⟨rule, isParent, isRule, first⟩
  · rw [selected_of_inBody isName.member inBody, itself]
  · rw [selected_of_firstChild? isParent isRule first]
    split
    · exact itself
    · rw [nameOf?, isRule]
      exact first

/-- A located name or rule stands for a name of the tree. -/
theorem exists_nameOf? (located : (ofSource source).locate? place = some node)
    (isSymbol : node.kind = .tokenRef ∨ node.kind = .ruleRef ∨ node.kind = .rule) :
    ∃ symbol, (ofSource source).IsName symbol ∧ nameOf? node = some symbol := by
  have member := mem_of_locate? located
  have leaf (isName : node.kind.isName = true) :
      ∃ symbol, (ofSource source).IsName symbol ∧ nameOf? node = some symbol := by
    refine ⟨node, ⟨member, isName⟩, ?_⟩
    rw [nameOf?, not_isRule_of_isName isName]
    rfl
  rcases isSymbol with isToken | isReference | isRule
  · exact leaf (by rw [isToken]; rfl)
  · exact leaf (by rw [isReference]; rfl)
  · obtain ⟨_, _, symbol, first, isName⟩ :=
      (Reading.sourced_of_mem member).declared isRule
    refine ⟨symbol, ⟨Tree.firstChild_mem_nodes member first, isName⟩, ?_⟩
    rw [nameOf?, Node.isRule, isRule]
    exact first

/-! ## Ranges of names -/

theorem rangeWithLength_eq (positioned : grammar.position? node = some position)
    (length : Nat) : grammar.rangeWithLength node length = .ofLength position length := by
  rw [rangeWithLength, Grammar.line, Grammar.column, positioned]
  rfl

theorem textIn_of_name (isName : (ofSource source).IsName name) :
    ((ofSource source).rangeOf name).textIn source.toList = name.text.toList := by
  obtain ⟨token, tokenMember, isIdentifier, _, begins, text⟩ :=
    exists_token_of_name isName
  obtain ⟨placed⟩ := Token.nonempty_placed (mem_ofText tokenMember)
  have positioned : (ofSource source).position? name =
      some (token.positionIn source.toList) :=
    position?_eq begins rfl
  have oneLine := Token.not_break_of_isIdentifier (mem_ofText tokenMember) isIdentifier
  have covered :=
    Range.textIn_ofLength placed.before token.text.toList placed.behind oneLine
  rw [rangeOf, rangeWithLength_eq positioned, placed.position_eq, text]
  exact (congrArg (Range.textIn · _) placed.source_eq).trans covered

/-- The range of a name in the terms of its first position. -/
theorem exists_rangeOf (isName : (ofSource source).IsName name) :
    ∃ position, (ofSource source).position? name = some position ∧ 1 ≤ position.line ∧
      0 < Text.utf16Length name.text.toList ∧
      (ofSource source).rangeOf name =
        .ofLength position (Text.utf16Length name.text.toList) := by
  obtain ⟨token, tokenMember, _, _, begins, text⟩ := exists_token_of_name isName
  obtain ⟨placed⟩ := Token.nonempty_placed (mem_ofText tokenMember)
  have positioned : (ofSource source).position? name =
      some (token.positionIn source.toList) :=
    position?_eq begins rfl
  refine ⟨_, positioned, ?_, ?_, rangeWithLength_eq positioned _⟩
  · rw [placed.position_eq]
    exact Position.one_le_line_after _
  · rw [text]
    exact utf16Length_text_pos tokenMember

theorem locate?_of_contains (isName : (ofSource source).IsName name)
    (inside : ((ofSource source).rangeOf name).Contains place.toPosition) :
    (ofSource source).locate? place = some name.selected := by
  obtain ⟨position, positioned, counted, _, range⟩ := exists_rangeOf isName
  rw [range, Range.contains_ofLength_iff counted] at inside
  exact locate?_of_inside isName positioned inside.1 inside.2.1 inside.2.2

theorem symbol?_of_contains (isName : (ofSource source).IsName name)
    (inside : ((ofSource source).rangeOf name).Contains place.toPosition) :
    (ofSource source).symbol? place = some name := by
  rw [symbol?_eq (locate?_of_contains isName inside), nameOf?_selected isName]

/-! ## Occurrences -/

/-- References depend on the kind and the text of a symbol only. -/
theorem references_congr {otherSymbol : Node}
    (found : grammar.symbol? place = some symbol)
    (otherFound : grammar.symbol? other = some otherSymbol)
    (sameKind : otherSymbol.kind = symbol.kind)
    (sameText : otherSymbol.text = symbol.text) (withDeclaration : Bool) :
    grammar.references other withDeclaration =
      grammar.references place withDeclaration := by
  simp only [references, found, otherFound, sameKind, sameText]

/-- Each reference is the range of a node of the same kind and text. -/
theorem exists_of_mem_references {range : Range} {withDeclaration : Bool}
    (found : grammar.symbol? place = some symbol)
    (member : range ∈ grammar.references place withDeclaration) :
    ∃ occurrence ∈ grammar.tree.nodes, occurrence.kind = symbol.kind ∧
      occurrence.text = symbol.text ∧ range = grammar.rangeOf occurrence := by
  simp only [references, found] at member
  obtain ⟨occurrence, included, rfl⟩ := List.mem_map.mp member
  obtain ⟨ofKind, holds⟩ := List.mem_filter.mp included
  obtain ⟨isNode, sameKind⟩ := List.mem_filter.mp ofKind
  have sameText : occurrence.text = symbol.text :=
    of_decide_eq_true (Bool.and_eq_true_iff.mp holds).1
  refine ⟨occurrence, isNode, of_decide_eq_true sameKind, sameText, ?_⟩
  rw [rangeOf, sameText]

/-- References are closed under navigation. From each place in the range of a reference
the same references are found, with and without declarations, and each range covers
exactly the name that was asked for. -/
theorem references_closed (source : String) (place : Place) (node : Node)
    (located : (ofSource source).locate? place = some node)
    (isSymbol : node.kind = .tokenRef ∨ node.kind = .ruleRef ∨ node.kind = .rule) :
    ∃ symbol, nameOf? node = some symbol ∧
      ∀ range ∈ (ofSource source).references place true,
        (∀ other : Place, range.Contains other.toPosition → ∀ withDeclaration,
          (ofSource source).references other withDeclaration =
            (ofSource source).references place withDeclaration) ∧
        range.textIn source.toList = symbol.text.toList := by
  obtain ⟨symbol, isName, named⟩ := exists_nameOf? located isSymbol
  have found : (ofSource source).symbol? place = some symbol :=
    (symbol?_eq located).trans named
  refine ⟨symbol, named, fun range member => ?_⟩
  obtain ⟨occurrence, occurrenceMember, sameKind, sameText, rfl⟩ :=
    exists_of_mem_references found member
  have occurrenceName : (ofSource source).IsName occurrence :=
    ⟨occurrenceMember, sameKind ▸ isName.ofKind⟩
  refine ⟨fun other inside withDeclaration => ?_, ?_⟩
  · have otherFound := symbol?_of_contains occurrenceName inside
    exact references_congr found otherFound sameKind sameText withDeclaration
  · rw [textIn_of_name occurrenceName, sameText]

/-- The rule `a` and the reference to it. -/
theorem references_closed_rule :
    ((ofSource "grammar A; a : b a ;").references ⟨0, 11⟩ true).length = 2 ∧
      ∀ range ∈ (ofSource "grammar A; a : b a ;").references ⟨0, 11⟩ true,
        range.textIn "grammar A; a : b a ;".toList = "a".toList := by
  refine ⟨by decide +kernel, ?_⟩
  have finds : ((ofSource "grammar A; a : b a ;").locate? ⟨0, 11⟩).any (fun node =>
      node.kind = .rule && (nameOf? node).any (·.text = "a")) = true := by decide +kernel
  obtain ⟨node, located, facts⟩ := (Option.any_eq_true _ _).mp finds
  obtain ⟨isRule, isNamed⟩ := Bool.and_eq_true_iff.mp facts
  obtain ⟨name, named, text⟩ := (Option.any_eq_true _ _).mp isNamed
  obtain ⟨symbol, isSymbol, closed⟩ :=
    references_closed "grammar A; a : b a ;" ⟨0, 11⟩ node located
    (Or.inr (Or.inr (of_decide_eq_true isRule)))
  cases named.symm.trans isSymbol
  intro range member
  rw [(closed range member).2, of_decide_eq_true text]

end GrammarInspector.Grammar
