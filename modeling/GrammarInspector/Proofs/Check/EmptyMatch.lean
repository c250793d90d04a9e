import GrammarInspector.Check.Nullability
import Mathlib.Logic.Relation

/-! # Trees that match the empty string

`MatchesEmpty` is the least set of trees that match the empty string, where `ruleOf` leads
from a name to the rule that it stands for. Barring rules makes the set smaller. A rule
never needs itself, so barring a rule takes nothing from its own body, and what a tree
loses it loses through a barred rule that it leads to.
-/

namespace GrammarInspector.Nullability

variable {ruleOf : String → Option Node} {barred : List Nat} {name : String}
  {rule : Node} {tree : Tree}

/-- The trees that can match the empty string. -/
inductive MatchesEmpty (ruleOf : String → Option Node) : Tree → Prop
  | plain {data children}
    (kind : data.kind ∈ [.epsilon, .optional, .closure, .action, .predicate]) :
    MatchesEmpty ruleOf (.node data children)
  | literal {data children} (kind : data.kind = .literal) (isEmpty : data.text = "''") :
    MatchesEmpty ruleOf (.node data children)
  | block {data children alternative} (kind : data.kind = .block)
      (member : alternative ∈ children)
    (isAlternative : alternative.kind ∈ [.alternative, .lexerAlternative])
    (ofAlternative : MatchesEmpty ruleOf alternative) :
      MatchesEmpty ruleOf (.node data children)
  | alternative {data children} (kind : data.kind = .alternative)
    (ofElements : ∀ element ∈ children, element.kind ≠ .elementOptions →
      MatchesEmpty ruleOf element) :
    MatchesEmpty ruleOf (.node data children)
  /-- An alternative of a lexer rule is its first child, and a repetition is its block. -/
  | first {data first rest} (kind : data.kind ∈ [.lexerAlternative, .positiveClosure])
    (ofFirst : MatchesEmpty ruleOf first) :
      MatchesEmpty ruleOf (.node data (first :: rest))
  | labelled {data label target rest} (kind : data.kind ∈ [.assign, .plusAssign])
    (ofTarget : MatchesEmpty ruleOf target) :
    MatchesEmpty ruleOf (.node data (label :: target :: rest))
  | rule {data children block} (kind : data.kind = .rule)
    (found : (Tree.node data children).childOfKind? .block = some block)
    (ofBlock : MatchesEmpty ruleOf block) : MatchesEmpty ruleOf (.node data children)
  | reference {data children rule} (kind : data.kind ∈ [.ruleRef, .tokenRef])
    (found : ruleOf data.text = some rule) (ofRule : MatchesEmpty ruleOf rule.tree) :
    MatchesEmpty ruleOf (.node data children)

section Clauses

variable {data : NodeData} {children : List Tree}

theorem matchesEmpty_block (kind : data.kind = .block) :
    MatchesEmpty ruleOf (.node data children) ↔ ∃ alternative ∈ children,
      alternative.kind ∈ [.alternative, .lexerAlternative] ∧
      MatchesEmpty ruleOf alternative := by
  constructor
  · intro holds
    cases holds with
    | block _ member isAlternative ofAlternative =>
        exact ⟨_, member, isAlternative, ofAlternative⟩
    | _ => simp_all
  · intro ⟨alternative, member, isAlternative, ofAlternative⟩
    exact .block kind member isAlternative ofAlternative

theorem matchesEmpty_alternative (kind : data.kind = .alternative) :
    MatchesEmpty ruleOf (.node data children) ↔
      ∀ element ∈ children, element.kind ≠ .elementOptions →
      MatchesEmpty ruleOf element := by
  constructor
  · intro holds
    cases holds with
    | alternative _ ofElements => exact ofElements
    | _ => simp_all
  · exact .alternative kind

theorem matchesEmpty_first (kind : data.kind ∈ [.lexerAlternative, .positiveClosure]) :
    MatchesEmpty ruleOf (.node data children) ↔
      ∃ first rest, children = first :: rest ∧ MatchesEmpty ruleOf first := by
  constructor
  · intro holds
    cases holds with
    | first _ ofFirst => exact ⟨_, _, rfl, ofFirst⟩
    | _ => grind
  · intro ⟨first, rest, equal, ofFirst⟩
    subst equal
    exact .first kind ofFirst

theorem matchesEmpty_labelled (kind : data.kind ∈ [.assign, .plusAssign]) :
    MatchesEmpty ruleOf (.node data children) ↔
      ∃ label target rest, children = label :: target :: rest ∧
      MatchesEmpty ruleOf target := by
  constructor
  · intro holds
    cases holds with
    | labelled _ ofTarget => exact ⟨_, _, _, rfl, ofTarget⟩
    | _ => grind
  · intro ⟨label, target, rest, equal, ofTarget⟩
    subst equal
    exact .labelled kind ofTarget

theorem matchesEmpty_literal (kind : data.kind = .literal) :
    MatchesEmpty ruleOf (.node data children) ↔ data.text = "''" := by
  constructor
  · intro holds
    cases holds with
    | literal _ isEmpty => exact isEmpty
    | _ => simp_all
  · exact .literal kind

theorem matchesEmpty_reference (kind : data.kind ∈ [.ruleRef, .tokenRef]) :
    MatchesEmpty ruleOf (.node data children) ↔
      ∃ rule, ruleOf data.text = some rule ∧ MatchesEmpty ruleOf rule.tree := by
  constructor
  · intro holds
    cases holds with
    | reference _ found ofRule => exact ⟨_, found, ofRule⟩
    | _ => grind
  · intro ⟨rule, found, ofRule⟩
    exact .reference kind found ofRule

theorem matchesEmpty_rule (kind : tree.kind = .rule) :
    MatchesEmpty ruleOf tree ↔ ∃ block, tree.childOfKind? .block = some block ∧
    MatchesEmpty ruleOf block := by
  constructor
  · intro holds
    cases holds with
    | rule _ found ofBlock => exact ⟨_, found, ofBlock⟩
    | _ => simp_all [Tree.kind]
  · intro ⟨block, found, ofBlock⟩
    cases tree with
    | node data children => exact .rule kind found ofBlock

/-- Whether a rule has an alternative without elements. -/
def hasEmptyAlternative (rule : Tree) : Bool :=
  (rule.childOfKind? .block).any fun block => block.children.any fun alternative =>
    alternative.kind = .alternative && alternative.children.all (·.kind = .epsilon)

/-- Such a rule needs no other. -/
theorem MatchesEmpty.of_hasEmptyAlternative (kind : tree.kind = .rule)
    (isEmpty : hasEmptyAlternative tree = true) : MatchesEmpty ruleOf tree := by
  obtain ⟨⟨data, children⟩, found, inBlock⟩ := (Option.any_eq_true ..).mp isEmpty
  obtain ⟨⟨ofAlternative, elements⟩, member, parts⟩ := List.any_eq_true.mp inBlock
  simp only [Bool.and_eq_true, decide_eq_true_eq, List.all_eq_true] at parts
  have isBlock : (Tree.node data children).kind = .block := by
    simpa using List.find?_some found
  refine (matchesEmpty_rule kind).mpr
    ⟨_, found, .block isBlock member (by simp [parts.1]) ?_⟩
  refine .alternative parts.1 fun element inside _ => ?_
  obtain ⟨ofElement, below⟩ := element
  have isEpsilon : ofElement.kind = .epsilon := parts.2 _ inside
  exact .plain (by simp [isEpsilon])

end Clauses

/-! ## Barred rules -/

/-- Names of rules, without those that lead to a rule with one of the given numbers. -/
def barring (ruleOf : String → Option Node) (barred : List Nat) (name : String) :
    Option Node :=
  (ruleOf name).filter fun rule => !barred.contains rule.index

theorem barring_eq_some :
    barring ruleOf barred name = some rule ↔ ruleOf name = some rule ∧
    rule.index ∉ barred := by
  simp [barring, Option.filter_eq_some_iff]

@[simp] theorem barring_nil (ruleOf : String → Option Node) :
    barring ruleOf [] = ruleOf := by
  funext name
  cases found : ruleOf name <;> simp [barring, found]

theorem barring_barring (ruleOf : String → Option Node) (first second : List Nat) :
    barring (barring ruleOf first) second = barring ruleOf (second ++ first) := by
  funext name
  apply Option.ext
  intro rule
  simp only [barring_eq_some, List.mem_append, not_or]
  grind

namespace MatchesEmpty

variable {block : Tree}

/-- What holds with some rules holds with others if references do. -/
theorem transfer {rules : String → Option Node} (holds : MatchesEmpty rules tree)
    (reference : ∀ {data children rule}, data.kind ∈ [.ruleRef, .tokenRef] →
      rules data.text = some rule → MatchesEmpty ruleOf rule.tree →
    MatchesEmpty ruleOf (.node data children)) :
    MatchesEmpty ruleOf tree := by
  induction holds with
  | plain kind => exact .plain kind
  | literal kind isEmpty => exact .literal kind isEmpty
  | block kind member isAlternative _ induction =>
      exact .block kind member isAlternative induction
  | alternative kind _ induction => exact .alternative kind induction
  | first kind _ induction => exact .first kind induction
  | labelled kind _ induction => exact .labelled kind induction
  | rule kind found _ induction => exact .rule kind found induction
  | reference kind found _ induction => exact reference kind found induction

theorem mono {fewer : String → Option Node} (holds : MatchesEmpty fewer tree)
    (extends_ : ∀ name rule, fewer name = some rule → ruleOf name = some rule) :
    MatchesEmpty ruleOf tree :=
  holds.transfer fun kind found => .reference kind (extends_ _ _ found)

theorem of_barring (holds : MatchesEmpty (barring ruleOf barred) tree) :
    MatchesEmpty ruleOf tree := by
  apply holds.mono
  intro name rule found
  exact (barring_eq_some.mp found).1

/-- What holds by references to a rule holds without them, or else the
rule's body does. -/
theorem barring_or
    (only : ∀ name other, ruleOf name = some other → other.index = rule.index →
      other = rule)
    (isRule : rule.kind = .rule) (found : rule.tree.childOfKind? .block = some block)
    (holds : MatchesEmpty (barring ruleOf barred) tree) :
    MatchesEmpty (barring ruleOf (rule.index :: barred)) tree ∨
      MatchesEmpty (barring ruleOf (rule.index :: barred)) block := by
  by_cases ofBlock : MatchesEmpty (barring ruleOf (rule.index :: barred)) block
  · exact .inr ofBlock
  left
  -- A shortest reason for the rule would use a shorter one, so no reason for the
  -- tree uses the rule.
  refine holds.transfer fun {data children other} kind leads ofOther => ?_
  have parts := barring_eq_some.mp leads
  by_cases same : other.index = rule.index
  · have equal := only _ _ parts.1 same
    subst equal
    have inverted := (matchesEmpty_rule isRule).mp ofOther
    simp only [found, Option.some.injEq, exists_eq_left'] at inverted
    exact absurd inverted ofBlock
  · apply MatchesEmpty.reference kind _ ofOther
    apply barring_eq_some.mpr
    simp [parts, same]

/-- A rule does not need itself. -/
theorem body_of_rule
    (only : ∀ name other, ruleOf name = some other → other.index = rule.index →
      other = rule)
    (isRule : rule.kind = .rule) (found : rule.tree.childOfKind? .block = some block)
    (holds : MatchesEmpty (barring ruleOf barred) rule.tree) :
    MatchesEmpty (barring ruleOf (rule.index :: barred)) block := by
  apply (holds.barring_or only isRule found).elim
  · intro ofRule
    have inverted := (matchesEmpty_rule isRule).mp ofRule
    simpa only [found, Option.some.injEq, exists_eq_left'] using inverted
  · exact id

end MatchesEmpty

/-! ## References -/

/-- Whether a tree mentions a rule. The name that a rule declares is no mention. -/
inductive Mentions (ruleOf : String → Option Node) (rule : Node) : Tree → Prop
  | here {data children} (kind : data.kind ∈ [.ruleRef, .tokenRef])
    (found : ruleOf data.text = some rule) : Mentions ruleOf rule (.node data children)
  | child {data children child} (kind : data.kind ≠ .rule) (member : child ∈ children)
    (mentions : Mentions ruleOf rule child) : Mentions ruleOf rule (.node data children)
  | body {tree block} (found : tree.childOfKind? .block = some block)
    (mentions : Mentions ruleOf rule block) : Mentions ruleOf rule tree

theorem Mentions.mono {fewer : String → Option Node} (mentions : Mentions fewer rule tree)
    (extends_ : ∀ name rule, fewer name = some rule → ruleOf name = some rule) :
    Mentions ruleOf rule tree := by
  induction mentions with
  | here kind found => exact .here kind (extends_ _ _ found)
  | child kind member _ induction => exact .child kind member induction
  | body found _ induction => exact .body found induction

/-- Whether an element of a rule is a reference with a name. -/
def hasReference (rule : Tree) (name : String) : Bool :=
  (rule.childOfKind? .block).any fun block => decide (block.kind = .block) &&
    block.children.any fun alternative => decide (alternative.kind = .alternative) &&
      alternative.children.any fun element => element.kind = .tokenRef &&
        element.text = name

theorem Mentions.of_hasReference (found : ruleOf name = some rule)
    (isNamed : hasReference tree name = true) : Mentions ruleOf rule tree := by
  obtain ⟨⟨ofBlock, alternatives⟩, hasBlock, inBlock⟩ :=
    (Option.any_eq_true ..).mp isNamed
  simp only [Bool.and_eq_true, decide_eq_true_eq, List.any_eq_true] at inBlock
  obtain ⟨isBlock, ⟨ofAlternative, elements⟩, isChild, isAlternative, element⟩ := inBlock
  obtain ⟨⟨data, children⟩, isElement, isReference, rfl⟩ := element
  have differs : ofBlock.kind ≠ .rule := by
    rw [show ofBlock.kind = .block from isBlock]
    decide
  have differsToo : ofAlternative.kind ≠ .rule := by
    rw [show ofAlternative.kind = .alternative from isAlternative]
    decide
  refine .body hasBlock
    (.child differs isChild (.child differsToo isElement (.here ?_ found)))
  rw [show data.kind = .tokenRef from isReference]
  decide

/-- Whether the body of a rule mentions another. -/
def Refers (ruleOf : String → Option Node) (rule other : Node) : Prop :=
  Mentions ruleOf other rule.tree

/-- Whether a rule leads to another by one reference or more. -/
def Leads (ruleOf : String → Option Node) : Node → Node → Prop :=
  Relation.TransGen (Refers ruleOf)

/-- Whether a tree leads to a barred rule that matches the empty string. -/
def LeadsToBarred (ruleOf : String → Option Node) (barred : List Nat) (tree : Tree) :
    Prop :=
  ∃ mentioned last, Mentions ruleOf mentioned tree ∧
    Relation.ReflTransGen (Refers ruleOf) mentioned last ∧
    last.index ∈ barred ∧ MatchesEmpty ruleOf last.tree

theorem LeadsToBarred.mono {part : Tree} (leads : LeadsToBarred ruleOf barred part)
    (mentions : ∀ other, Mentions ruleOf other part → Mentions ruleOf other tree) :
    LeadsToBarred ruleOf barred tree := by
  obtain ⟨mentioned, last, ofPart, rest⟩ := leads
  exact ⟨mentioned, last, mentions mentioned ofPart, rest⟩

/-- A tree matches the empty string without the barred rules, or leads to one of them. -/
theorem MatchesEmpty.barring_or_leadsToBarred (holds : MatchesEmpty ruleOf tree)
    (barred : List Nat) :
    MatchesEmpty (barring ruleOf barred) tree ∨ LeadsToBarred ruleOf barred tree := by
  induction holds with
  | plain kind => exact .inl (.plain kind)
  | literal kind isEmpty => exact .inl (.literal kind isEmpty)
  | block kind member isAlternative _ induction =>
    apply induction.imp (.block kind member isAlternative)
    intro leads
    exact leads.mono fun _ => .child (by simp [kind]) member
  | @alternative data children kind _ induction =>
    by_cases leads : ∃ element ∈ children, LeadsToBarred ruleOf barred element
    · obtain ⟨element, member, leads⟩ := leads
      exact .inr (leads.mono fun _ => .child (by simp [kind]) member)
    · left
      apply MatchesEmpty.alternative kind
      intro element member isElement
      exact (induction element member isElement).resolve_right fun found =>
        leads ⟨element, member, found⟩
  | first kind _ induction =>
    apply induction.imp (.first kind)
    intro leads
    exact leads.mono fun _ => .child (by grind) (by simp)
  | labelled kind _ induction =>
    apply induction.imp (.labelled kind)
    intro leads
    exact leads.mono fun _ => .child (by grind) (by simp)
  | rule kind found _ induction =>
    apply induction.imp (.rule kind found)
    intro leads
    exact leads.mono fun _ => .body found
  | @reference data children rule kind found ofRule induction =>
    by_cases isBarred : rule.index ∈ barred
    · exact .inr ⟨rule, rule, .here kind found, .refl, isBarred, ofRule⟩
    · apply induction.imp (.reference kind (barring_eq_some.mpr ⟨found, isBarred⟩))
      intro ⟨mentioned, last, mentions, leads, atLast⟩
      exact ⟨rule, last, .here kind found, .head mentions leads, atLast⟩

end GrammarInspector.Nullability
