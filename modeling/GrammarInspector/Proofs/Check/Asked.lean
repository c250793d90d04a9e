import GrammarInspector.Proofs.Check.EmptyMatch

/-! # The course of a question about empty matches

`Asked` says what the answer to a question rests on and how the progress changes on the
way to it. The functions that answer questions follow it, so what holds along `Asked`
holds of them.
-/

namespace GrammarInspector

/-- Whether no node of a tree is a rule. -/
inductive Tree.RuleFree : Tree → Prop
  | node {data children} (kind : data.kind ≠ .rule) (ofChildren : ∀ child ∈ children,
      child.RuleFree) :
    RuleFree (.node data children)

theorem Tree.RuleFree.child {data : NodeData} {children : List Tree} {child : Tree}
    (free : (Tree.node data children).RuleFree) (member : child ∈ children) :
    child.RuleFree := by
  cases free with
  | node kind ofChildren => exact ofChildren child member

namespace Nullability

variable {tree : Tree} {rest children : List Tree} {data : NodeData}

/-- A question about empty matches. -/
inductive Question where
  | node (tree : Tree)
  /-- Whether one of the alternatives among some trees matches. -/
  | anyOf (trees : List Tree)
  /-- Whether all elements among some trees match. -/
  | allOf (trees : List Tree)
  | rule (rule : Node)

namespace Question

/-- What a question asks, while references to the barred rules do not count. -/
def Holds (rules : List Node) (barred : List Nat) : Question → Prop
  | .node tree => MatchesEmpty (barring (firstRule? rules) barred) tree
  | .anyOf trees => ∃ tree ∈ trees, tree.kind ∈ [.alternative, .lexerAlternative] ∧
      MatchesEmpty (barring (firstRule? rules) barred) tree
  | .allOf trees => ∀ tree ∈ trees, tree.kind ≠ .elementOptions →
      MatchesEmpty (barring (firstRule? rules) barred) tree
  | .rule asked => asked.index ∉ barred ∧
      MatchesEmpty (barring (firstRule? rules) barred) asked.tree

/-- Whether no rule stands inside what a question is about. -/
def RuleFree : Question → Prop
  | .node tree => tree.RuleFree
  | .anyOf trees => ∀ tree ∈ trees, tree.RuleFree
  | .allOf trees => ∀ tree ∈ trees, tree.RuleFree
  | .rule _ => True

/-- Whether a question is about a rule, or about a tree that mentions it. -/
def About (rules : List Node) (rule : Node) : Question → Prop
  | .node tree => Mentions (firstRule? rules) rule tree
  | .anyOf trees => ∃ tree ∈ trees, Mentions (firstRule? rules) rule tree
  | .allOf trees => ∃ tree ∈ trees, Mentions (firstRule? rules) rule tree
  | .rule asked => rule = asked

end Question

/-- The answer to a question asked at some progress, and the progress then. -/
inductive Asked (rules : List Node) : Progress → Question → Bool → Progress → Prop
  /-- The answer does not depend on the rules. -/
  | atSight {before question answer}
    (sound : answer = true → ∀ barred, question.Holds rules barred)
    (complete : question.RuleFree → ∀ barred, question.Holds rules barred →
      answer = true) :
    Asked rules before question answer before
  /-- Another question asks the same. -/
  | through {before question other answer after}
    (same : ∀ barred, question.Holds rules barred ↔ other.Holds rules barred)
    (free : question.RuleFree → other.RuleFree)
    (about : ∀ rule, other.About rules rule → question.About rules rule)
    (asked : Asked rules before other answer after) :
      Asked rules before question answer after
  | anyHere {before after tree rest}
      (kind : tree.kind ∈ [.alternative, .lexerAlternative])
    (first : Asked rules before (.node tree) true after) :
    Asked rules before (.anyOf (tree :: rest)) true after
  | anyLater {before between after tree rest answer}
    (first : Asked rules before (.node tree) false between)
    (later : Asked rules between (.anyOf rest) answer after) :
    Asked rules before (.anyOf (tree :: rest)) answer after
  | allBut {before after tree rest} (kind : tree.kind ≠ .elementOptions)
    (first : Asked rules before (.node tree) false after) :
    Asked rules before (.allOf (tree :: rest)) false after
  | allLater {before between after tree rest answer}
    (first : Asked rules before (.node tree) true between)
    (later : Asked rules between (.allOf rest) answer after) :
    Asked rules before (.allOf (tree :: rest)) answer after
  | known {before rule answer} (member : rule ∈ rules)
      (found : before.answer? rule = some answer) :
    Asked rules before (.rule rule) answer before
  | active {before rule} (isActive : before.isActive rule = true) :
      Asked rules before (.rule rule) false before
  | worked {before after rule block answer} (member : rule ∈ rules)
    (unknown : before.answer? rule = none) (isIdle : before.isActive rule = false)
    (hasBlock : rule.tree.childOfKind? .block = some block)
    (asked : Asked rules (before.enter rule) (.node block) answer after) :
    Asked rules before (.rule rule) answer (after.leave rule answer)
  | noBlock {before rule} (member : rule ∈ rules)
    (unknown : before.answer? rule = none) (isIdle : before.isActive rule = false)
    (hasBlock : rule.tree.childOfKind? .block = none) :
    Asked rules before (.rule rule) false ((before.enter rule).leave rule false)

namespace Asked

variable {rules : List Node} {before after : Progress} {answer : Bool}
  {question : Question}

theorem always (holds : ∀ barred, question.Holds rules barred) :
    Asked rules before question true before :=
  .atSight (fun _ => holds) fun _ _ _ => rfl

theorem never (fails : question.RuleFree → ∀ barred, ¬question.Holds rules barred) :
    Asked rules before question false before :=
  .atSight (fun isTrue => nomatch isTrue) fun free barred holds =>
    absurd holds (fails free barred)

theorem block (kind : data.kind = .block)
    (asked : Asked rules before (.anyOf children) answer after) :
    Asked rules before (.node (.node data children)) answer after := by
  apply through _ _ _ asked
  · intro barred
    exact matchesEmpty_block kind
  · intro free tree member
    exact free.child member
  · intro rule ⟨tree, member, mentions⟩
    exact .child (by simp [kind]) member mentions

theorem alternative (kind : data.kind = .alternative)
    (asked : Asked rules before (.allOf children) answer after) :
    Asked rules before (.node (.node data children)) answer after := by
  apply through _ _ _ asked
  · intro barred
    exact matchesEmpty_alternative kind
  · intro free tree member
    exact free.child member
  · intro rule ⟨tree, member, mentions⟩
    exact .child (by simp [kind]) member mentions

theorem first (kind : data.kind ∈ [.lexerAlternative, .positiveClosure])
    (asked : Asked rules before (.node tree) answer after) :
    Asked rules before (.node (.node data (tree :: children))) answer after := by
  apply through _ _ _ asked
  · intro barred
    simp [Question.Holds, matchesEmpty_first kind]
  · intro free
    exact free.child (by simp)
  · intro rule mentions
    exact .child (by grind) (by simp) mentions

theorem labelled {label target : Tree} (kind : data.kind ∈ [.assign, .plusAssign])
    (asked : Asked rules before (.node target) answer after) :
    Asked rules before (.node (.node data (label :: target :: children)))
      answer after := by
  apply through _ _ _ asked
  · intro barred
    simp [Question.Holds, matchesEmpty_labelled kind, and_assoc]
  · intro free
    exact free.child (by simp)
  · intro rule mentions
    exact .child (by grind) (by simp) mentions

theorem reference {rule : Node} (kind : data.kind ∈ [.ruleRef, .tokenRef])
    (found : firstRule? rules data.text = some rule)
    (asked : Asked rules before (.rule rule) answer after) :
    Asked rules before (.node (.node data children)) answer after := by
  apply through _ _ _ asked
  · intro barred
    simp [Question.Holds, matchesEmpty_reference kind, barring_eq_some, found, and_assoc]
  · intro free
    trivial
  · intro other equal
    subst equal
    exact .here kind found

theorem anyOther (kind : tree.kind ∉ [.alternative, .lexerAlternative])
    (asked : Asked rules before (.anyOf children) answer after) :
    Asked rules before (.anyOf (tree :: children)) answer after := by
  apply through _ _ _ asked
  · intro barred
    simp [Question.Holds] at kind ⊢
    grind
  · intro free part member
    exact free part (.tail _ member)
  · intro rule ⟨part, member, mentions⟩
    exact ⟨part, .tail _ member, mentions⟩

theorem allOptions (kind : tree.kind = .elementOptions)
    (asked : Asked rules before (.allOf children) answer after) :
    Asked rules before (.allOf (tree :: children)) answer after := by
  apply through _ _ _ asked
  · intro barred
    simp [Question.Holds, kind]
  · intro free part member
    exact free part (.tail _ member)
  · intro rule ⟨part, member, mentions⟩
    exact ⟨part, .tail _ member, mentions⟩

end Asked

/-- Whether a reply comes about as `Asked` says. -/
def Reply.Answers (rules : List Node) {before : Progress} (reply : Reply before)
    (question : Question) : Prop :=
  Asked rules before question reply.answer reply.after

variable {rules : List Node} {before : Progress}

theorem anyOf_answers {first : Reply before} {later : Reply first.after}
    (kind : tree.kind ∈ [.alternative, .lexerAlternative])
    (ofFirst : first.Answers rules (.node tree))
    (ofLater : later.Answers rules (.anyOf rest)) :
    (if first.answer then first else first.since later).Answers rules
      (.anyOf (tree :: rest)) := by
  unfold Reply.Answers at ofFirst
  cases answer : first.answer with
  | true =>
    rw [answer] at ofFirst
    simpa [Reply.Answers, answer] using Asked.anyHere kind ofFirst
  | false =>
    rw [answer] at ofFirst
    exact .anyLater ofFirst ofLater

theorem allOf_answers {first : Reply before} {later : Reply first.after}
    (kind : tree.kind ≠ .elementOptions) (ofFirst : first.Answers rules (.node tree))
    (ofLater : later.Answers rules (.allOf rest)) :
    (if first.answer then first.since later else first).Answers rules
      (.allOf (tree :: rest)) := by
  unfold Reply.Answers at ofFirst
  cases answer : first.answer with
  | true =>
    rw [answer] at ofFirst
    exact .allLater ofFirst ofLater
  | false =>
    rw [answer] at ofFirst
    simpa [Reply.Answers, answer] using Asked.allBut kind ofFirst

theorem workOut_answers {rule : Node} (member : rule ∈ rules)
    {body : before.isActive rule = false → Tree → Reply (before.enter rule)}
    (ofBody : ∀ isIdle block, (body isIdle block).Answers rules (.node block)) :
    (workOut before rule body).Answers rules (.rule rule) := by
  unfold workOut
  split
  · next answer found => exact .known member found
  · next unknown =>
    split
    · next isActive => exact .active isActive
    · next isIdle =>
      have isIdle : before.isActive rule = false := by simpa using isIdle
      split
      · next hasBlock => exact .noBlock member unknown isIdle hasBlock
      · next block hasBlock =>
        exact .worked member unknown isIdle hasBlock (ofBody isIdle block)

theorem first_answers {reply : Tree → Reply before}
    (kind : data.kind ∈ [.lexerAlternative, .positiveClosure])
    (ofFirst : ∀ first ∈ children, (reply first).Answers rules (.node first)) :
    Reply.Answers rules
      (match children with
      | first :: _ => reply first
      | [] => .same before false)
      (.node (.node data children)) := by
  cases children with
  | nil =>
    apply Asked.never
    intro free barred holds
    simp [Question.Holds, matchesEmpty_first kind] at holds
  | cons first rest => exact .first kind (ofFirst first (by simp))

theorem target_answers {reply : Tree → Reply before}
    (kind : data.kind ∈ [.assign, .plusAssign])
    (ofTarget : ∀ target ∈ children, (reply target).Answers rules (.node target)) :
    Reply.Answers rules
      (match children with
      | _ :: target :: _ => reply target
      | _ => .same before false)
      (.node (.node data children)) := by
  split
  · next target rest => exact .labelled kind (ofTarget target (by simp))
  · next short =>
    apply Asked.never
    intro free barred holds
    simp only [Question.Holds, matchesEmpty_labelled kind] at holds
    grind

theorem reference_answers
    {reply : ∀ rule, firstRule? rules data.text = some rule → Reply before}
      (kind : data.kind ∈ [.ruleRef, .tokenRef])
    (ofRule : ∀ rule found, (reply rule found).Answers rules (.rule rule)) :
    Reply.Answers rules
      (match found : firstRule? rules data.text with
      | none => .same before false
      | some rule => reply rule found)
      (.node (.node data children)) := by
  split
  · next unknown =>
    apply Asked.never
    intro free barred holds
    simp [Question.Holds, matchesEmpty_reference kind, barring_eq_some, unknown] at holds
  · next rule found => exact .reference kind found (ofRule rule found)

mutual

theorem node_answers (rules : List Node) (before : Progress) :
    (tree : Tree) → (node rules before tree).Answers rules (.node tree)
  | .node data children => by
    have ofReference (kind : data.kind ∈ [.ruleRef, .tokenRef]) : Reply.Answers rules
        (match found : firstRule? rules data.text with
        | none => .same before false
        | some rule => workOut before rule fun isIdle block =>
            node rules (before.enter rule) block)
        (.node (.node data children)) := by
      apply reference_answers kind
      intro rule found
      apply workOut_answers (List.mem_of_find?_eq_some found)
      intro isIdle block
      have fewer : idle rules (before.enter rule).active < idle rules before.active :=
        idle_cons_lt (List.mem_of_find?_eq_some found) isIdle
      exact node_answers rules (before.enter rule) block
    unfold node
    split
    · next kind => exact .block kind (anyAlternative_answers rules before children)
    · next kind => exact .alternative kind (allElements_answers rules before children)
    · next kind => exact first_answers (by simp [kind]) fun first _ =>
        node_answers rules before first
    · next kind => exact first_answers (by simp [kind]) fun first _ =>
        node_answers rules before first
    · next kind => exact target_answers (by simp [kind]) fun target _ =>
        node_answers rules before target
    · next kind => exact target_answers (by simp [kind]) fun target _ =>
        node_answers rules before target
    · next kind => exact .always fun _ => .plain (by simp [kind])
    · next kind => exact .always fun _ => .plain (by simp [kind])
    · next kind => exact .always fun _ => .plain (by simp [kind])
    · next kind => exact .always fun _ => .plain (by simp [kind])
    · next kind => exact .always fun _ => .plain (by simp [kind])
    · next kind =>
      apply Asked.atSight
      · simp_all [Reply.same, Question.Holds, matchesEmpty_literal]
      · simp_all [Reply.same, Question.Holds, matchesEmpty_literal]
    · next kind => exact ofReference (by simp [kind])
    · next kind => exact ofReference (by simp [kind])
    · apply Asked.never
      intro free barred holds
      cases free with
      | node kind ofChildren => cases holds <;> simp_all
termination_by tree => (idle rules before.active, sizeOf tree)

theorem anyAlternative_answers (rules : List Node) (before : Progress) :
    (trees : List Tree) → (anyAlternative rules before trees).Answers rules (.anyOf trees)
  | [] => by
    rw [anyAlternative]
    exact .never fun _ barred holds => by simp [Question.Holds] at holds
  | tree :: rest => by
    rw [anyAlternative]
    split
    · next kind =>
      exact anyOf_answers (by simpa using kind) (node_answers rules before tree)
        (anyAlternative_answers rules _ rest)
    · next kind =>
      exact .anyOther (by simpa using kind) (anyAlternative_answers rules before rest)
termination_by trees => (idle rules before.active, sizeOf trees)
decreasing_by
  · exact Prod.Lex.right _ (by simp only [List.cons.sizeOf_spec]; omega)
  · exact Prod.Lex.right _ (by simp only [List.cons.sizeOf_spec]; omega)
  · exact Prod.Lex.right' _ (Nat.le_of_eq (Reply.idle_eq _ rules))
      (by simp only [List.cons.sizeOf_spec]; omega)

theorem allElements_answers (rules : List Node) (before : Progress) :
    (trees : List Tree) → (allElements rules before trees).Answers rules (.allOf trees)
  | [] => by
    rw [allElements]
    exact .always fun barred => by simp [Question.Holds]
  | tree :: rest => by
    rw [allElements]
    split
    · next kind => exact .allOptions kind (allElements_answers rules before rest)
    · next kind =>
      exact allOf_answers kind (node_answers rules before tree)
          (allElements_answers rules _ rest)
termination_by trees => (idle rules before.active, sizeOf trees)
decreasing_by
  · exact Prod.Lex.right _ (by simp only [List.cons.sizeOf_spec]; omega)
  · exact Prod.Lex.right' _ (Nat.le_of_eq (Reply.idle_eq _ rules))
      (by simp only [List.cons.sizeOf_spec]; omega)
  · exact Prod.Lex.right _ (by simp only [List.cons.sizeOf_spec]; omega)

end

end Nullability

end GrammarInspector
