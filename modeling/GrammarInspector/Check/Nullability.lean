import GrammarInspector.Tree.Node

/-!
Which parts of a grammar can match the empty string.

The answer for a rule is remembered once it is known. A rule that is met again while its
own answer is being worked out counts as not matching the empty string, which ends
recursion through rules.
-/

namespace GrammarInspector

namespace Nullability

/-- Answers for rules, by their numbers. -/
abbrev Known := List (Nat × Bool)

def Known.find? (known : Known) (rule : Nat) : Option Bool :=
  (List.find? (fun answer => answer.1 == rule) known).map (·.2)

def firstRule? (rules : List Node) (name : String) : Option Node :=
  rules.find? fun rule => rule.tree.ruleName? = some name

/-- How many rules are not being worked out. The rules with the numbers `active` are. -/
def idle (rules : List Node) (active : List Nat) : Nat :=
  rules.countP fun rule => !active.contains rule.index

theorem idle_cons_le (rules : List Node) (active : List Nat) (index : Nat) :
    idle rules (index :: active) ≤ idle rules active :=
  List.countP_mono_left fun rule _ => by simp

/-- Beginning to work on an idle rule leaves fewer idle rules. -/
theorem idle_cons_lt {rules : List Node} {active : List Nat} {rule : Node}
    (member : rule ∈ rules) (isIdle : active.contains rule.index = false) :
    idle rules (rule.index :: active) < idle rules active := by
  induction rules with
  | nil => cases member
  | cons head tail induction =>
    have atMost := idle_cons_le tail active rule.index
    rw [idle, idle, List.countP_cons, List.countP_cons]
    rw [idle, idle] at atMost
    rcases List.mem_cons.mp member with equal | later
    · subst equal
      have isBusy : (rule.index :: active).contains rule.index = true := by simp
      simp only [isIdle, isBusy, Bool.not_false, Bool.not_true]
      grind
    · have fewer := induction later
      rw [idle, idle] at fewer
      grind

/-! ## Answers

Each function is given the rules that references lead to and what is known so far, and
replies with an answer and with what is known then. -/

structure Progress where
  known : Known
  /-- The numbers of the rules that are being worked out. -/
  active : List Nat

namespace Progress

def start : Progress := ⟨[], []⟩

def answer? (progress : Progress) (rule : Node) : Option Bool :=
  progress.known.find? rule.index

def isActive (progress : Progress) (rule : Node) : Bool :=
  progress.active.contains rule.index

def enter (progress : Progress) (rule : Node) : Progress :=
  { progress with active := rule.index :: progress.active }

/-- Ends the work on a rule and remembers its answer. -/
def leave (progress : Progress) (rule : Node) (answer : Bool) : Progress :=
  ⟨(rule.index, answer) :: progress.known, progress.active.erase rule.index⟩

end Progress

/-- An answer, with the progress made on the way to it. -/
structure Reply (before : Progress) where
  answer : Bool
  after : Progress
  /-- The work on every rule begun on the way has ended. -/
  active_eq : after.active = before.active

namespace Reply

theorem idle_eq {before : Progress} (reply : Reply before) (rules : List Node) :
    idle rules reply.after.active = idle rules before.active := by
  rw [reply.active_eq]

/-- An answer that takes no work. -/
def same (before : Progress) (answer : Bool) : Reply before := ⟨answer, before, rfl⟩

/-- A later reply, as one to what was known before an earlier reply. -/
def since {before : Progress} (earlier : Reply before) (later : Reply earlier.after) :
    Reply before :=
  ⟨later.answer, later.after, later.active_eq.trans earlier.active_eq⟩

/-- The reply for a rule by the reply for its body. -/
def leave {before : Progress} {rule : Node} (body : Reply (before.enter rule)) :
    Reply before where
  answer := body.answer
  after := body.after.leave rule body.answer
  active_eq := by simp [Progress.leave, body.active_eq, Progress.enter]

end Reply

/-- The reply for a rule, where `body` asks about the rule's block. -/
def workOut (before : Progress) (rule : Node)
    (body : before.isActive rule = false → Tree → Reply (before.enter rule)) :
    Reply before :=
  match before.answer? rule with
  | some answer => .same before answer
  | none =>
    if isActive : before.isActive rule = true then .same before false
    else
      match rule.tree.childOfKind? .block with
      | none => (Reply.same (before.enter rule) false).leave
      | some block => (body (by simpa using isActive) block).leave

mutual

/-- Whether a node can match the empty string. -/
def node (rules : List Node) (before : Progress) : Tree → Reply before
  | .node data children =>
    match data.kind with
    | .block => anyAlternative rules before children
    | .alternative => allElements rules before children
    | .lexerAlternative | .positiveClosure =>
      match children with
      | first :: _ => node rules before first
      | [] => .same before false
    | .assign | .plusAssign =>
      match children with
      | _ :: target :: _ => node rules before target
      | _ => .same before false
    | .epsilon | .optional | .closure | .action | .predicate => .same before true
    | .literal => .same before (data.text = "''")
    | .ruleRef | .tokenRef =>
      match found : firstRule? rules data.text with
      | none => .same before false
      | some rule =>
        workOut before rule fun isIdle block =>
          have : idle rules (before.enter rule).active < idle rules before.active :=
            idle_cons_lt (List.mem_of_find?_eq_some found) isIdle
          node rules (before.enter rule) block
    | _ => .same before false
termination_by tree => (idle rules before.active, sizeOf tree)

/-- Whether one of the alternatives among some nodes can match the empty string. -/
def anyAlternative (rules : List Node) (before : Progress) : List Tree → Reply before
  | [] => .same before false
  | tree :: rest =>
    if tree.kind = .alternative || tree.kind = .lexerAlternative then
      let first := node rules before tree
      if first.answer then first
      else first.since (anyAlternative rules first.after rest)
    else anyAlternative rules before rest
termination_by trees => (idle rules before.active, sizeOf trees)
decreasing_by
  · exact Prod.Lex.right _ (by simp only [List.cons.sizeOf_spec]; omega)
  · exact Prod.Lex.right' _ (Nat.le_of_eq (first.idle_eq rules))
      (by simp only [List.cons.sizeOf_spec]; omega)
  · exact Prod.Lex.right _ (by simp only [List.cons.sizeOf_spec]; omega)

def allElements (rules : List Node) (before : Progress) : List Tree → Reply before
  | [] => .same before true
  | tree :: rest =>
    if tree.kind = .elementOptions then allElements rules before rest
    else
      let first := node rules before tree
      if first.answer then first.since (allElements rules first.after rest)
      else first
termination_by trees => (idle rules before.active, sizeOf trees)
decreasing_by
  · exact Prod.Lex.right _ (by simp only [List.cons.sizeOf_spec]; omega)
  · exact Prod.Lex.right _ (by simp only [List.cons.sizeOf_spec]; omega)
  · exact Prod.Lex.right' _ (Nat.le_of_eq (first.idle_eq rules))
      (by simp only [List.cons.sizeOf_spec]; omega)

end

def rule (rules : List Node) (before : Progress) (rule : Node) : Reply before :=
  workOut before rule fun _ block => node rules (before.enter rule) block

end Nullability

end GrammarInspector
