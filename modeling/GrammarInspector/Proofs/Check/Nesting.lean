import GrammarInspector.Grammar.Basic
import GrammarInspector.Proofs.Check.Answers

/-! # Questions about empty matches come to an end

A question about a tree leads to questions about its parts, and a reference leads to a
question about another rule. `Nullability.answer?` follows them one inside the other, down
to a given depth, with any way to find rules. A rule that is being worked out is not
entered again, so the depth is bounded by the number of the other rules and by the size of
the tree, and the functions that answer questions give what is found then.
-/

namespace GrammarInspector

open List

namespace Tree

variable {tree : Tree}

theorem size_pos (tree : Tree) : 0 < tree.size := by
  cases tree with
  | node data children => rw [size_node]; exact Nat.succ_pos _

theorem size_le_sizeAll {trees : List Tree} (member : tree ∈ trees) :
    tree.size ≤ sizeAll trees := by
  induction trees with
  | nil => cases member
  | cons first rest induction =>
    rw [sizeAll_cons]
    rcases mem_cons.mp member with rfl | later
    · exact Nat.le_add_right _ _
    · exact Nat.le_add_left_of_le (induction later)

theorem size_le_of_mem {node : Node} (member : node ∈ tree.nodes) :
    node.tree.size ≤ tree.size := by
  have last : node.index + (node.tree.size - 1) ∈ node.descendants.map (·.index) := by
    rw [Node.descendants, Node.map_index_ofTree, mem_range'_1]
    have := node.tree.size_pos
    omega
  obtain ⟨inside, isInside, equal⟩ := mem_map.mp last
  have isNode := Node.mem_ofTree_of_mem_descendants tree member isInside
  have bounds : 0 ≤ inside.index ∧ inside.index < 0 + tree.size :=
    Node.index_of_mem_ofTree tree isNode
  omega

theorem size_lt_of_childOfKind? {child : Tree} {kind : NodeKind}
    (found : tree.childOfKind? kind = some child) : child.size < tree.size := by
  cases tree with
  | node data children =>
    have member : child ∈ children := mem_of_find?_eq_some found
    have := size_le_sizeAll member
    rw [size_node]
    omega

end Tree

namespace Nullability

variable {other : Question} {rule : Node}

/-! ## Nested questions -/

/-- What a question about a tree comes to: an answer, or one more question. -/
inductive Lead where
  | answer (matched : Bool)
  | asks (question : Question)

namespace Lead

def ofPart : Option Tree → Lead
  | none => .answer false
  | some part => .asks (.node part)

def ofRule : Option Node → Lead
  | none => .answer false
  | some rule => .asks (.rule rule)

/-- What a question about a tree comes to, where references are looked up. -/
def ofTree (lookup : String → Option Node) (tree : Tree) : Lead :=
  match tree.kind with
  | .block => .asks (.anyOf tree.children)
  | .alternative => .asks (.allOf tree.children)
  | .lexerAlternative | .positiveClosure => ofPart tree.children.head?
  | .assign | .plusAssign => ofPart tree.children[1]?
  | .epsilon | .optional | .closure | .action | .predicate => .answer true
  | .literal => .answer (tree.text = "''")
  | .ruleRef | .tokenRef => ofRule (lookup tree.text)
  | _ => .answer false

end Lead

/-- An answer with the progress then, or nothing if it could not be found. -/
abbrev Attempt := Option (Bool × Progress)

/-- Asks about a tree, and if the answer is `goesOn`, asks another question. -/
def askInTurn (ask : Progress → Question → Attempt) (before : Progress) (tree : Tree)
    (goesOn : Bool) (other : Question) : Attempt :=
  (ask before (.node tree)).bind fun first =>
    if first.1 = goesOn then ask first.2 other else some first

/-- The answer to a question, where `ask` answers the questions that come
up on the way. -/
def answerBy (lookup : String → Option Node) (ask : Progress → Question → Attempt)
    (before : Progress) :
    Question → Attempt
  | .node tree =>
    match Lead.ofTree lookup tree with
    | .answer matched => some (matched, before)
    | .asks question => ask before question
  | .anyOf [] => some (false, before)
  | .anyOf (tree :: rest) =>
    if tree.kind = .alternative || tree.kind = .lexerAlternative then
      askInTurn ask before tree false (.anyOf rest)
    else ask before (.anyOf rest)
  | .allOf [] => some (true, before)
  | .allOf (tree :: rest) =>
    if tree.kind = .elementOptions then ask before (.allOf rest)
    else askInTurn ask before tree true (.allOf rest)
  | .rule rule =>
    match before.answer? rule with
    | some matched => some (matched, before)
    | none =>
      if before.isActive rule then some (false, before)
      else
        match rule.tree.childOfKind? .block with
        | none => some (false, (before.enter rule).leave rule false)
        | some block =>
          (ask (before.enter rule) (.node block)).map fun body =>
            (body.1, body.2.leave rule body.1)

/-- The answer to a question, if no more than `depth` questions are open at a time. -/
def answer? (lookup : String → Option Node) : (depth : Nat) → Progress →
      Question → Attempt
  | 0 => fun _ _ => none
  | depth + 1 => answerBy lookup (answer? lookup depth)

/-! ## Depth -/

/-- How deep the questions about a tree can nest, apart from those about rules. -/
def Question.weight : Question → Nat
  | .node tree => 2 * tree.size
  | .anyOf trees | .allOf trees => 2 * Tree.sizeAll trees + 1
  | .rule _ => 1

/-- Whether a question about a rule is about one of some rules. -/
def Question.IsAmong (rules : List Node) : Question → Prop
  | .rule asked => asked ∈ rules
  | _ => True

/-- How deep questions can nest if no rule has more than `bound` nodes. -/
def cost (rules : List Node) (bound : Nat) (before : Progress) (question : Question) :
    Nat :=
  idle rules before.active * (2 * bound + 2) + question.weight

theorem weight_pos (question : Question) : 0 < question.weight := by
  cases question with
  | node tree => exact Nat.mul_pos Nat.two_pos tree.size_pos
  | anyOf => exact Nat.succ_pos _
  | allOf => exact Nat.succ_pos _
  | rule => exact Nat.one_pos

section

variable {lookup : String → Option Node} {rules : List Node} {tree : Tree}
  {question : Question}

theorem weight_children (tree : Tree) :
    2 * Tree.sizeAll tree.children + 1 < (Question.node tree).weight := by
  cases tree with
  | node data children =>
    rw [Question.weight, Tree.size_node]
    exact Nat.lt_succ_self _

theorem lighter_of_part {part? : Option Tree}
    (isPart : ∀ part ∈ part?, part ∈ tree.children)
    (asks : Lead.ofPart part? = .asks question) :
    question.weight < (Question.node tree).weight ∧ question.IsAmong rules := by
  cases part? with
  | none => cases asks
  | some part =>
    cases asks
    have := Tree.size_le_sizeAll (isPart part rfl)
    have := weight_children tree
    refine ⟨?_, trivial⟩
    rw [Question.weight]
    omega

theorem lighter_of_rule {rule? : Option Node} (isRule : ∀ rule ∈ rule?, rule ∈ rules)
    (asks : Lead.ofRule rule? = .asks question) :
    question.weight < (Question.node tree).weight ∧ question.IsAmong rules := by
  cases rule? with
  | none => cases asks
  | some rule =>
    cases asks
    exact ⟨Nat.lt_of_le_of_lt (Nat.le_add_left 1 _) (weight_children tree),
      isRule rule rfl⟩

/-- A question about a tree comes to one about less of it, or to one about a rule. -/
theorem lighter_of_asks (leads : ∀ name rule, lookup name = some rule → rule ∈ rules)
    (asks : Lead.ofTree lookup tree = .asks question) :
    question.weight < (Question.node tree).weight ∧ question.IsAmong rules := by
  unfold Lead.ofTree at asks
  split at asks
  · cases asks
    exact ⟨weight_children tree, trivial⟩
  · cases asks
    exact ⟨weight_children tree, trivial⟩
  · exact lighter_of_part (fun _ => mem_of_mem_head?) asks
  · exact lighter_of_part (fun _ => mem_of_mem_head?) asks
  · exact lighter_of_part (fun _ => mem_of_getElem?) asks
  · exact lighter_of_part (fun _ => mem_of_getElem?) asks
  · cases asks
  · cases asks
  · cases asks
  · cases asks
  · cases asks
  · cases asks
  · exact lighter_of_rule (leads tree.text) asks
  · exact lighter_of_rule (leads tree.text) asks
  · cases asks

end

theorem weight_lt_anyOf (tree : Tree) (rest : List Tree) :
    (Question.node tree).weight < (Question.anyOf (tree :: rest)).weight ∧
      (Question.anyOf rest).weight < (Question.anyOf (tree :: rest)).weight := by
  have := tree.size_pos
  simp only [Question.weight, Tree.sizeAll_cons]
  omega

theorem weight_lt_allOf (tree : Tree) (rest : List Tree) :
    (Question.node tree).weight < (Question.allOf (tree :: rest)).weight ∧
      (Question.allOf rest).weight < (Question.allOf (tree :: rest)).weight :=
  weight_lt_anyOf tree rest

/-- Whether questions are answered from each other, at least `depth` of them one
inside the other. -/
def Unfolds (lookup : String → Option Node) : (depth : Nat) →
      (Progress → Question → Attempt) → Prop
  | 0, _ => True
  | depth + 1, ask => ∃ inner, Unfolds lookup depth inner ∧ ask = answerBy lookup inner

theorem unfolds_answer? (lookup : String → Option Node) (depth : Nat) :
    Unfolds lookup depth (answer? lookup depth) := by
  induction depth with
  | zero => trivial
  | succ depth induction => exact ⟨_, induction, rfl⟩

/-- Whether a question is answered at every depth above a limit, and the work begun on the
way has ended then. -/
structure Ends (lookup : String → Option Node) (limit : Nat) (before : Progress)
    (question : Question) (answer : Bool) (after : Progress) : Prop where
  active : after.active = before.active
  found : ∀ depth ask, limit < depth → Unfolds lookup depth ask →
      ask before question = some (answer, after)

variable {lookup : String → Option Node} {rules : List Node} {limit bound : Nat}
  {before after : Progress} {question : Question} {answer : Bool}

theorem Ends.step (active : after.active = before.active)
    (found : ∀ ask, (∀ before question answer after,
      Ends lookup limit before question answer after →
      ask before question = some (answer, after)) → answerBy lookup ask before question =
        some (answer, after)) :
    Ends lookup (limit + 1) before question answer after where
  active := active
  found
    | 0, _, enough, _ => nomatch enough
    | depth + 1, _, enough, ⟨inner, unfolds, rfl⟩ => found inner fun _ _ _ _ ends =>
      ends.found depth inner (Nat.lt_of_succ_lt_succ enough) unfolds

theorem Ends.same (same : ∀ ask, answerBy lookup ask before question = ask before other)
    (inner : Ends lookup limit before other answer after) :
    Ends lookup (limit + 1) before question answer after :=
  .step inner.active fun ask answers => (same ask).trans (answers _ _ _ _ inner)

theorem exists_ends_inTurn {tree : Tree} {goesOn : Bool}
    (same : ∀ ask, answerBy lookup ask before question =
      askInTurn ask before tree goesOn other)
    (first : ∃ answer between, Ends lookup limit before (.node tree) answer between)
    (later : ∀ between : Progress, between.active = before.active →
      ∃ answer after, Ends lookup limit between other answer after) :
    ∃ answer after, Ends lookup (limit + 1) before question answer after := by
  obtain ⟨answer, between, ofFirst⟩ := first
  by_cases goes : answer = goesOn
  · obtain ⟨final, after, ofOther⟩ := later between ofFirst.active
    refine ⟨final, after,
      .step (ofOther.active.trans ofFirst.active) fun ask answers => ?_⟩
    rw [same, askInTurn, answers _ _ _ _ ofFirst, Option.bind_some, if_pos goes,
      answers _ _ _ _ ofOther]
  · refine ⟨answer, between, .step ofFirst.active fun ask answers => ?_⟩
    rw [same, askInTurn, answers _ _ _ _ ofFirst, Option.bind_some, if_neg goes]

theorem active_leave (active : after.active = (before.enter rule).active) :
    (after.leave rule answer).active = before.active := by
  simp [Progress.leave, active, Progress.enter]

theorem exists_ends_rule
    (body : ∀ block, before.isActive rule = false →
      rule.tree.childOfKind? .block = some block →
    ∃ answer after, Ends lookup limit (before.enter rule) (.node block) answer after) :
    ∃ answer after, Ends lookup (limit + 1) before (.rule rule) answer after := by
  cases known : before.answer? rule with
  | some answer => exact ⟨answer, before, .step rfl fun _ _ => by rw [answerBy, known]⟩
  | none =>
    cases isActive : before.isActive rule with
    | true =>
        exact ⟨false, before, .step rfl fun _ _ => by rw [answerBy, known, isActive]; rfl⟩
    | false =>
      cases hasBlock : rule.tree.childOfKind? .block with
      | none =>
        refine ⟨false, (before.enter rule).leave rule false,
          .step (active_leave rfl) fun _ _ => ?_⟩
        rw [answerBy, known, isActive, hasBlock]
        rfl
      | some block =>
        obtain ⟨answer, after, ofBody⟩ := body block isActive hasBlock
        refine ⟨answer, after.leave rule answer,
          .step (active_leave ofBody.active) fun ask answers => ?_⟩
        rw [answerBy, known, isActive, hasBlock]
        dsimp only
        rw [answers _ _ _ _ ofBody]
        rfl

theorem cost_le {between : Progress} (active : between.active = before.active)
    (lighter : other.weight < question.weight)
    (enough : cost rules bound before question ≤ limit + 1) :
    cost rules bound between other ≤ limit := by
  rw [cost, active]
  rw [cost] at enough
  omega

theorem cost_enter_le {block : Tree} (member : rule ∈ rules)
    (isIdle : before.isActive rule = false) (small : block.size < bound)
    (enough : cost rules bound before (.rule rule) ≤ limit + 1) :
    cost rules bound (before.enter rule) (.node block) ≤ limit := by
  have fewer : idle rules (before.enter rule).active + 1 ≤ idle rules before.active :=
    idle_cons_lt member isIdle
  have less := Nat.mul_le_mul_right (2 * bound + 2) fewer
  rw [Nat.succ_mul] at less
  simp only [cost, Question.weight] at enough ⊢
  omega

/-- A question ends within its cost. -/
theorem exists_ends (leads : ∀ name rule, lookup name = some rule → rule ∈ rules)
    (bounded : ∀ rule ∈ rules, rule.tree.size ≤ bound) (isAmong : question.IsAmong rules)
    (enough : cost rules bound before question ≤ limit) :
    ∃ answer after, Ends lookup limit before question answer after := by
  induction limit generalizing before question with
  | zero =>
    have := weight_pos question
    rw [cost] at enough
    omega
  | succ limit induction =>
    cases question with
    | node tree =>
      cases lead : Lead.ofTree lookup tree with
      | answer matched =>
          exact ⟨matched, before, .step rfl fun _ _ => by rw [answerBy, lead]⟩
      | asks other =>
        obtain ⟨lighter, isAmong⟩ := lighter_of_asks leads lead
        obtain ⟨answer, after, inner⟩ := induction isAmong (cost_le rfl lighter enough)
        exact ⟨answer, after, inner.same fun ask => by rw [answerBy, lead]⟩
    | anyOf trees =>
      cases trees with
      | nil => exact ⟨false, before, .step rfl fun _ _ => rfl⟩
      | cons tree rest =>
        have ofRest (between : Progress) (active : between.active = before.active) :
            ∃ answer after, Ends lookup limit between (.anyOf rest) answer after :=
          induction trivial (cost_le active (weight_lt_anyOf tree rest).2 enough)
        by_cases isAlternative : tree.kind = .alternative || tree.kind = .lexerAlternative
        · refine exists_ends_inTurn
            (fun ask => by rw [answerBy, if_pos isAlternative]) ?_ ofRest
          exact induction trivial (cost_le rfl (weight_lt_anyOf tree rest).1 enough)
        · obtain ⟨answer, after, inner⟩ := ofRest before rfl
          exact ⟨answer, after,
            inner.same fun ask => by rw [answerBy, if_neg isAlternative]⟩
    | allOf trees =>
      cases trees with
      | nil => exact ⟨true, before, .step rfl fun _ _ => rfl⟩
      | cons tree rest =>
        have ofRest (between : Progress) (active : between.active = before.active) :
            ∃ answer after, Ends lookup limit between (.allOf rest) answer after :=
          induction trivial (cost_le active (weight_lt_allOf tree rest).2 enough)
        by_cases isOptions : tree.kind = .elementOptions
        · obtain ⟨answer, after, inner⟩ := ofRest before rfl
          exact ⟨answer, after, inner.same fun ask => by rw [answerBy, if_pos isOptions]⟩
        · refine exists_ends_inTurn
            (fun ask => by rw [answerBy, if_neg isOptions]) ?_ ofRest
          exact induction trivial (cost_le rfl (weight_lt_allOf tree rest).1 enough)
    | rule rule =>
      refine exists_ends_rule fun block isIdle hasBlock => ?_
      have small :=
        Nat.lt_of_lt_of_le (Tree.size_lt_of_childOfKind? hasBlock) (bounded rule isAmong)
      exact induction trivial (cost_enter_le isAmong isIdle small enough)

/-! ## The functions that answer questions -/

/-- The reply of these functions to a question. -/
def Question.reply (rules : List Node) (before : Progress) : Question → Reply before
  | .node tree => Nullability.node rules before tree
  | .anyOf trees => anyAlternative rules before trees
  | .allOf trees => allElements rules before trees
  | .rule asked => Nullability.rule rules before asked

/-- An attempt that was successful. -/
def Reply.attempt (reply : Reply before) : Attempt := some (reply.answer, reply.after)

/-- Questions are answered by these functions. -/
def askRules (rules : List Node) (before : Progress) (question : Question) : Attempt :=
  (question.reply rules before).attempt

theorem askRules_node (tree : Tree) : askRules rules before (.node tree) =
    answerBy (firstRule? rules) (askRules rules) before (.node tree) := by
  cases tree with
  | node data children =>
    have atKind {kind : NodeKind} (isKind : data.kind = kind) :
        (Tree.node data children).kind = kind := isKind
    have atName {found : Option Node} (isFound : firstRule? rules data.text = found) :
        firstRule? rules (Tree.node data children).text = found := isFound
    rw [askRules, Question.reply, answerBy, Lead.ofTree]
    unfold Nullability.node
    split
    · next kind => rw [atKind kind]; rfl
    · next kind => rw [atKind kind]; rfl
    · next kind => rw [atKind kind]; cases children <;> rfl
    · next kind => rw [atKind kind]; cases children <;> rfl
    · next kind => rw [atKind kind]; rcases children with _ | ⟨_, _ | ⟨_, _⟩⟩ <;> rfl
    · next kind => rw [atKind kind]; rcases children with _ | ⟨_, _ | ⟨_, _⟩⟩ <;> rfl
    · next kind => rw [atKind kind]; rfl
    · next kind => rw [atKind kind]; rfl
    · next kind => rw [atKind kind]; rfl
    · next kind => rw [atKind kind]; rfl
    · next kind => rw [atKind kind]; rfl
    · next kind => rw [atKind kind]; rfl
    · next kind =>
      rw [atKind kind]
      split
      · next found => rw [atName found]; rfl
      · next found => rw [atName found]; rfl
    · next kind =>
      rw [atKind kind]
      split
      · next found => rw [atName found]; rfl
      · next found => rw [atName found]; rfl
    · cases kind : data.kind <;> first
        | contradiction
        | rw [atKind kind]; rfl

/-- The functions answer every question from their answers to the questions
that come up. -/
theorem askRules_eq (before : Progress) (question : Question) :
    askRules rules before question =
    answerBy (firstRule? rules) (askRules rules) before question := by
  cases question with
  | node tree => exact askRules_node tree
  | anyOf trees =>
    cases trees with
    | nil =>
      rw [askRules, Question.reply, anyAlternative]
      rfl
    | cons tree rest =>
      rw [askRules, Question.reply, anyAlternative, answerBy]
      split
      · rw [askInTurn, askRules, Question.reply, Reply.attempt, Reply.attempt,
          Option.bind_some]
        dsimp only
        cases answer : (Nullability.node rules before tree).answer with
        | true => simp [answer]
        | false => rfl
      · rfl
  | allOf trees =>
    cases trees with
    | nil =>
      rw [askRules, Question.reply, allElements]
      rfl
    | cons tree rest =>
      rw [askRules, Question.reply, allElements, answerBy]
      split
      · rfl
      · rw [askInTurn, askRules, Question.reply, Reply.attempt, Reply.attempt,
          Option.bind_some]
        dsimp only
        cases answer : (Nullability.node rules before tree).answer with
        | true => rfl
        | false => simp [answer]
  | rule asked =>
    rw [askRules, Question.reply, Nullability.rule, workOut, answerBy]
    cases before.answer? asked with
    | some answer => rfl
    | none =>
      dsimp only
      by_cases isActive : before.isActive asked = true
      · rw [dif_pos isActive, if_pos isActive]
        rfl
      · rw [dif_neg isActive, if_neg isActive]
        cases asked.tree.childOfKind? .block with
        | none => rfl
        | some block => rfl

theorem unfolds_askRules (rules : List Node) (depth : Nat) :
    Unfolds (firstRule? rules) depth (askRules rules) := by
  induction depth with
  | zero => trivial
  | succ depth induction =>
      exact ⟨_, induction, funext fun before => funext fun question =>
      askRules_eq before question⟩

/-! ## Questions about a tree -/

/-- How deep the questions about a tree can nest. -/
def depthLimit (tree : Tree) (before : Progress) : Nat :=
  (idle tree.rules before.active + 1) * (2 * tree.size + 2)

namespace Query

def toQuestion : Query → Question
  | .rule asked => .rule asked
  | .node asked => .node asked.tree

theorem cost_le_depthLimit {tree : Tree} {query : Query} (about : query.IsAbout tree)
    (before : Progress) :
    cost tree.rules tree.size before query.toQuestion ≤ depthLimit tree before := by
  have light : query.toQuestion.weight ≤ 2 * tree.size + 2 := by
    cases query with
    | rule asked => exact Nat.le_add_left_of_le (Nat.le_succ 1)
    | node asked =>
      have := Tree.size_le_of_mem about
      rw [toQuestion, Question.weight]
      omega
  rw [cost, depthLimit, Nat.succ_mul (idle tree.rules before.active)]
  exact Nat.add_le_add_left light _

/-- Every question about a rule or a node of a tree comes to an end, whatever rules the
names are looked up as, whatever is known and whatever rules are being worked out. No more
questions are open at a time than the rules that can still be entered and the size of the
tree allow, and the work on every rule entered on the way has ended. -/
theorem ask_ends (tree : Tree) (lookup : String → Option Node)
    (leads : ∀ name rule, lookup name = some rule → rule ∈ tree.rules) (before : Progress)
    (query : Query) (about : query.IsAbout tree) :
    ∃ answer after, after.active = before.active ∧
      (∀ depth, depthLimit tree before < depth →
        answer? lookup depth before query.toQuestion = some (answer, after)) ∧
      (lookup = firstRule? tree.rules →
        (query.ask tree.rules before).answer = answer ∧
        (query.ask tree.rules before).after = after) := by
  have bounded : ∀ rule ∈ tree.rules, rule.tree.size ≤ tree.size := fun rule member =>
    Tree.size_le_of_mem (mem_filter.mp member).1
  have isAmong : query.toQuestion.IsAmong tree.rules := by
    cases query with
    | rule asked => exact about
    | node asked => trivial
  obtain ⟨answer, after, ends⟩ :=
    exists_ends leads bounded isAmong (cost_le_depthLimit about before)
  refine ⟨answer, after, ends.active, fun depth enough =>
    ends.found depth _ enough (unfolds_answer? ..), ?_⟩
  rintro rfl
  have answered := ends.found _ _ (Nat.lt_succ_self _) (unfolds_askRules ..)
  have same : askRules tree.rules before query.toQuestion =
      (query.ask tree.rules before).attempt := by
    cases query <;> rfl
  exact Prod.mk.inj (Option.some.inj (same.symm.trans answered))

/-- A grammar with rules that refer to themselves and to each other, one of them
declared twice. -/
def entangledTree : Tree :=
  (Grammar.ofSource "grammar G; a : b | a 'x' ; b : a ; b : ;").tree

def entangledRule (number : Nat) : Node :=
  entangledTree.rules[number]?.getD entangledTree.root

/-- Looks up the names of the first two rules the wrong way round. -/
def lookupCrossed : String → Option Node
  | "a" => some (entangledRule 1)
  | "b" => some (entangledRule 0)
  | _ => none

/-- A question about the first rule, asked while the third one is being worked out,
comes to an end. -/
theorem ask_ends_entangled :
    (∀ name rule, lookupCrossed name = some rule → rule ∈ entangledTree.rules) ∧
    entangledRule 0 ∈ entangledTree.rules ∧
    ∃ after, after.active = [(entangledRule 2).index] ∧
      ∀ depth, depthLimit entangledTree (Progress.start.enter (entangledRule 2)) < depth →
        answer? lookupCrossed depth (Progress.start.enter (entangledRule 2))
          (.rule (entangledRule 0)) = some (false, after) := by
  have isRule (number : Nat) (inside : number < 3) :
      entangledRule number ∈ entangledTree.rules := by
    have length : entangledTree.rules.length = 3 := by decide +kernel
    rw [entangledRule, getElem?_eq_getElem (length ▸ inside)]
    exact getElem_mem _
  have leads : ∀ name rule, lookupCrossed name = some rule →
      rule ∈ entangledTree.rules := by
    intro name rule found
    unfold lookupCrossed at found
    split at found
    · cases found
      exact isRule 1 (by decide)
    · cases found
      exact isRule 0 (by decide)
    · cases found
  obtain ⟨answer, after, active, found, _⟩ := ask_ends entangledTree lookupCrossed leads
    (Progress.start.enter (entangledRule 2)) (.rule (entangledRule 0))
      (isRule 0 (by decide))
  have enough : depthLimit entangledTree (Progress.start.enter (entangledRule 2)) <
      200 := by decide +kernel
  have answered : (answer? lookupCrossed 200 (Progress.start.enter (entangledRule 2))
      (.rule (entangledRule 0))).map (·.1) = some false := by decide +kernel
  simp only [toQuestion] at found
  rw [found 200 enough] at answered
  cases answered
  exact ⟨leads, isRule 0 (by decide), after, active, found⟩

end Query

end Nullability

end GrammarInspector
