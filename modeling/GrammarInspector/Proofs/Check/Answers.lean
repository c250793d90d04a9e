import GrammarInspector.Proofs.Check.Asked
import GrammarInspector.Proofs.Tree.Shape

/-! # Answers about empty matches

What is known only grows, and an answer that is known stays. Every answer `true` is right.
An answer `false` is given while references to the rules being worked out do not count. It
can be wrong only of tangled rules, those that lead to another rule that matches the empty
string and back, and of what matches the empty string by way of them.
-/

namespace GrammarInspector

namespace Nullability

/-- Whether nodes are rules, each with a number of its own. -/
structure Declared (rules : List Node) : Prop where
  isRule : ∀ rule ∈ rules, rule.kind = .rule
  eq_of_index : ∀ rule ∈ rules, ∀ other ∈ rules, rule.index = other.index → rule = other

theorem Declared.eq_of_firstRule? {rules : List Node} {rule : Node}
    (declared : Declared rules) (member : rule ∈ rules) (name : String) (other : Node)
    (found : firstRule? rules name = some other) :
    other.index = rule.index → other = rule :=
  declared.eq_of_index other (List.mem_of_find?_eq_some found) rule member

/-! ## Known answers -/

namespace Progress

theorem answer?_leave (progress : Progress) (rule other : Node) (answer : Bool) :
    (progress.leave rule answer).answer? other =
      if rule.index = other.index then some answer else progress.answer? other := by
  by_cases same : rule.index = other.index <;> simp [leave, answer?, Known.find?, same]

/-- Whether one progress comes after another, the work in between having ended. -/
structure Extends (before after : Progress) : Prop where
  active : after.active = before.active
  answer? : ∀ rule answer, before.answer? rule = some answer →
      after.answer? rule = some answer
  /-- No answer comes for the rules being worked out. -/
  unknown : ∀ rule, before.isActive rule = true → after.answer? rule = before.answer? rule

namespace Extends

variable {before between after : Progress} {rule : Node} {answer : Bool}

theorem refl : Extends before before := ⟨rfl, fun _ _ => id, fun _ _ => rfl⟩

theorem isActive (extension : Extends before after) (rule : Node) :
    after.isActive rule = before.isActive rule := by
  simp [Progress.isActive, extension.active]

theorem trans (first : Extends before between) (second : Extends between after) :
    Extends before after where
  active := second.active.trans first.active
  answer? rule answer found :=
    second.answer? rule answer (first.answer? rule answer found)
  unknown rule isActive :=
    (second.unknown rule ((first.isActive rule).trans isActive)).trans
      (first.unknown rule isActive)

theorem leave (unknown : before.answer? rule = none)
    (isIdle : before.isActive rule = false)
    (extension : Extends (before.enter rule) after) :
      Extends before (after.leave rule answer) where
  active := by simp [Progress.leave, extension.active, enter]
  answer? other known found := by
    have different : rule.index ≠ other.index := by
      intro same
      simp [Progress.answer?, ← same] at unknown found
      simp [unknown] at found
    rw [answer?_leave, if_neg different]
    exact extension.answer? other known found
  unknown other isActive := by
    have different : rule.index ≠ other.index := by
      intro same
      simp [Progress.isActive, ← same] at isIdle isActive
      exact isIdle isActive
    rw [answer?_leave, if_neg different]
    apply extension.unknown other
    simp_all [Progress.isActive, enter]

end Extends

end Progress

variable {rules : List Node} {before after : Progress} {question : Question}
  {answer : Bool} {cut : List Nat}

theorem Asked.extension (asked : Asked rules before question answer after) :
    before.Extends after := by
  induction asked with
  | atSight => exact .refl
  | through _ _ _ _ induction => exact induction
  | anyHere _ _ induction => exact induction
  | anyLater _ _ first later => exact first.trans later
  | allBut _ _ induction => exact induction
  | allLater _ _ first later => exact first.trans later
  | known => exact .refl
  | active => exact .refl
  | worked _ unknown isIdle _ _ induction => exact .leave unknown isIdle induction
  | noBlock _ unknown isIdle _ => exact .leave unknown isIdle .refl

/-! ## Positive answers -/

/-- Whether a known answer tells a fact about its rule. -/
def Progress.Tells (rules : List Node) (progress : Progress) (given : Bool)
    (fact : Node → Prop) : Prop :=
  ∀ rule ∈ rules, progress.answer? rule = some given → fact rule

theorem Progress.Tells.leave {progress : Progress} {given : Bool} {fact : Node → Prop}
    {rule : Node} (declared : Declared rules) (tells : progress.Tells rules given fact)
    (member : rule ∈ rules) (ofAnswer : answer = given → fact rule) :
    (progress.leave rule answer).Tells rules given fact := by
  intro other otherMember found
  rw [answer?_leave] at found
  split at found
  · next same =>
    have equal := declared.eq_of_index rule member other otherMember same
    subst equal
    exact ofAnswer (by simpa using found)
  · exact tells other otherMember found

/-- Whether the rules known to match the empty string do. -/
def Progress.Sound (rules : List Node) (progress : Progress) : Prop :=
  progress.Tells rules true fun rule => MatchesEmpty (firstRule? rules) rule.tree

theorem Asked.sound (declared : Declared rules)
    (asked : Asked rules before question answer after) (start : before.Sound rules) :
    after.Sound rules ∧ (answer = true → question.Holds rules []) := by
  induction asked with
  | atSight holds complete => exact ⟨start, fun isTrue => holds isTrue []⟩
  | through same free about asked induction =>
    have inner := induction start
    exact ⟨inner.1, fun isTrue => (same []).mpr (inner.2 isTrue)⟩
  | anyHere kind first induction =>
    have inner := induction start
    exact ⟨inner.1, fun _ => ⟨_, .head _, kind, inner.2 rfl⟩⟩
  | anyLater first later ofFirst ofLater =>
    have inner := ofLater (ofFirst start).1
    constructor
    · exact inner.1
    · intro isTrue
      obtain ⟨tree, member, found⟩ := inner.2 isTrue
      exact ⟨tree, .tail _ member, found⟩
  | allBut kind first induction =>
      exact ⟨(induction start).1, fun isTrue => nomatch isTrue⟩
  | allLater first later ofFirst ofLater =>
    have outer := ofFirst start
    have inner := ofLater outer.1
    constructor
    · exact inner.1
    · intro isTrue tree member isElement
      cases member with
      | head => exact outer.2 rfl
      | tail _ member => exact inner.2 isTrue tree member isElement
  | @known before rule answer member found =>
    constructor
    · exact start
    · intro isTrue
      subst isTrue
      simpa [Question.Holds] using start rule member found
  | active isActive => exact ⟨start, fun isTrue => nomatch isTrue⟩
  | @worked before after rule block answer member unknown isIdle hasBlock
      asked induction =>
    have inner := induction start
    have ofRule : answer = true → MatchesEmpty (firstRule? rules) rule.tree := by
      intro isTrue
      apply (matchesEmpty_rule (declared.isRule rule member)).mpr
      exact ⟨block, hasBlock, by simpa [Question.Holds] using inner.2 isTrue⟩
    constructor
    · exact inner.1.leave declared member ofRule
    · intro isTrue
      simpa [Question.Holds] using ofRule isTrue
  | noBlock member unknown isIdle hasBlock =>
    constructor
    · apply Progress.Tells.leave declared start member
      simp
    · simp

/-! ## Negative answers -/

/-- Whether a rule that matches the empty string leads to another such rule and back. -/
structure Tangled (rules : List Node) (rule : Node) : Prop where
  matched : MatchesEmpty (firstRule? rules) rule.tree
  around : ∃ other ∈ rules, other ≠ rule ∧ Leads (firstRule? rules) rule other ∧
    Leads (firstRule? rules) other rule ∧ MatchesEmpty (firstRule? rules) other.tree

/-- Whether a list of numbers has those of all tangled rules. -/
def Cuts (rules : List Node) (cut : List Nat) : Prop :=
  ∀ rule ∈ rules, Tangled rules rule → rule.index ∈ cut

theorem cuts_all (rules : List Node) : Cuts rules (rules.map (·.index)) :=
  fun _ member _ => List.mem_map_of_mem member

/-- Whether the rules known not to match the empty string do not, unless by references to
the rules cut. -/
def Progress.Complete (rules : List Node) (cut : List Nat) (progress : Progress) : Prop :=
  progress.Tells rules false fun rule =>
    ¬MatchesEmpty (barring (firstRule? rules) cut) rule.tree

/-- Whether the rules being worked out lead to all rules that a question is about. -/
def Question.Reached (rules : List Node) (progress : Progress) (question : Question) :
    Prop :=
  ∀ rule ∈ rules, progress.isActive rule = true →
    ∀ other, question.About rules other → Leads (firstRule? rules) rule other

namespace Question.Reached

variable {other : Question}

theorem mono (reached : question.Reached rules before)
    (about : ∀ rule, other.About rules rule → question.About rules rule) :
    other.Reached rules before :=
  fun rule member isActive last ofLast =>
    reached rule member isActive last (about last ofLast)

theorem later (reached : question.Reached rules before)
    (extension : before.Extends after) :
    question.Reached rules after := by
  intro rule member isActive
  exact reached rule member ((extension.isActive rule).symm.trans isActive)

/-- On the way into a rule, the rule leads to all that its body mentions. -/
theorem enter {rule : Node} {block : Tree} (declared : Declared rules)
    (member : rule ∈ rules) (hasBlock : rule.tree.childOfKind? .block = some block)
    (reached : (Question.rule rule).Reached rules before) :
    (Question.node block).Reached rules (before.enter rule) := by
  intro active activeMember isActive other mentions
  have refers : Refers (firstRule? rules) rule other := .body hasBlock mentions
  simp only [Progress.isActive, Progress.enter, List.contains_cons, Bool.or_eq_true,
    beq_iff_eq] at isActive
  rcases isActive with same | isActive
  · have equal := declared.eq_of_index active activeMember rule member same
    subst equal
    exact .single refers
  · exact .tail (reached active activeMember isActive rule rfl) refers

end Question.Reached

section Names

variable {ruleOf : String → Option Node} {rule last : Node} {tree : Tree}

theorem Mentions.exists_name (mentions : Mentions ruleOf rule tree) :
    ∃ name, ruleOf name = some rule := by
  induction mentions with
  | here kind found => exact ⟨_, found⟩
  | child _ _ _ induction => exact induction
  | body _ _ induction => exact induction

theorem exists_name_of_reflTransGen (mentions : Mentions ruleOf rule tree)
    (leads : Relation.ReflTransGen (Refers ruleOf) rule last) :
    ∃ name, ruleOf name = some last := by
  cases leads with
  | refl => exact mentions.exists_name
  | tail _ refers => exact Mentions.exists_name refers

end Names

/-- A rule whose body needs an active rule is tangled with it, for the active rule leads
to the rule. So the body needs a rule that is cut. -/
theorem not_matchesEmpty_of_body {rule : Node} {block : Tree} (declared : Declared rules)
    (cuts : Cuts rules cut) (member : rule ∈ rules)
    (isIdle : before.isActive rule = false)
    (hasBlock : rule.tree.childOfKind? .block = some block)
    (reached : (Question.rule rule).Reached rules before)
    (fails : ¬(Question.node block).Holds rules ((before.enter rule).active ++ cut)) :
    ¬MatchesEmpty (barring (firstRule? rules) cut) rule.tree := by
  intro ofRule
  have fewer : ∀ name other, barring (firstRule? rules) cut name = some other →
      firstRule? rules name = some other := fun _ _ found => (barring_eq_some.mp found).1
  rcases ofRule.barring_or_leadsToBarred before.active with without | needs
  · apply fails
    rw [barring_barring] at without
    exact without.body_of_rule (declared.eq_of_firstRule? member)
      (declared.isRule rule member) hasBlock
  · obtain ⟨mentioned, last, mentions, leads, isActive, ofLast⟩ := needs
    obtain ⟨name, named⟩ := exists_name_of_reflTransGen mentions leads
    obtain ⟨found, notCut⟩ := barring_eq_some.mp named
    have lastMember : last ∈ rules := List.mem_of_find?_eq_some found
    have refers : Refers (firstRule? rules) rule mentioned := mentions.mono fewer
    have leadsOn : Relation.ReflTransGen (Refers (firstRule? rules)) mentioned last :=
      leads.lift id fun _ _ inner => Mentions.mono inner fewer
    have different : rule ≠ last := by
      rintro rfl
      simp [Progress.isActive, isActive] at isIdle
    have back :=
      reached last lastMember (by simpa [Progress.isActive] using isActive) rule rfl
    apply notCut
    apply cuts last lastMember
    exact ⟨ofLast.of_barring, rule, member, different, back, .head' refers leadsOn,
      ofRule.of_barring⟩

theorem Asked.complete (declared : Declared rules) (cuts : Cuts rules cut)
    (bodies : ∀ rule ∈ rules, ∀ block, rule.tree.childOfKind? .block = some block →
      block.RuleFree)
    (asked : Asked rules before question answer after) (start : before.Complete rules cut)
    (free : question.RuleFree) (reached : question.Reached rules before) :
    after.Complete rules cut ∧ (question.Holds rules (before.active ++ cut) →
      answer = true) := by
  induction asked with
  | atSight _ complete => exact ⟨start, complete free _⟩
  | through same freeOther about asked induction =>
    have inner := induction start (freeOther free) (reached.mono about)
    exact ⟨inner.1, fun holds => inner.2 ((same _).mp holds)⟩
  | anyHere kind first induction =>
    have inner :=
      induction start (free _ (.head _)) (reached.mono fun _ found => ⟨_, .head _, found⟩)
    exact ⟨inner.1, fun _ => rfl⟩
  | anyLater first later ofFirst ofLater =>
    have outer :=
      ofFirst start (free _ (.head _)) (reached.mono fun _ found => ⟨_, .head _, found⟩)
    have inner := ofLater outer.1 (fun tree member => free tree (.tail _ member))
      ((reached.later first.extension).mono fun _ ⟨tree, member, found⟩ =>
        ⟨tree, .tail _ member, found⟩)
    constructor
    · exact inner.1
    · intro ⟨tree, member, kind, holds⟩
      cases member with
      | head => exact nomatch outer.2 holds
      | tail _ member =>
        apply inner.2
        rw [first.extension.active]
        exact ⟨tree, member, kind, holds⟩
  | allBut kind first induction =>
    have inner :=
      induction start (free _ (.head _)) (reached.mono fun _ found => ⟨_, .head _, found⟩)
    exact ⟨inner.1, fun holds => inner.2 (holds _ (.head _) kind)⟩
  | allLater first later ofFirst ofLater =>
    have outer :=
      ofFirst start (free _ (.head _)) (reached.mono fun _ found => ⟨_, .head _, found⟩)
    have inner := ofLater outer.1 (fun tree member => free tree (.tail _ member))
      ((reached.later first.extension).mono fun _ ⟨tree, member, found⟩ =>
        ⟨tree, .tail _ member, found⟩)
    constructor
    · exact inner.1
    · intro holds
      apply inner.2
      rw [first.extension.active]
      intro tree member
      exact holds tree (.tail _ member)
  | @known before rule answer member found =>
    constructor
    · exact start
    · intro holds
      cases answer with
      | true => rfl
      | false =>
        have ofRule := holds.2
        rw [← barring_barring] at ofRule
        exact absurd ofRule.of_barring (start rule member found)
  | active isActive =>
    constructor
    · exact start
    · intro holds
      have notActive := holds.1
      simp_all [Progress.isActive]
  | @worked before after rule block answer member unknown isIdle hasBlock
      asked induction =>
    have inner := induction start (bodies rule member block hasBlock)
      (reached.enter declared member hasBlock)
    constructor
    · apply Progress.Tells.leave declared inner.1 member
      intro isFalse
      apply not_matchesEmpty_of_body declared cuts member isIdle hasBlock reached
      intro holds
      simp [inner.2 holds] at isFalse
    · intro holds
      apply inner.2
      exact holds.2.body_of_rule (declared.eq_of_firstRule? member)
        (declared.isRule rule member) hasBlock
  | @noBlock before rule member unknown isIdle hasBlock =>
    have fails {barred : List Nat} :
        ¬MatchesEmpty (barring (firstRule? rules) barred) rule.tree := by
      simp [matchesEmpty_rule (declared.isRule rule member), hasBlock]
    constructor
    · apply Progress.Tells.leave declared start member
      exact fun _ => fails
    · intro holds
      exact absurd holds.2 fails

theorem sound_start (rules : List Node) : Progress.start.Sound rules := by
  intro rule member found
  simp [Progress.start, Progress.answer?, Known.find?] at found

theorem declared_rules (tree : Tree) : Declared tree.rules := by
  constructor
  · intro rule member
    simpa using (List.mem_filter.mp member).2
  · intro rule member other otherMember
    exact Tree.eq_of_index_eq (List.mem_filter.mp member).1
      (List.mem_filter.mp otherMember).1

theorem rule_answers {rule : Node} (member : rule ∈ rules) (before : Progress) :
    (Nullability.rule rules before rule).Answers rules (.rule rule) := by
  apply workOut_answers member
  intro isIdle block
  exact node_answers rules (before.enter rule) block

/-- The answer about a rule that is not being worked out is remembered. -/
theorem answer?_rule {rule : Node} (isIdle : before.isActive rule = false) :
    (Nullability.rule rules before rule).after.answer? rule =
      some (Nullability.rule rules before rule).answer := by
  unfold Nullability.rule workOut
  cases found : before.answer? rule with
  | some answer => exact found
  | none =>
    simp only [isIdle, Bool.false_eq_true, dite_false]
    cases rule.tree.childOfKind? .block with
    | none => exact (Progress.answer?_leave ..).trans (if_pos rfl)
    | some block => exact (Progress.answer?_leave ..).trans (if_pos rfl)

end Nullability

/-! ## Rules do not hold rules -/

namespace Tree.Stands

variable {known : Token → Prop} {tree : Tree}

theorem ruleFree {above : List NodeKind} (stands : tree.Stands known above)
    (inRule : .rule ∈ above) : tree.RuleFree := by
  induction stands with
  | node allowed _ induction =>
    refine .node ?_ fun child member => induction child member (.tail _ inRule)
    intro isRule
    exact (allowed.declared isRule).1 inRule

theorem ruleFree_body (stands : tree.Stands known []) {rule : Node}
    (member : rule ∈ tree.rules) {block : Tree}
    (hasBlock : rule.tree.childOfKind? .block = some block) : block.RuleFree := by
  obtain ⟨inTree, isRule⟩ := List.mem_filter.mp member
  have below := (stands.of_mem inTree).child (List.mem_of_find?_eq_some hasBlock)
  have kind : rule.tree.kind = .rule := of_decide_eq_true isRule
  rw [kind] at below
  exact below.ruleFree (.head _)

end Tree.Stands

namespace Nullability

/-! ## Questions asked from outside

Between two questions no rule is being worked out, so an answer `false` counts for the
whole grammar. -/

/-- Whether nothing is being worked out, and no known answer is wrong unless by way of
the rules cut. -/
structure Progress.Settled (rules : List Node) (cut : List Nat) (progress : Progress) :
    Prop where
  idle : progress.active = []
  complete : progress.Complete rules cut

theorem settled_start (rules : List Node) (cut : List Nat) :
    Progress.start.Settled rules cut where
  idle := rfl
  complete rule _
    found := by simp [Progress.start, Progress.answer?, Known.find?] at found

section Settled

variable {known : Token → Prop} {tree : Tree} (stands : tree.Stands known [])
  (cuts : Cuts tree.rules cut)

include stands cuts

/-- A question asked where nothing is being worked out is answered with `true`
if it holds. -/
theorem Asked.settled (asked : Asked tree.rules before question answer after)
    (start : before.Settled tree.rules cut) (free : question.RuleFree) :
    after.Settled tree.rules cut ∧ (question.Holds tree.rules cut → answer = true) := by
  have reached : question.Reached tree.rules before := by
    intro rule _ isActive
    simp [Progress.isActive, start.idle] at isActive
  have inner := asked.complete (declared_rules tree) cuts
    (fun _ member _ => stands.ruleFree_body member) start.complete free reached
  rw [start.idle, List.nil_append] at inner
  exact ⟨⟨asked.extension.active.trans start.idle, inner.1⟩, inner.2⟩

/-- A rule can be cut itself: what counts is that it needs no rule that is cut. -/
theorem rule_settled {rule : Node} (member : rule ∈ tree.rules)
    (start : before.Settled tree.rules cut) :
    (Nullability.rule tree.rules before rule).after.Settled tree.rules cut ∧
      (MatchesEmpty (barring (firstRule? tree.rules) cut) rule.tree →
        (Nullability.rule tree.rules before rule).answer = true) := by
  have answers : Asked .. := rule_answers member before
  have settled := (answers.settled stands cuts start trivial).1
  have isIdle : before.isActive rule = false := by simp [Progress.isActive, start.idle]
  refine ⟨settled, fun holds => ?_⟩
  cases answered : (Nullability.rule tree.rules before rule).answer with
  | true => rfl
  | false =>
    refine absurd holds (settled.complete rule member ?_)
    rw [answer?_rule isIdle, answered]

end Settled

/-- A question that is put from outside. -/
inductive Query where
  | rule (rule : Node)
  | node (node : Node)

namespace Query

/-- The node that is asked about. -/
def subject : Query → Node
  | .rule asked => asked
  | .node asked => asked

/-- Whether a question is about a tree: about one of its rules, or one of its nodes. -/
def IsAbout (tree : Tree) : Query → Prop
  | .rule asked => asked ∈ tree.rules
  | .node asked => asked ∈ tree.nodes

def ask (rules : List Node) (before : Progress) : Query → Reply before
  | .rule asked => Nullability.rule rules before asked
  | .node asked => Nullability.node rules before asked.tree

/-- The answers to questions asked one after the other, each with the progress then. -/
def askAll (rules : List Node) (before : Progress) : List Query → List (Bool × Progress)
  | [] => []
  | query :: rest =>
    let reply := query.ask rules before
    (reply.answer, reply.after) :: askAll rules reply.after rest

variable {tree : Tree} {query : Query} {queries : List Query}

theorem ask_spec (about : query.IsAbout tree) (sound : before.Sound tree.rules) :
    before.Extends (query.ask tree.rules before).after ∧
      (query.ask tree.rules before).after.Sound tree.rules ∧
      ((query.ask tree.rules before).answer = true →
        MatchesEmpty (firstRule? tree.rules) query.subject.tree) := by
  cases query with
  | rule asked =>
    have answers : Asked .. := rule_answers about before
    have inner := answers.sound (declared_rules tree) sound
    exact ⟨answers.extension, inner.1,
      fun isTrue => by simpa [subject] using (inner.2 isTrue).2⟩
  | node asked =>
    have answers : Asked .. := node_answers tree.rules before asked.tree
    have inner := answers.sound (declared_rules tree) sound
    exact ⟨answers.extension, inner.1,
      fun isTrue => by simpa [subject, Question.Holds] using inner.2 isTrue⟩

theorem extends_of_mem_askAll (about : ∀ query ∈ queries, query.IsAbout tree)
    (sound : before.Sound tree.rules) :
    ∀ reply ∈ askAll tree.rules before queries, before.Extends reply.2 := by
  induction queries generalizing before with
  | nil => simp [askAll]
  | cons query rest induction =>
    have first := ask_spec (about query (.head _)) sound
    intro reply member
    cases member with
    | head => exact first.1
    | tail _ member =>
      apply first.1.trans
      exact induction (fun query member => about query (.tail _ member))
        first.2.1 reply member

theorem pairwise_extends_askAll (about : ∀ query ∈ queries, query.IsAbout tree)
    (sound : before.Sound tree.rules) :
    (askAll tree.rules before queries).Pairwise fun earlier later =>
      earlier.2.Extends later.2 := by
  induction queries generalizing before with
  | nil => exact .nil
  | cons query rest induction =>
    have first := ask_spec (about query (.head _)) sound
    have aboutRest : ∀ query ∈ rest, query.IsAbout tree :=
      fun query member => about query (.tail _ member)
    exact .cons (extends_of_mem_askAll aboutRest first.2.1)
      (induction aboutRest first.2.1)

theorem matchesEmpty_of_askAll (about : ∀ query ∈ queries, query.IsAbout tree)
    (sound : before.Sound tree.rules) {position : Nat}
    (asked : queries[position]? = some query) :
    ∃ answer after, (askAll tree.rules before queries)[position]? = some (answer, after) ∧
      (answer = true → MatchesEmpty (firstRule? tree.rules) query.subject.tree) := by
  induction queries generalizing before position with
  | nil => simp at asked
  | cons head rest induction =>
    have first := ask_spec (about head (.head _)) sound
    cases position with
    | zero =>
      have equal : head = query := by simpa using asked
      subst equal
      exact ⟨_, _, rfl, first.2.2⟩
    | succ position =>
      exact induction (fun query member => about query (.tail _ member)) first.2.1 asked

end Query

end Nullability

end GrammarInspector
