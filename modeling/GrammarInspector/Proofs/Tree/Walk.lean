import GrammarInspector.Proofs.Tree.Preorder
import GrammarInspector.Tree.Walk

/-! # Walks as selections

A walk goes down a tree and remembers whether it is inside a rule body. The nodes above a
node tell the same, and whether the walk gets to the node at all, so the reports of a walk
are a selection from the list of all nodes.
-/

namespace GrammarInspector.Walk

open List

variable {walk : Walk} {node : Node} {event : Event}

/-- Whether what these trees hold is part of a rule body. -/
def inBodyOf : List (Nat × Tree) → Bool
  | [] => false
  | (_, tree) :: above => Node.bodyBelow (inBodyOf above) tree.kind

/-- Whether a walk leaves out what is below a node that it gets to. -/
def stopsAt (walk : Walk) (node : Node) : Bool :=
  (walk.event? (inBodyOf node.above) node).isSome && walk.skips node

/-- Whether a walk gets to what these trees hold. -/
def reaches (walk : Walk) : List (Nat × Tree) → Bool
  | [] => true
  | (index, tree) :: above => walk.reaches above && !walk.stopsAt ⟨index, tree, above⟩

/-- The report on a node by a walk over the whole tree. -/
def report? (walk : Walk) (node : Node) : Option Event :=
  if walk.reaches node.above then walk.event? (inBodyOf node.above) node else none

theorem node_of_event? {inBody : Bool} (reported : walk.event? inBody node = some event) :
    event.node = node := by
  unfold event? at reported
  split at reported
  · split at reported
    · cases reported
      rfl
    · cases reported
  · cases reported

theorem node_of_report? (reported : walk.report? node = some event) :
    event.node = node := by
  unfold report? at reported
  split at reported
  · exact node_of_event? reported
  · cases reported

/-- A walk gets to what it is stopped from by none of the holders. -/
theorem reaches_of_forall {above : List (Nat × Tree)}
    (passes : ∀ holder : Node, (holder.index, holder.tree) :: holder.above <:+ above →
      walk.stopsAt holder = false) :
    walk.reaches above = true := by
  induction above with
  | nil => rfl
  | cons holder rest induction =>
    obtain ⟨index, tree⟩ := holder
    rw [reaches, passes ⟨index, tree, rest⟩ suffix_rfl, Bool.not_false, Bool.and_true]
    exact induction fun other held => passes other (held.trans (suffix_cons ..))

/-! ## Walks from any node

A walk that starts at a node knows nothing of the nodes above it. Below, `base` are the
trees that hold the start, and `front` are those between the start and another node. -/

/-- Whether a walk leaves out what is below a node that it gets to. -/
def stopsBelow (walk : Walk) (base front : List (Nat × Tree)) (index : Nat)
    (tree : Tree) : Bool :=
  (walk.event? (inBodyOf front) ⟨index, tree, front ++ base⟩).isSome &&
    walk.skips ⟨index, tree, front ++ base⟩

/-- Whether a walk gets to what these trees hold. -/
def reachesFrom (walk : Walk) (base : List (Nat × Tree)) : List (Nat × Tree) → Bool
  | [] => true
  | (index, tree) :: front => walk.reachesFrom base front &&
      !walk.stopsBelow base front index tree

/-- The report on a node by a walk. -/
def reportFrom? (walk : Walk) (base : List (Nat × Tree)) (node : Node) : Option Event :=
  let front := node.above.take (node.above.length - base.length)
  if walk.reachesFrom base front then walk.event? (inBodyOf front) node else none

section

variable {base front : List (Nat × Tree)}

theorem reportFrom?_eq {node : Node} (above : node.above = front ++ base) :
    walk.reportFrom? base node =
      if walk.reachesFrom base front then walk.event? (inBodyOf front) node
      else none := by
  simp [reportFrom?, above]

theorem reachesFrom_of_suffix {further : List (Nat × Tree)} (held : front <:+ further)
    (reached : walk.reachesFrom base further = true) :
    walk.reachesFrom base front = true := by
  induction further with
  | nil =>
    rw [suffix_nil.mp held]
    exact reached
  | cons holder rest induction =>
    rcases suffix_cons_iff.mp held with equal | inside
    · rw [equal]
      exact reached
    · rw [reachesFrom, Bool.and_eq_true] at reached
      exact induction inside reached.1

/-- Nothing is reported below a node where a walk stops. -/
theorem filterMap_reportFrom?_eq_nil {index : Nat} {trees : List Tree}
    (unreached : walk.reachesFrom base front = false) :
    (Node.ofTrees index (front ++ base) trees).filterMap
      (walk.reportFrom? base) = [] := by
  rw [filterMap_eq_nil_iff]
  intro node member
  obtain ⟨more, equal⟩ := Node.above_of_mem_ofTrees trees member
  rw [← append_assoc] at equal
  rw [reportFrom?_eq equal.symm, if_neg]
  intro reached
  rw [reachesFrom_of_suffix (suffix_append more front) reached] at unreached
  cases unreached

end

mutual

theorem ofTree_eq_filterMap (walk : Walk) (base : List (Nat × Tree)) : (tree : Tree) →
    (index : Nat) → (front : List (Nat × Tree)) → walk.reachesFrom base front = true →
    walk.ofTree (inBodyOf front) index (front ++ base) tree =
      (Node.ofTree index (front ++ base) tree).filterMap (walk.reportFrom? base)
  | .node data children, index, front, reached => by
      let node : Node := ⟨index, .node data children, front ++ base⟩
      have above : node.above = front ++ base := rfl
      have here : walk.reportFrom? base node = walk.event? (inBodyOf front) node := by
        rw [reportFrom?_eq above, if_pos reached]
      have below (further : walk.reachesFrom base
          ((index, .node data children) :: front) = true) :
          walk.ofTrees (Node.bodyBelow (inBodyOf front) data.kind) (index + 1)
              ((index, .node data children) :: (front ++ base)) children =
            (Node.ofTrees (index + 1) ((index, .node data children) :: (front ++ base))
              children).filterMap (walk.reportFrom? base) :=
        ofTrees_eq_filterMap walk base children _
          ((index, .node data children) :: front) further
      rw [ofTree, Node.ofTree_node, filterMap_cons, here]
      cases reported : walk.event? (inBodyOf front) node with
      | none => exact below (by simp [reachesFrom, reached, stopsBelow, node, reported])
      | some event =>
        simp only [node_of_event? reported, List.cons.injEq, true_and]
        cases skipped : walk.skips node with
        | true =>
          have stopped : walk.reachesFrom base ((index, .node data children) :: front) =
              false := by
            simp [reachesFrom, stopsBelow, node, reported, skipped]
          exact (filterMap_reportFrom?_eq_nil stopped).symm
        | false => exact below (by simp [reachesFrom, reached, stopsBelow, node, skipped])

theorem ofTrees_eq_filterMap (walk : Walk) (base : List (Nat × Tree)) :
    (trees : List Tree) →
    (index : Nat) → (front : List (Nat × Tree)) → walk.reachesFrom base front = true →
    walk.ofTrees (inBodyOf front) index (front ++ base) trees =
      (Node.ofTrees index (front ++ base) trees).filterMap (walk.reportFrom? base)
  | [], index, front, reached => by
      rw [ofTrees, Node.ofTrees_nil]
      rfl
  | tree :: rest, index, front, reached => by
      rw [ofTrees, Node.ofTrees_cons, filterMap_append,
        ofTree_eq_filterMap walk base tree index front reached,
        ofTrees_eq_filterMap walk base rest _ front reached]

end

/-- A walk reports a selection of the nodes below its start, in pre-order. -/
theorem events_eq_filterMap (walk : Walk) (start : Node) :
    walk.events start = start.descendants.filterMap (walk.reportFrom? start.above) :=
  ofTree_eq_filterMap walk start.above start.tree start.index [] rfl

/-! ## Walks over whole trees -/

theorem reachesFrom_nil (walk : Walk) (above : List (Nat × Tree)) :
    walk.reachesFrom [] above = walk.reaches above := by
  induction above with
  | nil => rfl
  | cons holder rest induction =>
    rw [reachesFrom, reaches, induction, stopsBelow, append_nil, stopsAt]

theorem reportFrom?_nil (walk : Walk) (node : Node) :
    walk.reportFrom? [] node = walk.report? node := by
  rw [reportFrom?_eq (append_nil node.above).symm, reachesFrom_nil, report?]

/-- A walk over a whole tree reports a selection of its nodes, in pre-order. -/
theorem events_root (walk : Walk) (tree : Tree) :
    walk.events tree.root = tree.nodes.filterMap walk.report? := by
  rw [← funext (reportFrom?_nil walk)]
  exact events_eq_filterMap walk tree.root

theorem mem_elements_iff {tree : Tree} : node ∈ tree.elements ↔
    node ∈ tree.nodes ∧ node.category? (inBodyOf node.above) = some .element := by
  let walk : Walk := ⟨fun category => category = .element, fun _ => false⟩
  have reported (other : Node) :
      walk.report? other = walk.event? (inBodyOf other.above) other :=
    if_pos (reaches_of_forall fun holder _ => by rw [stopsAt, Bool.and_false])
  rw [Tree.elements, events_root, mem_map]
  constructor
  · rintro ⟨event, isReported, rfl⟩
    obtain ⟨other, member, found⟩ := mem_filterMap.mp isReported
    rw [node_of_report? found]
    rw [reported, event?] at found
    refine ⟨member, ?_⟩
    split at found
    · rename_i category isCategory
      split at found
      · rename_i isElement
        rw [isCategory, of_decide_eq_true isElement]
      · cases found
    · cases found
  · rintro ⟨member, isElement⟩
    refine ⟨⟨.element, node⟩, mem_filterMap.mpr ⟨node, member, ?_⟩, rfl⟩
    rw [reported, event?, isElement]
    rfl

end GrammarInspector.Walk
