import Mathlib.Data.List.Forall2

/-! # Stable sorting

Sorting keeps entries of equal rank in their order. So it does not matter whether a list
is sorted before or after entries are left out, and lists that go together entry by entry
still do when each is sorted, as long as their ranks are in the same order.
-/

namespace GrammarInspector

open List

variable {α : Type}

/-- Where whatever follows an accepted entry is accepted, the refused
entries come first. -/
theorem eq_filter_append_filter {values : List α} {accepts : α → Bool}
    (upward : values.Pairwise fun first second => accepts first = true →
      accepts second = true) :
    values = values.filter (!accepts ·) ++ values.filter accepts := by
  induction upward with
  | nil => rfl
  | @cons value rest first _ induction =>
    cases accepted : accepts value with
    | false =>
      rw [filter_cons_of_pos (by simp [accepted]),
        filter_cons_of_neg (by simp [accepted]),
        cons_append, ← induction]
    | true =>
      have all : ∀ other ∈ value :: rest, accepts other = true :=
        forall_mem_cons.mpr ⟨accepted, fun other member => first other member accepted⟩
      have none : (value :: rest).filter (!accepts ·) = [] :=
        filter_eq_nil_iff.mpr fun other member => by simp [all other member]
      rw [none, filter_eq_self.mpr all, nil_append]

/-- Whether entries are compared by some rank. -/
structure Ranks (before : α → α → Bool) : Prop where
  trans : ∀ first second third, before first second = true → before second third = true →
      before first third = true
  total : ∀ first second, (before first second || before second first) = true

theorem ranks_of_key (key : α → Nat) : Ranks fun first second : α => decide
    (key first ≤ key second) where
  trans _ _ _ early late :=
    decide_eq_true (Nat.le_trans (of_decide_eq_true early) (of_decide_eq_true late))
  total first second := by
    rw [Bool.or_eq_true, decide_eq_true_iff, decide_eq_true_iff]
    exact Nat.le_total ..

/-- Sorting puts the first entry behind those that it must not precede. -/
theorem mergeSort_cons_eq {before : α → α → Bool} (ranks : Ranks before) (first : α)
    (rest : List α) :
    (first :: rest).mergeSort before = (rest.mergeSort before).filter (!before first ·) ++
      first :: (rest.mergeSort before).filter (before first ·) := by
  obtain ⟨front, behind, whole, split, ofFront⟩ :=
    mergeSort_cons ranks.trans ranks.total first rest
  have sorted := pairwise_mergeSort ranks.trans ranks.total (first :: rest)
  rw [whole] at sorted
  have ofBehind := (pairwise_cons.mp (pairwise_append.mp sorted).2.1).1
  rw [whole, split, filter_append, filter_append, filter_eq_self.mpr ofFront,
    filter_eq_nil_iff.mpr fun value member => by simp [ofBehind value member], append_nil,
    filter_eq_nil_iff.mpr
      fun value member => by simpa using ofFront value member, nil_append,
    filter_eq_self.mpr ofBehind]

/-- Entries can be left out before or after sorting. -/
theorem filter_mergeSort {before : α → α → Bool} (ranks : Ranks before)
    (accepts : α → Bool) (values : List α) :
    (values.mergeSort before).filter accepts =
      (values.filter accepts).mergeSort before := by
  induction values with
  | nil => simp
  | cons first rest induction =>
    rw [mergeSort_cons_eq ranks, filter_append]
    cases accepted : accepts first with
    | true =>
      rw [filter_cons_of_pos accepted, filter_cons_of_pos accepted,
        mergeSort_cons_eq ranks, ← induction, filter_comm, filter_comm (before first)]
    | false =>
      have refused : ¬accepts first = true := by simp [accepted]
      have sorted := pairwise_mergeSort ranks.trans ranks.total rest
      have upward :=
        sorted.imp fun following earlier => ranks.trans first _ _ earlier following
      rw [filter_cons_of_neg refused, filter_cons_of_neg refused, ← induction,
        ← filter_append, ← eq_filter_append_filter upward]

/-- Sorting lists that go together, by keys that are in the same order, gives lists that
go together. -/
theorem forall₂_mergeSort {related : α → α → Prop} {key : α → Nat} {left right : List α}
    (inOrder : ∀ first second third fourth, related first second → related third fourth →
      (key first ≤ key third ↔ key second ≤ key fourth))
    (alike : Forall₂ related left right) :
    Forall₂ related (left.mergeSort fun first second => key first ≤ key second)
      (right.mergeSort fun first second => key first ≤ key second) := by
  -- Both lists are sides of one list of pairs, which is sorted by its first side.
  obtain ⟨lengths, each⟩ := forall₂_iff_zip.mp alike
  let before (pair other : α × α) : Bool := key pair.1 ≤ key other.1
  have firsts : ((left.zip right).mergeSort before).map Prod.fst =
      left.mergeSort fun first second => key first ≤ key second := by
    have side := map_fst_zip (Nat.le_of_eq lengths)
    refine (map_mergeSort fun pair _ other _ => ?_).trans
      (congrArg (List.mergeSort · _) side)
    rfl
  have seconds : ((left.zip right).mergeSort before).map Prod.snd =
      right.mergeSort fun first second => key first ≤ key second := by
    have side := map_snd_zip (Nat.le_of_eq lengths.symm)
    refine (map_mergeSort fun pair member other otherMember => ?_).trans
      (congrArg (List.mergeSort · _) side)
    exact decide_eq_decide.mpr (inOrder _ _ _ _ (each member) (each otherMember))
  rw [← firsts, ← seconds, forall₂_map_left_iff, forall₂_map_right_iff, forall₂_same]
  exact fun pair member => each (mem_mergeSort.mp member)

end GrammarInspector
