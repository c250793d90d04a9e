import GrammarInspector.Proofs.Editor.Covers
import GrammarInspector.Proofs.Sorting
import GrammarInspector.Proofs.Tree.Alike

/-! # Labels side by side

Grammars whose trees are alike list the same labels. The list is sorted by place, so
places that go together have to be in the same order. They are if each place begins with a
token, and the tokens of the two sources go together one by one.
-/

namespace GrammarInspector

open List

variable {tokens others : List Token} {pairs : List (Token × Token)}

/-! ## Places in order -/

namespace Span.Pairing

/-- Any two places go together. -/
def anywhere : Span.Pairing where
  pairs _ _ := True
  merge _ _ := trivial

/-- Places that go together are in the same order. -/
def InOrder (pairing : Span.Pairing) : Prop :=
  ∀ left right first second, pairing.pairs left first → pairing.pairs right second →
    (left.start ≤ right.start ↔ first.start ≤ second.start)

end Span.Pairing

/-- Pairs of tokens that are in the same order on both sides. -/
def Token.InStep (pairs : List (Token × Token)) : Prop := ∀ pair ∈ pairs, ∀ other ∈ pairs,
    (pair.1.span.start ≤ other.1.span.start ↔ pair.2.span.start ≤ other.2.span.start)

theorem Token.inStep_zip (ordered : Token.Ordered tokens)
    (otherOrdered : Token.Ordered others)
    (solid : ∀ token ∈ tokens, token.span.start < token.span.stop)
    (otherSolid : ∀ token ∈ others, token.span.start < token.span.stop) :
    Token.InStep (tokens.zip others) := by
  induction tokens generalizing others with
  | nil => exact fun pair member => by cases member
  | cons token tokens induction =>
    cases others with
    | nil => exact fun pair member => by cases member
    | cons first others =>
      obtain ⟨before, ordered⟩ := pairwise_cons.mp ordered
      obtain ⟨otherBefore, otherOrdered⟩ := pairwise_cons.mp otherOrdered
      obtain ⟨positive, solid⟩ := forall_mem_cons.mp solid
      obtain ⟨otherPositive, otherSolid⟩ := forall_mem_cons.mp otherSolid
      have further := induction ordered otherOrdered solid otherSolid
      have later (pair : Token × Token) (member : pair ∈ tokens.zip others) :
          token.span.start < pair.1.span.start ∧
          first.span.start < pair.2.span.start := by
        obtain ⟨left, right⟩ := of_mem_zip member
        exact ⟨Nat.lt_of_lt_of_le positive (before _ left),
          Nat.lt_of_lt_of_le otherPositive (otherBefore _ right)⟩
      intro pair member other otherMember
      rw [zip_cons_cons, mem_cons] at member otherMember
      rcases member with rfl | member
      · rcases otherMember with rfl | otherMember
        · simp
        · have behind := later other otherMember
          simp only [Nat.le_of_lt behind.1, Nat.le_of_lt behind.2]
      · rcases otherMember with rfl | otherMember
        · have behind := later pair member
          simp only [Nat.not_le_of_lt behind.1, Nat.not_le_of_lt behind.2]
        · exact further pair member other otherMember

/-- Places that begin with the two tokens of a pair. -/
def Span.BeginWith (pairs : List (Token × Token)) (span other : Span) : Prop :=
  ∃ pair ∈ pairs, pair.1.span.start = span.start ∧ pair.2.span.start = other.start

theorem Span.BeginWith.merge (inStep : Token.InStep pairs)
    {left right first second : Span} (lefts : left.BeginWith pairs first)
    (rights : right.BeginWith pairs second) :
    (left.merge right).BeginWith pairs (first.merge second) := by
  obtain ⟨pair, member, ofLeft, ofFirst⟩ := lefts
  obtain ⟨other, otherMember, ofRight, ofSecond⟩ := rights
  have same := inStep pair member other otherMember
  simp only [Span.BeginWith, Span.merge]
  by_cases before : pair.1.span.start ≤ other.1.span.start
  · have otherBefore := same.mp before
    exact ⟨pair, member, by omega, by omega⟩
  · have otherBehind := mt same.mpr before
    exact ⟨other, otherMember, by omega, by omega⟩

def Span.Pairing.beginning (pairs : List (Token × Token)) (inStep : Token.InStep pairs) :
    Span.Pairing where
  pairs := Span.BeginWith pairs
  merge := Span.BeginWith.merge inStep

theorem Span.Pairing.inOrder_beginning (inStep : Token.InStep pairs) :
    (beginning pairs inStep).InOrder := by
  rintro left right first second ⟨pair, member, ofLeft, ofFirst⟩ ⟨other, otherMember,
    ofRight, ofSecond⟩
  rw [← ofLeft, ← ofRight, ← ofFirst, ← ofSecond]
  exact inStep pair member other otherMember

theorem Token.alike_beginning (inStep : Token.InStep (tokens.zip others))
    (alike : Forall₂ (Token.Alike .anywhere) tokens others) :
    Forall₂ (Token.Alike (.beginning _ inStep)) tokens others := by
  obtain ⟨lengths, each⟩ := forall₂_iff_zip.mp alike
  refine forall₂_iff_zip.mpr ⟨lengths, fun {token other} member => ?_⟩
  have same := each member
  exact ⟨same.kind, same.text, (token, other), member, rfl, rfl⟩

/-! ## Whatever the places -/

section

variable {pairing : Span.Pairing} {node other : Node}

theorem AltLabel.Alike.anywhere {label other : AltLabel}
    (alike : label.Alike pairing other) : label.Alike .anywhere other :=
  ⟨alike.name, trivial⟩

theorem rel_imp {α : Type} {related weaker : α → α → Prop}
    (implies : ∀ left right, related left right → weaker left right)
    {left right : Option α} (both : Option.Rel related left right) :
    Option.Rel weaker left right := by
  cases both with
  | none => exact .none
  | some holds => exact .some (implies _ _ holds)

theorem NodeData.Alike.anywhere {data other : NodeData}
    (alike : data.Alike pairing other) :
    data.Alike .anywhere other where
  kind := alike.kind
  text := alike.text
  span := rel_imp (fun _ _ _ => trivial) alike.span
  label := rel_imp (fun _ _ => AltLabel.Alike.anywhere) alike.label

namespace Tree.Alike

mutual

theorem anywhere : {tree other : Tree} → tree.Alike pairing other →
      tree.Alike .anywhere other
  | _, _, .node own below => .node own.anywhere (forall₂_anywhere below)

theorem forall₂_anywhere : {trees others : List Tree} → Forall₂
    (Alike pairing) trees others →
    Forall₂ (Alike .anywhere) trees others
  | _, _, .nil => .nil
  | _, _, .cons first rest => .cons (anywhere first) (forall₂_anywhere rest)

end

end Tree.Alike

theorem Node.Alike.anywhere (alike : node.Alike pairing other) :
    node.Alike .anywhere other :=
  ⟨alike.index, alike.tree.anywhere⟩

theorem Node.Alike.childOfKind? (alike : node.Alike pairing other) (kind : NodeKind) :
    Option.Rel (Node.Alike pairing) (node.childOfKind? kind)
      (other.childOfKind? kind) := by
  rw [Node.childOfKind?, Node.childOfKind?]
  have below := alike.children
  generalize node.children = children at below ⊢
  generalize other.children = others at below ⊢
  induction below with
  | nil => exact .none
  | cons first _ induction =>
    rw [find?_cons, find?_cons, first.kind]
    split
    · exact .some first
    · exact induction

end

namespace Grammar

variable {pairing : Span.Pairing} {grammar other : Grammar}

/-! ## Entries -/

/-- Labels with one name at nodes that are alike. -/
structure Labelled.Alike (pairing : Span.Pairing) (entry other : Labelled) : Prop where
  label : entry.label.Alike pairing other.label
  rule : entry.rule.Alike pairing other.rule
  alternative : entry.alternative.Alike pairing other.alternative

theorem Labelled.Alike.anywhere {entry other : Labelled}
    (alike : entry.Alike pairing other) : entry.Alike .anywhere other :=
  ⟨alike.label.anywhere, alike.rule.anywhere, alike.alternative.anywhere⟩

theorem labelledOf_alike {rule twin : Node} (alike : rule.Alike pairing twin) :
    Forall₂ (Labelled.Alike pairing) (labelledOf rule) (labelledOf twin) := by
  have blocks := alike.childOfKind? .block
  unfold labelledOf
  generalize rule.childOfKind? .block = block at blocks ⊢
  generalize twin.childOfKind? .block = twinBlock at blocks ⊢
  cases blocks with
  | none => exact .nil
  | some blockAlike =>
    refine rel_filterMap (fun alternative other same => ?_) blockAlike.children
    have labels := same.tree.data.label
    generalize alternative.tree.data.label = label at labels ⊢
    generalize other.tree.data.label = otherLabel at labels ⊢
    cases labels with
    | none => exact .none
    | some named => exact .some ⟨named, alike, same⟩

theorem labels_alike (inOrder : pairing.InOrder)
    (alike : grammar.tree.Alike pairing other.tree) :
    Forall₂ (Labelled.Alike pairing) grammar.labels other.labels := by
  have rules : Forall₂ (Node.Alike pairing) grammar.tree.rules other.tree.rules :=
    rel_filter (fun node twin same => by simp only [same.kind]) alike.nodes
  refine forall₂_mergeSort (fun first second third fourth same sameToo => ?_)
    (rel_flatMap rules fun _ _ same => labelledOf_alike same)
  exact inOrder _ _ _ _ same.label.span sameToo.label.span

end Grammar

end GrammarInspector
