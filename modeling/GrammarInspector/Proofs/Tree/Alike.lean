import Mathlib.Data.List.Forall2
import GrammarInspector.Proofs.Tree.Lineage

/-! # Trees that differ in their places only

Two trees are alike if they have the same nodes with the same kinds and texts, and the
places of their nodes go together. What it means for places to go together is left open;
all that is asked is that covering two places at a time keeps it.
-/

namespace GrammarInspector

open List

/-- Places that go together. -/
structure Span.Pairing where
  pairs : Span → Span → Prop
  merge : ∀ {left right first second : Span}, pairs left first → pairs right second →
    pairs (left.merge right) (first.merge second)

/-- Tokens of one kind with one text. -/
structure Token.Alike (pairing : Span.Pairing) (token other : Token) : Prop where
  kind : token.kind = other.kind
  text : token.text = other.text
  span : pairing.pairs token.span other.span

/-- Labels with one name. -/
structure AltLabel.Alike (pairing : Span.Pairing) (label other : AltLabel) : Prop where
  name : label.name = other.name
  span : pairing.pairs label.span other.span

structure NodeData.Alike (pairing : Span.Pairing) (data other : NodeData) : Prop where
  kind : data.kind = other.kind
  text : data.text = other.text
  span : Option.Rel pairing.pairs data.span other.span
  label : Option.Rel (AltLabel.Alike pairing) data.label other.label

inductive Tree.Alike (pairing : Span.Pairing) : Tree → Tree → Prop
  | node {data other : NodeData} {children others : List Tree}
      (own : data.Alike pairing other)
      (below : Forall₂ (Tree.Alike pairing) children others) :
      Alike pairing (.node data children) (.node other others)

/-- Nodes at the same place of trees that are alike. -/
structure Node.Alike (pairing : Span.Pairing) (node other : Node) : Prop where
  index : node.index = other.index
  tree : node.tree.Alike pairing other.tree

variable {pairing : Span.Pairing}

/-! ## Building alike trees -/

namespace Tree.Alike

variable {tree other : Tree} {trees others : List Tree} {kind : NodeKind}

theorem leaf {token first : Token} (alike : token.Alike pairing first) :
    (Tree.leaf kind token).Alike pairing (Tree.leaf kind first) :=
  .node ⟨rfl, alike.text, .some alike.span, .none⟩ .nil

theorem builtAt {span first : Option Span} (places : Option.Rel pairing.pairs span first)
    (below : Forall₂ (Alike pairing) trees others) :
    (Tree.builtAt kind span trees).Alike pairing (Tree.builtAt kind first others) :=
  .node ⟨rfl, rfl, places, .none⟩ below

theorem group (below : Forall₂ (Alike pairing) trees others) :
    (Tree.group kind trees).Alike pairing (Tree.group kind others) :=
  builtAt .none below

theorem append (alike : tree.Alike pairing other)
    (more : Forall₂ (Alike pairing) trees others) :
    (tree.append trees).Alike pairing (other.append others) := by
  cases alike with
  | node own below => exact .node own (rel_append below more)

theorem withLabel {label first : AltLabel} (alike : tree.Alike pairing other)
    (named : label.Alike pairing first) :
    (tree.withLabel label).Alike pairing (other.withLabel first) := by
  cases alike with
  | node own below => exact .node ⟨own.kind, own.text, own.span, .some named⟩ below

/-! ## What alike trees share -/

theorem data (alike : tree.Alike pairing other) : tree.data.Alike pairing other.data := by
  cases alike with
  | node own _ => exact own

theorem children (alike : tree.Alike pairing other) :
    Forall₂ (Alike pairing) tree.children other.children := by
  cases alike with
  | node _ below => exact below

theorem kind_eq (alike : tree.Alike pairing other) : tree.kind = other.kind :=
  alike.data.kind

mutual

theorem anchor : {tree other : Tree} → tree.Alike pairing other →
      Option.Rel pairing.pairs tree.anchor other.anchor
  | _, _, .node own below => by
      rw [Tree.anchor, Tree.anchor]
      have first := anchorFirst below
      have places := own.span
      revert places
      rename_i data other children others
      cases data.span with
      | none =>
        cases other.span with
        | none => exact fun _ => first
        | some span => exact fun places => nomatch places
      | some span =>
        cases other.span with
        | none => exact fun places => nomatch places
        | some first => exact id

theorem anchorFirst : {trees others : List Tree} → Forall₂ (Alike pairing) trees others →
    Option.Rel pairing.pairs (Tree.anchorFirst trees) (Tree.anchorFirst others)
  | _, _, .nil => by
      rw [Tree.anchorFirst]
      exact .none
  | _, _, .cons first _ => by
      rw [Tree.anchorFirst, Tree.anchorFirst]
      exact anchor first

end

mutual

theorem size_eq : {tree other : Tree} → tree.Alike pairing other → tree.size = other.size
  | _, _, .node _ below => by rw [size_node, size_node, sizeAll_eq below]

theorem sizeAll_eq : {trees others : List Tree} → Forall₂ (Alike pairing) trees others →
    sizeAll trees = sizeAll others
  | _, _, .nil => rfl
  | _, _, .cons first rest => by
    rw [sizeAll_cons, sizeAll_cons, size_eq first, sizeAll_eq rest]

end

end Tree.Alike

/-! ## Nodes -/

namespace Node.Alike

variable {node other : Node}

theorem kind (alike : node.Alike pairing other) : node.kind = other.kind :=
  alike.tree.kind_eq

theorem siblings {index : Nat} {above beside : List (Nat × Tree)}
    {trees others : List Tree} (alike : Forall₂ (Tree.Alike pairing) trees others) :
    Forall₂ (Alike pairing) (Node.siblings index above trees)
      (Node.siblings index beside others) := by
  induction alike generalizing index with
  | nil => exact .nil
  | cons first _ induction =>
    refine .cons ⟨rfl, first⟩ ?_
    rw [first.size_eq]
    exact induction

theorem children (alike : node.Alike pairing other) :
    Forall₂ (Alike pairing) node.children other.children := by
  rw [Node.children, Node.children, alike.index]
  exact siblings alike.tree.children

mutual

theorem ofTree {index : Nat} {above beside : List (Nat × Tree)} : {tree other : Tree} →
      tree.Alike pairing other →
    Forall₂ (Alike pairing) (Node.ofTree index above tree)
      (Node.ofTree index beside other)
  | _, _, .node own below => by
      rw [ofTree_node, ofTree_node]
      exact .cons ⟨rfl, .node own below⟩ (ofTrees below)

theorem ofTrees {index : Nat} {above beside : List (Nat × Tree)} :
    {trees others : List Tree} →
    Forall₂ (Tree.Alike pairing) trees others →
    Forall₂ (Alike pairing) (Node.ofTrees index above trees)
      (Node.ofTrees index beside others)
  | _, _, .nil => by
      rw [ofTrees_nil, ofTrees_nil]
      exact .nil
  | _, _, .cons first rest => by
      rw [ofTrees_cons, ofTrees_cons, first.size_eq]
      exact rel_append (ofTree first) (ofTrees rest)

end

end Node.Alike

theorem Tree.Alike.nodes {tree other : Tree} (alike : tree.Alike pairing other) :
    Forall₂ (Node.Alike pairing) tree.nodes other.nodes :=
  Node.Alike.ofTree alike

end GrammarInspector
