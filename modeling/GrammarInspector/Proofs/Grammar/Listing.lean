import Mathlib.Data.List.Perm.Basic
import GrammarInspector.Proofs.Grammar.Ensures
import GrammarInspector.Proofs.Tree.Origin

/-! # The tokens that nodes stand for

Nodes show the text of tokens, and labels are kept beside them. A `Listing` puts the nodes
that stand for text in the order of the source, each with its tokens: all tokens with a
text are there, and none twice.
-/

namespace GrammarInspector

open List

/-! ## Spans -/

namespace Span

variable {outer inner : Span}

/-- Whether a span holds all bytes of another. -/
def encloses (outer inner : Span) : Bool :=
  outer.start ≤ inner.start && inner.stop ≤ outer.stop

theorem encloses_iff :
    outer.encloses inner = true ↔ outer.start ≤ inner.start ∧
    inner.stop ≤ outer.stop := by
  simp [encloses]

theorem encloses_refl (span : Span) : span.encloses span = true := by simp [encloses]

theorem encloses_trans {middle : Span} (first : outer.encloses middle = true)
    (second : middle.encloses inner = true) : outer.encloses inner = true := by
  simp only [encloses_iff] at *
  omega

theorem encloses_merge (left right : Span) :
    (left.merge right).encloses left = true ∧
    (left.merge right).encloses right = true := by
  simp only [encloses_iff, merge]
  omega

theorem not_apart {left right : Span} (nonempty : inner.start < inner.stop)
    (inLeft : left.encloses inner = true) (inRight : right.encloses inner = true) :
    ¬left.Apart right := by
  simp only [encloses_iff] at inLeft inRight
  simp only [Apart, not_or]
  omega

theorem encloses_foldl_merge (names : List Token) (span : Span) :
    (names.foldl (fun span name => span.merge name.span) span).encloses span = true ∧
        ∀ name ∈ names,
        (names.foldl (fun span name => span.merge name.span) span).encloses
          name.span = true := by
  induction names generalizing span with
  | nil => exact ⟨span.encloses_refl, by simp⟩
  | cons first rest induction =>
    obtain ⟨whole, each⟩ := induction (span.merge first.span)
    obtain ⟨ofSpan, ofFirst⟩ := span.encloses_merge first.span
    refine ⟨encloses_trans whole ofSpan, forall_mem_cons.mpr ⟨?_, each⟩⟩
    exact encloses_trans whole ofFirst

end Span

namespace Node

/-! ## Single nodes -/

/-- Whether a node shows text or has a label. -/
def carriesText (node : Node) : Bool := node.kind.isText || node.tree.data.label.isSome

/-- The span of the text that a node shows, or of its label. -/
def textSpan? (node : Node) : Option Span :=
  if node.kind.isText then node.tree.span else node.tree.data.label.map (·.span)

/-- The tokens whose text a node shows, or the token of its label. -/
inductive StandsFor : List Token → Node → Prop
  | shows {token node} (isText : node.kind.isText = true)
      (own : node.tree.span = some token.span) :
    StandsFor [token] node
  /-- Several names with dots between them are shown together. -/
  | dotted {first second rest node}
      (isDotted : node.tree = Tree.dotted first (second :: rest))
    (areNames : ∀ name ∈ first :: second :: rest, name.kind.isIdentifier = true) :
    StandsFor (first :: second :: rest) node
  | label {token node label} (notText : node.kind.isText = false)
    (hasLabel : node.tree.data.label = some label) (own : label.span = token.span) :
    StandsFor [token] node

namespace StandsFor

variable {tokens : List Token} {node : Node}

theorem carriesText (standsFor : node.StandsFor tokens) : node.carriesText = true := by
  cases standsFor with
  | shows isText => simp [Node.carriesText, isText]
  | dotted isDotted => simp [Node.carriesText, Node.kind, isDotted, Tree.dotted,
      Tree.kind, NodeKind.isText]
  | label _ hasLabel => simp [Node.carriesText, hasLabel]

/-- The span of a node's text reaches from one of its tokens to one of them, and
holds them all. -/
theorem exists_span (standsFor : node.StandsFor tokens) :
    ∃ span, node.textSpan? = some span ∧ span.From tokens ∧ ∀ token ∈ tokens,
      span.encloses token.span = true := by
  cases standsFor with
  | @shows token _ isText own =>
    refine ⟨token.span, by simp [textSpan?, isText, own], Span.from_of_mem (.head _), ?_⟩
    exact forall_mem_singleton.mpr (Span.encloses_refl _)
  | @dotted first second rest _ isDotted areNames =>
    have isText : node.kind.isText = true := by
      simp [Node.kind, isDotted, Tree.dotted, Tree.kind, NodeKind.isText]
    have own :
        node.tree.span = some
        ((second :: rest).foldl (fun span name => span.merge name.span) first.span) := by
      rw [isDotted]
      rfl
    have inside := Span.encloses_foldl_merge (second :: rest) first.span
    refine ⟨_, by rw [textSpan?, if_pos isText, own], ?_, forall_mem_cons.mpr inside⟩
    exact Tree.from_foldl_merge_of_subset (Span.from_of_mem (.head _))
      (subset_cons_self ..)
  | @label token _ label notText hasLabel own =>
    refine ⟨token.span, by simp [textSpan?, notText, hasLabel, own],
      Span.from_of_mem (.head _), ?_⟩
    exact forall_mem_singleton.mpr (Span.encloses_refl _)

end StandsFor

end Node

/-! ## Listings -/

/-- The nodes that stand for text, in the order of the source and each with its tokens. -/
structure Listing (taken : List Token) (nodes : List Node) where
  entries : List (List Token × Node)
  standsFor : ∀ entry ∈ entries, entry.2.StandsFor entry.1
  /-- The tokens come in their order, and each of them once. -/
  sublist : (entries.flatMap (·.1)).Sublist taken
  /-- No text is left out. -/
  complete : ∀ token ∈ taken, token.kind.isText = true → token ∈ entries.flatMap (·.1)
  perm : (entries.map (·.2)).Perm (nodes.filter (·.carriesText))

namespace Listing

variable {taken first second : List Token} {nodes others : List Node} {node : Node}

/-- Nothing stands for tokens without a text. -/
def unlisted (noText : ∀ token ∈ taken, token.kind.isText = false)
    (hidden : ∀ node ∈ nodes, node.carriesText = false) : Listing taken nodes where
  entries := []
  standsFor := by simp
  sublist := nil_sublist taken
  complete token member isText := by simp [noText token member] at isText
  perm := by
    have none : nodes.filter (·.carriesText) = [] := by simpa using hidden
    rw [none]
    exact .nil

def single {tokens : List Token} (standsFor : node.StandsFor tokens)
    (sublist : tokens.Sublist taken)
    (complete : ∀ token ∈ taken, token.kind.isText = true → token ∈ tokens) :
      Listing taken [node] where
  entries := [(tokens, node)]
  standsFor := forall_mem_singleton.mpr standsFor
  sublist := by simpa using sublist
  complete := by simpa using complete
  perm := by simp [standsFor.carriesText]

def append (left : Listing first nodes) (right : Listing second others) :
    Listing (first ++ second) (nodes ++ others) where
  entries := left.entries ++ right.entries
  standsFor := forall_mem_append.mpr ⟨left.standsFor, right.standsFor⟩
  sublist := by
    rw [flatMap_append]
    exact left.sublist.append right.sublist
  complete token member isText := by
    rw [flatMap_append, mem_append]
    exact (mem_append.mp member).imp (left.complete token · isText)
      (right.complete token · isText)
  perm := by
    rw [map_append, filter_append]
    exact left.perm.append right.perm

/-- The order of the nodes does not matter. -/
def reorder (listing : Listing taken nodes) (same : nodes.Perm others) :
    Listing taken others :=
  { listing with perm := listing.perm.trans (same.filter _) }

/-- A node that stands for no text. -/
def hide (hidden : node.carriesText = false) (listing : Listing taken nodes) :
    Listing taken (node :: nodes) :=
  { listing with
    perm := by
      rw [filter_cons_of_neg (by simp [hidden])]
      exact listing.perm }

end Listing

theorem Node.ofTrees_singleton (index : Nat) (above : List (Nat × Tree)) (data : NodeData)
    (children : List Tree) :
    ofTrees index above [.node data children] = ⟨index, .node data children, above⟩ ::
        ofTrees (index + 1) ((index, .node data children) :: above) children := by
  simp

namespace Tree.Built

variable {inBody : Bool} {taken : List Token} {trees : List Tree}
  {first : Token} {rest : List (Token × Token)}

theorem isText_of_isModifier {token : Token}
    (isModifier : Parse.isModifier token.kind = true) : token.kind.isText = false := by
  unfold Parse.isModifier at isModifier
  split at isModifier <;> simp_all [TokenKind.isText]

theorem names_sublist (rest : List (Token × Token)) :
    (rest.map (·.2)).Sublist (rest.flatMap fun pair => [pair.1, pair.2]) := by
  induction rest with
  | nil => exact .slnil
  | cons pair rest induction => exact .cons _ (.cons_cons _ induction)

theorem standsFor_dotted {index : Nat} {above : List (Nat × Tree)}
    (isName : first.kind.isIdentifier = true)
    (areNames : ∀ pair ∈ rest, pair.1.kind = .punctuation .dot ∧
      pair.2.kind.isIdentifier = true) :
    Node.StandsFor (first :: rest.map (·.2))
      ⟨index, Tree.dotted first (rest.map (·.2)), above⟩ := by
  cases rest with
  | nil => exact .shows rfl rfl
  | cons pair rest =>
    refine .dotted rfl (forall_mem_cons.mpr ⟨isName, ?_⟩)
    rw [← map_cons, forall_mem_map]
    exact fun pair member => (areNames pair member).2

theorem mem_names_of_isText
    (areNames : ∀ pair ∈ rest, pair.1.kind = .punctuation .dot ∧
      pair.2.kind.isIdentifier = true) :
    ∀ token ∈ first :: rest.flatMap fun pair => [pair.1, pair.2],
      token.kind.isText = true →
      token ∈ first :: rest.map (·.2) := by
  intro token member isText
  rcases mem_cons.mp member with isFirst | later
  · rw [isFirst]
    exact .head _
  · obtain ⟨pair, included, isPart⟩ := mem_flatMap.mp later
    rcases mem_cons.mp isPart with isDot | isName
    · rw [isDot, (areNames pair included).1] at isText
      cases isText
    · rw [mem_singleton.mp isName]
      exact .tail _ (mem_map_of_mem included)

/-- The nodes of trees that were built from tokens, none with a text passed over,
have a listing. -/
theorem nonempty_listing
    (built : Built (fun token => token.kind.isText = false) inBody taken trees)
    (index : Nat) (above : List (Nat × Tree)) :
    Nonempty (Listing taken (Node.ofTrees index above trees)) := by
  induction built generalizing index above with
  | nothing => exact ⟨.unlisted (by simp) (by simp)⟩
  | passed allowed => exact ⟨.unlisted (forall_mem_singleton.mpr allowed) (by simp)⟩
  | append _ _ left right =>
    obtain ⟨ofLeft⟩ := left index above
    obtain ⟨ofRight⟩ := right _ above
    rw [Node.ofTrees_append]
    exact ⟨ofLeft.append ofRight⟩
  | @leaf _ kind token behind children fitting place _ below =>
    obtain ⟨ofBelow⟩ :=
      below (index + 1) ((index, (Tree.leaf kind token).append children) :: above)
    have root :
        Node.StandsFor [token] ⟨index, (Tree.leaf kind token).append children, above⟩ :=
      .shows (NodeKind.isText_of_fits fitting) rfl
    have listing :=
      (Listing.single root (List.Sublist.refl _) fun _ member _ => member).append ofBelow
    exact ⟨listing.reorder (.of_eq (Node.ofTrees_singleton ..).symm)⟩
  | @dotted _ first rest isName areNames =>
    have listing : Listing _ [⟨index, Tree.dotted first (rest.map (·.2)), above⟩] :=
      .single (standsFor_dotted isName areNames) (.cons_cons first (names_sublist rest))
        (mem_names_of_isText areNames)
    exact ⟨listing.reorder (.of_eq (by simp [Tree.dotted]))⟩
  | epsilon =>
    refine ⟨.unlisted (by simp) ?_⟩
    simp [Tree.group, Tree.builtAt, Node.carriesText, Node.kind, Tree.kind,
      NodeKind.isText]
  | @holder _ kind span taken children isHolder origin _ below =>
    obtain ⟨ofBelow⟩ := below (index + 1) ((index, builtAt kind span children) :: above)
    have hidden : Node.carriesText ⟨index, builtAt kind span children,
        above⟩ = false := by
      have notText := NodeKind.not_isText_of_isHolder isHolder
      simpa [Node.carriesText, Node.kind, builtAt, Tree.kind] using notText
    exact ⟨(ofBelow.hide hidden).reorder (.of_eq (Node.ofTrees_singleton ..).symm)⟩
  | @labelled taken children hash label allowed isName _ below =>
    let alternative :=
      (Tree.group .alternative children).withLabel ⟨label.text, label.span⟩
    obtain ⟨ofBelow⟩ := below (index + 1) ((index, alternative) :: above)
    have root : Node.StandsFor [label] ⟨index, alternative, above⟩ := .label rfl rfl rfl
    have ofLabel : Listing [hash, label] [⟨index, alternative, above⟩] := by
      refine .single root (.cons _ (List.Sublist.refl _)) ?_
      simp [allowed]
    refine ⟨(ofBelow.append ofLabel).reorder ?_⟩
    rw [show [alternative] = [.node alternative.data children] from rfl,
      Node.ofTrees_singleton]
    exact perm_append_singleton ..
  | @rule kind modifiers behind name children areModifiers isName fitting _ below =>
    rw [nodes_ofRule]
    let rule := ofRule kind name modifiers children
    have ofModifiers :
        Listing modifiers (Node.ofTrees (index + 2) ((index, rule) :: above)
        (ofModifiers modifiers)) := by
      refine .unlisted (fun token member =>
        isText_of_isModifier (areModifiers token member)) ?_
      intro node member
      rcases mem_ofModifiers member with equal | ⟨token, _, equal⟩
      · simp [Node.carriesText, Node.kind, equal, Tree.group, Tree.builtAt, Tree.kind,
          NodeKind.isText]
      · simp [Node.carriesText, Node.kind, equal, Tree.leaf, Tree.kind, NodeKind.isText]
    have ofName :
        Listing [name] [⟨index + 1, Tree.leaf kind name, (index, rule) :: above⟩] :=
      .single (.shows (NodeKind.isText_of_isName isName) rfl) (List.Sublist.refl _)
        fun _ member _ => member
    obtain ⟨ofBelow⟩ :=
      below (index + 2 + sizeAll (Tree.ofModifiers modifiers)) ((index, rule) :: above)
    have listing := ofModifiers.append (ofName.append ofBelow)
    exact ⟨(listing.reorder perm_middle).hide rfl⟩

end Tree.Built

/-! ## Order

Tokens do not overlap, so nodes that stand for text do not either. -/

namespace Listing

variable {taken : List Token} {nodes : List Node} {node other : Node} {span : Span}
  {entry : List Token × Node}

theorem exists_entry (listing : Listing taken nodes) (member : node ∈ nodes)
    (carries : node.carriesText = true) : ∃ tokens, (tokens, node) ∈ listing.entries := by
  have listed := listing.perm.mem_iff.mpr (mem_filter.mpr ⟨member, carries⟩)
  obtain ⟨⟨tokens, _⟩, isEntry, rfl⟩ := mem_map.mp listed
  exact ⟨tokens, isEntry⟩

theorem mem_nodes (listing : Listing taken nodes) (isEntry : entry ∈ listing.entries) :
    entry.2 ∈ nodes :=
  (mem_filter.mp (listing.perm.mem_iff.mp (mem_map_of_mem isEntry))).1

theorem mem_taken (listing : Listing taken nodes) (isEntry : entry ∈ listing.entries)
    {token : Token} (member : token ∈ entry.1) : token ∈ taken :=
  listing.sublist.subset (mem_flatMap.mpr ⟨entry, isEntry, member⟩)

/-- Entries that stand one behind the other have spans that do. -/
theorem pairwise_entries (listing : Listing taken nodes) (ordered : Token.Ordered taken) :
    listing.entries.Pairwise fun left right => ∀ own other,
      left.2.textSpan? = some own → right.2.textSpan? = some other → own.Apart other := by
  have tokensOrdered := (pairwise_flatMap.mp (ordered.sublist listing.sublist)).2
  refine tokensOrdered.imp_of_mem ?_
  intro left right isLeft isRight before own other ownSpan otherSpan
  obtain ⟨span, leftSpan, ⟨_, last, lastMember, stop⟩, _⟩ :=
    (listing.standsFor left isLeft).exists_span
  obtain ⟨next, rightSpan, ⟨⟨first, firstMember, start⟩, _⟩, _⟩ :=
    (listing.standsFor right isRight).exists_span
  cases leftSpan.symm.trans ownSpan
  cases rightSpan.symm.trans otherSpan
  left
  rw [← stop, ← start]
  exact before last lastMember first firstMember

/-- Two nodes do not stand for the same part of the source. -/
theorem eq_of_encloses (listing : Listing taken nodes) (ordered : Token.Ordered taken)
    (member : node ∈ nodes) (carries : node.carriesText = true)
    (otherMember : other ∈ nodes) (otherCarries : other.carriesText = true)
    (nonempty : span.start < span.stop) {own otherOwn : Span}
    (ownSpan : node.textSpan? = some own) (otherSpan : other.textSpan? = some otherOwn)
    (encloses : own.encloses span = true)
      (otherEncloses : otherOwn.encloses span = true) :
    node = other := by
  let apart (left right : Node) : Prop := ∀ own other,
    left.textSpan? = some own → right.textSpan? = some other → own.Apart other
  have symmetric : Std.Symm apart :=
    ⟨fun left right inOrder own other ownSpan otherSpan =>
      (inOrder other own otherSpan ownSpan).symm⟩
  have entriesApart : (listing.entries.map (·.2)).Pairwise apart :=
    pairwise_map.mpr (listing.pairwise_entries ordered)
  have pairs : (nodes.filter (·.carriesText)).Pairwise apart :=
    (listing.perm.pairwise_iff fun inOrder => symmetric.symm _ _ inOrder).mp entriesApart
  by_contra different
  have isApart := pairs.forall (mem_filter.mpr ⟨member, carries⟩)
    (mem_filter.mpr ⟨otherMember, otherCarries⟩) different
  exact Span.not_apart nonempty encloses otherEncloses
    (isApart own otherOwn ownSpan otherSpan)

end Listing

end GrammarInspector
