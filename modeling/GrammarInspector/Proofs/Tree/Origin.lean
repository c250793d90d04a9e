import GrammarInspector.Proofs.Token.Placed
import GrammarInspector.Proofs.Tree.Built

/-! # Where the nodes of built trees come from

Every node of a built tree begins and ends with tokens of its own part of the source. Its
text is the text of its kind, or it is the text of the token that the node was built from.
Names with dots between them are the exception: they are joined, and blanks and comments
between them are dropped. The label of an alternative shows a name.

Names are names of rules or stand in rule bodies, and in pre-order whatever follows a node
that shows text comes later in the source as well. Labels are tokens that no node shows;
those of nodes that do not hold each other follow the source too.
-/

namespace GrammarInspector

open List

/-- Several names with dots between them. -/
structure Token.Joined (first : Token) (rest : List (Token × Token)) : Prop where
  several : rest ≠ []
  isName : first.kind.isIdentifier = true
  areNames : ∀ pair ∈ rest, pair.1.kind = .punctuation .dot ∧
      pair.2.kind.isIdentifier = true

namespace Node

variable {tokens : List Token} {node : Node}

/-- Where the text of a node comes from that was built from some tokens. -/
inductive TextFrom (tokens : List Token) (node : Node) : Prop
  | byKind (text : node.kind.fixedText? = some node.text)
  | byToken {token : Token} (member : token ∈ tokens)
      (plain : node.kind.fixedText? = none)
      (shown : node.kind = .ruleModifier ∨ node.kind.fits token.kind = true)
      (own : node.tree.span = some token.span) (text : node.text = token.text)
  | byNames {first : Token} {rest : List (Token × Token)}
      (together : (first :: rest.flatMap fun pair => [pair.1, pair.2]) <:+: tokens)
      (joined : first.Joined rest)
        (equal : node.tree = Tree.dotted first (rest.map (·.2)))

/-- Where the text, the span and the label of a node come from that was built from
some tokens. -/
structure Worded (tokens : List Token) (node : Node) : Prop where
  text : node.TextFrom tokens
  span : ∀ own, node.tree.span = some own → own.From tokens
  label : ∀ label, node.tree.data.label = some label →
    ∃ token ∈ tokens, token.kind.isIdentifier = true ∧ label = ⟨token.text, token.span⟩

namespace Worded

theorem mono {more : List Token} (worded : node.Worded tokens) (part : tokens <:+: more) :
    node.Worded more where
  text := by
    cases worded.text with
    | byKind text => exact .byKind text
    | byToken member plain shown own text =>
      exact .byToken (part.subset member) plain shown own text
    | byNames together joined equal => exact .byNames (together.trans part) joined equal
  span own isOwn := (worded.span own isOwn).mono part.subset
  label label hasLabel := by
    obtain ⟨token, member, found⟩ := worded.label label hasLabel
    exact ⟨token, part.subset member, found⟩

theorem of_token {token : Token} (member : token ∈ tokens)
    (plain : node.kind.fixedText? = none)
    (shown : node.kind = .ruleModifier ∨ node.kind.fits token.kind = true)
    (own : node.tree.span = some token.span) (text : node.text = token.text)
    (noLabel : node.tree.data.label = none) : node.Worded tokens where
  text := .byToken member plain shown own text
  span span isOwn := by
    cases own.symm.trans isOwn
    exact Span.from_of_mem member
  label _ hasLabel := by cases noLabel.symm.trans hasLabel

theorem of_fits {token : Token} (member : token ∈ tokens)
    (fitting : node.kind.fits token.kind = true) (own : node.tree.span = some token.span)
    (text : node.text = token.text) (noLabel : node.tree.data.label = none) :
    node.Worded tokens := by
  refine .of_token member ?_ (Or.inr fitting) own text noLabel
  have isText := NodeKind.isText_of_fits fitting
  cases kind : node.kind <;> rw [kind] at isText <;> cases isText <;> rfl

theorem of_kind (text : node.kind.fixedText? = some node.text)
    (span : ∀ own, node.tree.span = some own → own.From tokens)
    (noLabel : node.tree.data.label = none) : node.Worded tokens :=
  ⟨.byKind text, span, fun _ hasLabel => by cases noLabel.symm.trans hasLabel⟩

/-- A node that only holds others has the text of its kind. -/
theorem fixed (worded : node.Worded tokens) (isHolder : node.kind.isHolder = true) :
    node.kind.fixedText? = some node.text := by
  have isFixed := NodeKind.fixedText?_of_isHolder isHolder
  cases worded.text with
  | byKind text => exact text
  | byToken _ plain => cases plain.symm.trans isFixed
  | byNames _ _ equal =>
    rw [kind, equal] at isHolder
    cases isHolder

/-- A node that shows a single token has its text and span. -/
theorem shown (worded : node.Worded tokens) (isText : node.kind.isText = true)
    (single : node.kind ≠ .identifier) :
    ∃ token ∈ tokens, node.kind.fits token.kind = true ∧
      node.tree.span = some token.span ∧
      node.text = token.text := by
  cases worded.text with
  | byKind text =>
    generalize node.kind = kind at isText text
    cases kind <;> cases isText <;> cases text
  | @byToken token member _ shown own text =>
    rcases shown with isModifier | fitting
    · rw [isModifier] at isText
      cases isText
    · exact ⟨token, member, fitting, own, text⟩
  | byNames _ _ equal =>
    rw [kind, equal] at single
    exact absurd rfl single

end Worded

/-- What is known of the surroundings of each node of a built tree. -/
structure Sourced (node : Node) : Prop where
  /-- The node that stands for nothing has no place. -/
  unplaced : node.kind = .epsilon → node.tree.anchor = none
  /-- A name stands in a rule body, or it is the name of a rule. -/
  named : node.kind.isName = true → Walk.inBodyOf node.above = true ∨
    ∃ rule, node.parent? = some rule ∧ rule.isRule = true ∧ rule.firstChild? = some node
  /-- A rule stands outside of rule bodies and begins with its name. -/
  declared : node.kind = .rule → node.tree.span = none ∧
      Walk.inBodyOf node.above = false ∧
    ∃ name, node.firstChild? = some name ∧ name.kind.isName = true

theorem Sourced.of_isText (isText : node.kind.isText = true)
    (named : node.kind.isName = true → Walk.inBodyOf node.above = true ∨
      ∃ rule, node.parent? = some rule ∧ rule.isRule = true ∧
      rule.firstChild? = some node) :
    node.Sourced := by
  refine ⟨?_, named, ?_⟩
  · intro isEpsilon
    rw [isEpsilon] at isText
    cases isText
  · intro isRule
    rw [isRule] at isText
    cases isText

/-- A node that is neither a name nor a rule. -/
theorem Sourced.of_neither (notName : node.kind.isName = false)
    (notRule : node.kind ≠ .rule)
    (unplaced : node.kind = .epsilon → node.tree.anchor = none) : node.Sourced where
  unplaced := unplaced
  named isName := by cases notName.symm.trans isName
  declared isRule := absurd isRule notRule

theorem Sourced.of_isHolder (isHolder : node.kind.isHolder = true) : node.Sourced := by
  have notText := NodeKind.not_isText_of_isHolder isHolder
  refine .of_neither (Bool.eq_false_iff.mpr ?_) ?_ ?_
  · exact fun isName => notText (NodeKind.isText_of_isName isName)
  · intro isRule
    rw [isRule] at isHolder
    cases isHolder
  · intro isEpsilon
    rw [isEpsilon] at isHolder
    cases isHolder

end Node

theorem Span.From.precedes {first second : List Token} {left right : Span}
    (ordered : Token.Ordered (first ++ second)) (leftFrom : left.From first)
    (rightFrom : right.From second) : left.stop ≤ right.start := by
  obtain ⟨-, token, member, stop⟩ := leftFrom
  obtain ⟨⟨other, otherMember, start⟩, -⟩ := rightFrom
  rw [← stop, ← start]
  exact (pairwise_append.mp ordered).2.2 token member other otherMember

namespace Node

variable {index : Nat} {above : List (Nat × Tree)} {data : NodeData}
  {children : List Tree} {first second : List Token} {left right : Node}

/-- Whether a node and its label come from some tokens. -/
structure Lies (tokens : List Token) (node : Node) : Prop where
  anchor : ∀ own, node.tree.anchor = some own → own.From tokens
  label : ∀ label, node.tree.data.label = some label → label.span.From tokens

theorem Lies.of_span {token : Token} {node : Node}
    (own : node.tree.span = some token.span)
    (noLabel : node.tree.data.label = none) : node.Lies [token] where
  anchor span begins := by
    cases (Tree.anchor_of_span own).symm.trans begins
    exact Span.from_of_mem (mem_singleton_self token)
  label _ hasLabel := by cases noLabel.symm.trans hasLabel

/-- Whether a node ends before another one begins, and its label before the label of
the other one. -/
structure Ahead (left right : Node) : Prop where
  places : ∀ own other, left.tree.anchor = some own → right.tree.anchor = some other →
    own.stop ≤ other.start
  labels : ∀ own other, left.tree.data.label = some own →
      right.tree.data.label = some other →
    own.span.stop ≤ other.span.start

theorem Lies.ahead (leftLies : left.Lies first)
    (ordered : Token.Ordered (first ++ second))
    (rightLies : right.Lies second) : left.Ahead right where
  places _ _ begins otherBegins :=
    (leftLies.anchor _ begins).precedes ordered (rightLies.anchor _ otherBegins)
  labels _ _ hasLabel otherLabel :=
    (leftLies.label _ hasLabel).precedes ordered (rightLies.label _ otherLabel)

/-- Whether a node is ahead of another one, as far as it shows text or does not hold
the other one. -/
structure Precedes (left right : Node) : Prop where
  places : left.kind.isText = true → right.kind.isModifier = false → ∀ own other,
    left.tree.anchor = some own → right.tree.anchor = some other → own.stop ≤ other.start
  labels : (left.index, left.tree) ∉ right.above → ∀ own other,
    left.tree.data.label = some own → right.tree.data.label = some other →
      own.span.stop ≤ other.span.start

theorem Ahead.precedes (ahead : left.Ahead right) : left.Precedes right :=
  ⟨fun _ _ => ahead.places, fun _ => ahead.labels⟩

theorem Precedes.of_neither (notText : ¬left.kind.isText = true)
    (noLabel : left.tree.data.label = none) : left.Precedes right where
  places isText := absurd isText notText
  labels _ _ _ hasLabel := by cases noLabel.symm.trans hasLabel

/-- Nodes of modifiers show no text and have no label. -/
theorem Precedes.of_modifier
    (isModifier : left.kind.isModifier = true ∧ left.tree.data.label = none) :
    left.Precedes right := by
  refine .of_neither (fun isText => ?_) isModifier.2
  have ofKind := isModifier.1
  generalize left.kind = kind at isText ofKind
  cases kind <;> cases isText <;> cases ofKind

theorem mem_ofTrees_singleton {node : Node} :
    node ∈ ofTrees index above [.node data children] ↔
        node = ⟨index, .node data children, above⟩ ∨
        node ∈ ofTrees (index + 1) ((index, .node data children) :: above) children := by
  simp

theorem pairwise_ofTrees_singleton {relation : Node → Node → Prop} :
    (ofTrees index above [.node data children]).Pairwise relation ↔
      (∀ node ∈ ofTrees (index + 1) ((index, .node data children) :: above) children,
        relation ⟨index, .node data children, above⟩ node) ∧
        (ofTrees (index + 1) ((index, .node data children) :: above) children).Pairwise
          relation := by
  simp

end Node

namespace Tree

variable {tokens modifiers : List Token} {index : Nat} {above : List (Nat × Tree)}
  {node : Node}

theorem exists_of_mem_leaves {kind : NodeKind}
    (member : node ∈ Node.ofTrees index above (tokens.map (leaf kind))) :
    ∃ token ∈ tokens, node.tree = leaf kind token := by
  induction tokens generalizing index with
  | nil => simp at member
  | cons token rest induction =>
    rw [map_cons, Node.ofTrees_cons, mem_append] at member
    rcases member with here | later
    · refine ⟨token, mem_cons_self .., ?_⟩
      rw [leaf, Node.ofTree_node, Node.ofTrees_nil, mem_singleton] at here
      rw [here]
      rfl
    · obtain ⟨other, included, equal⟩ := induction later
      exact ⟨other, mem_cons_of_mem _ included, equal⟩

theorem mem_ofModifiers
    (member : node ∈ Node.ofTrees index above (ofModifiers modifiers)) :
    node.tree = group .ruleModifiers (modifiers.map (leaf .ruleModifier)) ∨
      ∃ token ∈ modifiers, node.tree = leaf .ruleModifier token := by
  rw [ofModifiers] at member
  split at member
  · simp at member
  · rw [group, builtAt, Node.mem_ofTrees_singleton] at member
    rcases member with equal | below
    · exact Or.inl (congrArg Node.tree equal)
    · exact Or.inr (exists_of_mem_leaves below)

theorem isModifier_of_mem
    (member : node ∈ Node.ofTrees index above (ofModifiers modifiers)) :
    node.kind.isModifier = true ∧ node.tree.data.label = none := by
  rw [Node.kind]
  rcases mem_ofModifiers member with equal | ⟨token, _, equal⟩
  · rw [equal]
    exact ⟨rfl, rfl⟩
  · rw [equal]
    exact ⟨rfl, rfl⟩

/-- The nodes of a rule are the rule itself, its name, those of its modifiers and those
of the rest. -/
theorem nodes_ofRule (kind : NodeKind) (name : Token) (modifiers : List Token)
    (children : List Tree) (index : Nat) (above : List (Nat × Tree)) :
    let rule := ofRule kind name modifiers children
    let below := (index, rule) :: above
    Node.ofTrees index above [rule] = ⟨index, rule, above⟩ :: ⟨index + 1,
        leaf kind name, below⟩ ::
        (Node.ofTrees (index + 2) below (ofModifiers modifiers) ++
          Node.ofTrees (index + 2 + sizeAll (ofModifiers modifiers)) below children) := by
  intro rule below
  have sizeLeaf : (leaf kind name).size = 1 := by simp [leaf]
  have nodesLeaf : Node.ofTree (index + 1) below (leaf kind name) =
      [⟨index + 1, leaf kind name, below⟩] := by simp [leaf]
  have opened : rule = .node ⟨.rule, "RULE", none, none⟩
      (leaf kind name :: (ofModifiers modifiers ++ children)) := rfl
  calc Node.ofTrees index above [rule]
      = ⟨index, rule, above⟩ ::
          Node.ofTrees (index + 1) below
            (leaf kind name :: (ofModifiers modifiers ++ children)) := by
        rw [Node.ofTrees_cons, Node.ofTrees_nil, append_nil, opened,
          Node.ofTree_node, ← opened]
    _ = _ := by
        rw [Node.ofTrees_cons, Node.ofTrees_append, nodesLeaf, sizeLeaf]
        rfl

/-- Merging the spans of some tokens stays with the tokens. -/
theorem from_foldl_merge_of_subset {names : List Token} {span : Span}
    (origin : span.From tokens) (included : names ⊆ tokens) :
      (names.foldl (fun span name => span.merge name.span) span).From tokens := by
  induction names generalizing span with
  | nil => exact origin
  | cons name others induction =>
    rw [cons_subset] at included
    exact induction (origin.merge (Span.from_of_mem included.1)) included.2

/-- The span of a dotted name begins and ends with its names. -/
theorem from_foldl_merge (rest : List (Token × Token)) (first : Token) :
    ((rest.map (·.2)).foldl (fun span name => span.merge name.span) first.span).From
      (first :: rest.flatMap fun pair => [pair.1, pair.2]) := by
  refine from_foldl_merge_of_subset (Span.from_of_mem (mem_cons_self ..)) ?_
  intro name member
  obtain ⟨pair, included, rfl⟩ := mem_map.mp member
  exact mem_cons_of_mem _ (mem_flatMap.mpr ⟨pair, included, by simp⟩)

namespace Built

variable {passes : Token → Prop} {inBody : Bool} {taken : List Token}
  {trees : List Tree} {span : Span}

theorem worded (built : Built passes inBody taken trees)
    (member : node ∈ Node.ofTrees index above trees) : node.Worded taken := by
  induction built generalizing index above with
  | nothing => simp at member
  | passed => simp at member
  | append _ _ left right =>
    rw [Node.ofTrees_append, mem_append] at member
    rcases member with first | second
    · exact (left first).mono (prefix_append ..).isInfix
    · exact (right second).mono (suffix_append ..).isInfix
  | leaf fitting _ _ below =>
    rcases Node.mem_ofTrees_singleton.mp member with rfl | inside
    · exact .of_fits (mem_cons_self ..) fitting rfl rfl rfl
    · exact (below inside).mono (suffix_cons ..).isInfix
  | @dotted _ first rest isName areNames =>
    rcases Node.mem_ofTrees_singleton.mp member with rfl | inside
    · cases rest with
      | nil =>
        refine .of_fits (mem_cons_self ..) ?_ rfl rfl rfl
        generalize first.kind = kind at isName
        cases kind <;> cases isName <;> rfl
      | cons pair rest =>
        refine ⟨.byNames infix_rfl ⟨cons_ne_nil _ _, isName, areNames⟩ rfl, ?_, ?_⟩
        · rintro _ ⟨⟩
          exact from_foldl_merge (pair :: rest) first
        · exact fun _ hasLabel => by cases hasLabel
    · simp at inside
  | epsilon =>
    rcases Node.mem_ofTrees_singleton.mp member with rfl | inside
    · exact .of_kind rfl (fun _ own => by cases own) rfl
    · simp at inside
  | holder isHolder origin _ below =>
    rcases Node.mem_ofTrees_singleton.mp member with rfl | inside
    · exact .of_kind (NodeKind.fixedText?_of_isHolder isHolder) origin rfl
    · exact below inside
  | @labelled _ _ hash name _ isName _ below =>
    rcases Node.mem_ofTrees_singleton.mp member with rfl | inside
    · refine ⟨.byKind rfl, (fun _ own => by cases own), ?_⟩
      rintro _ ⟨⟩
      exact ⟨name, by simp, isName, rfl⟩
    · exact (below inside).mono (prefix_append ..).isInfix
  | @rule kind modifiers behind name children _ _ fitting _ below =>
    rw [nodes_ofRule, mem_cons, mem_cons, mem_append] at member
    rcases member with rfl | rfl | inModifiers | later
    · exact .of_kind rfl (fun _ own => by cases own) rfl
    · exact .of_fits (mem_append_right _ (mem_cons_self ..)) fitting rfl rfl rfl
    · obtain ⟨nodeIndex, nodeTree, nodeAbove⟩ := node
      rcases mem_ofModifiers inModifiers with equal | ⟨token, included, equal⟩
      · subst equal
        exact .of_kind rfl (fun _ own => by cases own) rfl
      · subst equal
        exact .of_token (mem_append_left _ included) rfl (Or.inl rfl) rfl rfl rfl
    · refine (below later).mono ?_
      exact ((suffix_cons ..).trans (suffix_append ..)).isInfix

theorem anchor_from (built : Built passes inBody taken trees)
    (member : node ∈ Node.ofTrees index above trees)
      (begins : node.tree.anchor = some span) :
    span.From taken := by
  obtain ⟨other, included, own⟩ := Node.exists_of_mem_of_anchor member begins
  exact (built.worded included).span span own

theorem lies (built : Built passes inBody taken trees)
    (member : node ∈ Node.ofTrees index above trees) : node.Lies taken where
  anchor _ begins := built.anchor_from member begins
  label label hasLabel := by
    obtain ⟨token, isTaken, _, rfl⟩ := (built.worded member).label label hasLabel
    exact Span.from_of_mem isTaken

theorem sourced (built : Built passes inBody taken trees)
    (member : node ∈ Node.ofTrees index above trees)
      (place : Walk.inBodyOf above = inBody) :
    node.Sourced := by
  induction built generalizing index above with
  | nothing => simp at member
  | passed => simp at member
  | append _ _ left right =>
    rw [Node.ofTrees_append, mem_append] at member
    rcases member with first | second
    · exact left first place
    · exact right second place
  | @leaf inBody kind token behind children fitting namePlace _ below =>
    have isText := NodeKind.isText_of_fits fitting
    rcases Node.mem_ofTrees_singleton.mp member with rfl | inside
    · refine .of_isText isText fun isName => Or.inl ?_
      rw [show kind.isName = true from isName] at namePlace
      exact place.trans namePlace
    · have bodyPlace : Node.bodyBelow (Walk.inBodyOf above) kind = inBody := by
        rw [NodeKind.bodyBelow_of_isText isText, place]
      exact below inside bodyPlace
  | dotted =>
    rcases Node.mem_ofTrees_singleton.mp member with rfl | inside
    · exact .of_neither rfl NodeKind.noConfusion NodeKind.noConfusion
    · simp at inside
  | epsilon =>
    rcases Node.mem_ofTrees_singleton.mp member with rfl | inside
    · exact .of_neither rfl NodeKind.noConfusion fun _ => rfl
    · simp at inside
  | @holder inBody kind _ _ _ isHolder _ _ below =>
    rcases Node.mem_ofTrees_singleton.mp member with rfl | inside
    · exact .of_isHolder isHolder
    · have bodyPlace : Node.bodyBelow (Walk.inBodyOf above) kind =
          Node.bodyBelow inBody kind := by
        rw [place]
      exact below inside bodyPlace
  | labelled _ _ _ below =>
    rcases Node.mem_ofTrees_singleton.mp member with rfl | inside
    · exact .of_isHolder rfl
    · exact below inside place
  | rule _ isName fitting _ below =>
    rw [nodes_ofRule, mem_cons, mem_cons, mem_append] at member
    rcases member with rfl | rfl | inModifiers | later
    · refine ⟨NodeKind.noConfusion, (fun isName => by cases isName), fun _ => ?_⟩
      exact ⟨rfl, place, _, rfl, isName⟩
    · exact .of_isText (NodeKind.isText_of_fits fitting) fun _ =>
        Or.inr ⟨_, rfl, rfl, rfl⟩
    · obtain ⟨nodeIndex, nodeTree, nodeAbove⟩ := node
      rcases mem_ofModifiers inModifiers with equal | ⟨token, _, equal⟩
      · subst equal
        exact .of_isHolder rfl
      · subst equal
        exact .of_neither rfl NodeKind.noConfusion NodeKind.noConfusion
    · exact below later place

theorem pairwise_precedes (built : Built passes inBody taken trees)
    (ordered : Token.Ordered taken) (index : Nat) (above : List (Nat × Tree)) :
    (Node.ofTrees index above trees).Pairwise Node.Precedes := by
  induction built generalizing index above with
  | nothing => simp
  | passed => simp
  | append leftBuilt rightBuilt left right =>
    have parts := pairwise_append.mp ordered
    rw [Node.ofTrees_append, pairwise_append]
    refine ⟨left parts.1 _ _, right parts.2.1 _ _, ?_⟩
    exact fun _ member _ otherMember =>
      ((leftBuilt.lies member).ahead ordered (rightBuilt.lies otherMember)).precedes
  | @leaf _ kind token behind children _ _ belowBuilt below =>
    refine Node.pairwise_ofTrees_singleton.mpr
      ⟨?_, below (pairwise_cons.mp ordered).2 _ _⟩
    have tokenOrdered : Token.Ordered ([token] ++ behind) := ordered
    exact fun _ member =>
      ((Node.Lies.of_span rfl rfl).ahead tokenOrdered (belowBuilt.lies member)).precedes
  | dotted => exact Node.pairwise_ofTrees_singleton.mpr (by simp)
  | epsilon => exact Node.pairwise_ofTrees_singleton.mpr (by simp)
  | holder isHolder _ _ below =>
    refine Node.pairwise_ofTrees_singleton.mpr ⟨fun _ _ => ?_, below ordered _ _⟩
    exact .of_neither (NodeKind.not_isText_of_isHolder isHolder) rfl
  | labelled _ _ _ below =>
    refine Node.pairwise_ofTrees_singleton.mpr
      ⟨fun node member => ⟨?_, fun apart => ?_⟩, ?_⟩
    · exact fun isText => by cases isText
    · exact absurd ((Node.above_of_mem_ofTrees _ member).subset (mem_cons_self ..)) apart
    · exact below (pairwise_append.mp ordered).1 _ _
  | @rule kind modifiers behind name children _ _ _ belowBuilt below =>
    have nameOrdered : Token.Ordered ([name] ++ behind) :=
      (pairwise_append.mp ordered).2.1
    rw [nodes_ofRule, pairwise_cons, pairwise_cons, pairwise_append]
    refine ⟨fun _ _ => .of_neither Bool.false_ne_true rfl, ?_, ?_, ?_, ?_⟩
    · intro node member
      rcases mem_append.mp member with inModifiers | later
      · refine ⟨fun _ notModifier => ?_, fun _ _ _ hasLabel => by cases hasLabel⟩
        cases (isModifier_of_mem inModifiers).1.symm.trans notModifier
      · exact ((Node.Lies.of_span rfl rfl).ahead nameOrdered
          (belowBuilt.lies later)).precedes
    · exact pairwise_of_forall_mem_list fun _ member _ _ =>
        .of_modifier (isModifier_of_mem member)
    · exact below (pairwise_append.mp nameOrdered).2.1 _ _
    · exact fun _ member _ _ => .of_modifier (isModifier_of_mem member)

end Built

/-! ## Names that are joined -/

/-- Joined names have the text of the names with dots in between. -/
theorem text_dotted (first : Token) (rest : List Token) :
    (dotted first rest).text = ".".intercalate ((first :: rest).map Token.text) := by
  have each (names : List Token) (text : String) :
      names.foldl (fun text name => text ++ "." ++ name.text) text =
        ".".intercalate (text :: names.map Token.text) := by
    induction names generalizing text with
    | nil => exact (String.intercalate_singleton ..).symm
    | cons name names induction =>
      rw [foldl_cons, induction, map_cons, String.intercalate_cons_cons]
      cases names with
      | nil => simp only [map_nil, String.intercalate_singleton]
      | cons => simp only [map_cons, String.intercalate_cons_cons, String.append_assoc]
  exact each rest first.text

end Tree

end GrammarInspector
