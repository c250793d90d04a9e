import GrammarInspector.Proofs.Tree.Lineage

/-! # The shape of trees

The kind of a node tells which kinds its children have and how many there are, and
`NodeKind.patterns` is the table of that. The place of a node restricts it further. Rules
do not stand in rules, only the alternatives of a rule have labels, blocks and suffixes
occur in rules alone, and a name that is not a single token is the value of an option.

`Tree.Stands known above tree` says that all nodes of a tree keep to this where the nodes
that hold the tree are of the kinds `above`, the nearest first.
-/

namespace GrammarInspector

open List

/-! ## Patterns -/

/-- How often something occurs. -/
inductive Count where
  | one
  | maybe
  | any
  | some
deriving DecidableEq, Repr

def Count.Allows : Count → Nat → Prop
  | .one, number => number = 1
  | .maybe, number => number ≤ 1
  | .any, _ => True
  | .some, number => 1 ≤ number

/-- A stretch of children, all of them of some kinds. -/
structure Part where
  count : Count
  kinds : List NodeKind
deriving DecidableEq, Repr

/-- Whether the kinds of some children follow a pattern, stretch by stretch. -/
inductive Part.Match : List Part → List NodeKind → Prop
  | nil : Match [] []
  | cons {part : Part} {parts : List Part} {front behind : List NodeKind}
      (allowed : part.count.Allows front.length) (ofKinds : ∀ kind ∈ front,
        kind ∈ part.kinds)
      (rest : Match parts behind) : Match (part :: parts) (front ++ behind)

theorem Part.Match.append {parts others : List Part} {front behind : List NodeKind}
    (first : Match parts front) (second : Match others behind) :
    Match (parts ++ others) (front ++ behind) := by
  induction first with
  | nil => exact second
  | cons allowed ofKinds _ induction =>
    rw [append_assoc]
    exact .cons allowed ofKinds induction

theorem Part.Match.exists_part {parts : List Part} {kinds : List NodeKind}
    (first : Match parts kinds) {kind : NodeKind} (member : kind ∈ kinds) :
    ∃ part ∈ parts, kind ∈ part.kinds := by
  induction first with
  | nil => cases member
  | @cons part parts front behind allowed ofKinds rest induction =>
    rcases mem_append.mp member with inFront | inBehind
    · exact ⟨part, mem_cons_self .., ofKinds kind inFront⟩
    · obtain ⟨other, isPart, ofKind⟩ := induction inBehind
      exact ⟨other, mem_cons_of_mem _ isPart, ofKind⟩

namespace NodeKind

/-- The sections that precede the rules of a grammar. -/
def sections : List NodeKind := [.options, .tokens, .channels, .imports, .namedAction]

/-- The sections that precede the body of a rule or block. -/
def innerSections : List NodeKind := [.options, .namedAction]

def names : List NodeKind := [.ruleRef, .tokenRef]

def alternatives : List NodeKind := [.alternative, .lexerAlternative]

/-- What a label can be given to. -/
def targets : List NodeKind :=
  [.tokenRef, .ruleRef, .literal, .charSet, .wildcard, .complement, .range, .block]

/-- The elements of an alternative that has some. -/
def elements : List NodeKind :=
  [.action, .predicate, .assign, .plusAssign, .optional, .closure,
    .positiveClosure] ++ targets

/-- The values of options. -/
def values : List NodeKind := [.identifier, .literal, .action, .int]

/-- The patterns that the children of a node can follow. -/
def patterns : NodeKind → List (List Part)
  | .grammar =>
      [[⟨.maybe, [.identifier]⟩, ⟨.any, sections⟩, ⟨.one, [.rules]⟩, ⟨.any, [.mode]⟩]]
  | .rules => [[⟨.any, [.rule]⟩]]
  | .mode => [[⟨.one, [.identifier]⟩, ⟨.any, [.rule]⟩]]
  | .rule =>
    [[⟨.one, names⟩, ⟨.maybe, [.ruleModifiers]⟩, ⟨.maybe, [.arguments]⟩,
      ⟨.maybe, [.returns]⟩,
      ⟨.maybe, [.throws]⟩, ⟨.maybe, [.locals]⟩, ⟨.any, innerSections⟩, ⟨.one, [.block]⟩,
      ⟨.any, [.handler]⟩, ⟨.maybe, [.cleanup]⟩]]
  | .ruleModifiers => [[⟨.some, [.ruleModifier]⟩]]
  | .block => [[⟨.any, innerSections⟩, ⟨.some, alternatives⟩]]
  | .alternative =>
    [[⟨.maybe, [.elementOptions]⟩, ⟨.one, [.epsilon]⟩],
      [⟨.maybe, [.elementOptions]⟩, ⟨.some, elements⟩]]
  | .lexerAlternative => [[⟨.one, [.alternative]⟩, ⟨.some, [.identifier, .commandCall]⟩]]
  | .commandCall => [[⟨.one, [.identifier]⟩, ⟨.one, [.identifier, .int]⟩]]
  | .optional | .closure | .positiveClosure => [[⟨.one, [.block]⟩]]
  | .assign | .plusAssign => [[⟨.one, [.identifier]⟩, ⟨.one, values ++ targets⟩]]
  | .complement => [[⟨.one, [.set]⟩]]
  | .set => [[⟨.some, [.tokenRef, .literal, .range, .charSet]⟩]]
  | .range => [[⟨.one, [.literal]⟩, ⟨.one, [.literal]⟩]]
  | .wildcard | .tokenRef | .literal => [[⟨.maybe, [.elementOptions]⟩]]
  | .ruleRef => [[⟨.maybe, [.arguments]⟩, ⟨.maybe, [.elementOptions]⟩]]
  | .elementOptions | .imports => [[⟨.some, [.identifier, .assign]⟩]]
  | .options => [[⟨.any, [.assign]⟩]]
  | .tokens | .channels => [[⟨.any, [.identifier]⟩]]
  | .namedAction => [[⟨.one, [.identifier]⟩, ⟨.maybe, [.identifier]⟩, ⟨.one, [.action]⟩]]
  | .returns | .locals => [[⟨.one, [.arguments]⟩]]
  | .throws => [[⟨.some, [.identifier]⟩]]
  | .handler => [[⟨.one, [.arguments]⟩, ⟨.one, [.action]⟩]]
  | .cleanup => [[⟨.one, [.action]⟩]]
  | .epsilon | .identifier | .ruleModifier | .charSet | .action | .predicate | .arguments
  | .int => [[]]

/-- The kinds of nodes that can stand anywhere. -/
def isFree : NodeKind → Bool
  | .identifier | .rule | .block | .optional | .closure | .positiveClosure => false
  | _ => true

end NodeKind

/-! ## Trees -/

namespace Tree

/-- What the kind and the place of a tree say about its root. -/
structure Allowed (known : Token → Prop) (above : List NodeKind)
    (tree : Tree) : Prop where
  pattern : ∃ parts ∈ tree.kind.patterns, Part.Match parts (tree.children.map kind)
  /-- A plain name shows a token, or it is the value of an option. -/
  named : tree.kind = .identifier → (∃ token, known token ∧ tree.span = some token.span) ∨
    ∃ further, above = .assign :: .options :: further
  /-- Labels are given to alternatives in the body of a rule. -/
  labelled : tree.data.label ≠ none →
    tree.kind = .alternative ∧ ∃ further, above = .block :: .rule :: further
  blocked : tree.kind = .block → .rule ∈ above
  /-- A suffix stands in a rule, over a block. -/
  suffixed : tree.kind.isSuffix = true →
    .rule ∈ above ∧ ∃ block, tree.children = [block] ∧ block.kind = .block
  /-- A rule stands in no other rule. It has one body, of nothing but alternatives. -/
  declared : tree.kind = .rule → .rule ∉ above ∧
    ∃ body, tree.children.filter (·.kind = .block) = [body] ∧
      ∀ child ∈ body.children, child.kind ∈ NodeKind.alternatives

/-- Whether all nodes of a tree may stand where they do. -/
inductive Stands (known : Token → Prop) : List NodeKind → Tree → Prop
  | node {above data children} (allowed : (Tree.node data children).Allowed known above)
    (below : ∀ child ∈ children, child.Stands known (data.kind :: above)) :
    Stands known above (.node data children)

/-- Places in a tree, told by the kinds of the nodes above them, the nearest first. -/
abbrev Place := List NodeKind → Prop

namespace Place

def anywhere : Place := fun _ => True

def inRule : Place := fun above => .rule ∈ above

def outside : Place := fun above => .rule ∉ above

/-- Below a node of the first kind, which is below a node of the next kind, and so on. -/
def below (kinds : List NodeKind) : Place := fun above => kinds <+: above

end Place

/-- A tree of one of some kinds that may stand in places of a sort. -/
structure IsShaped (known : Token → Prop) (place : Place) (kinds : List NodeKind)
    (tree : Tree) : Prop where
  ofKinds : tree.kind ∈ kinds
  stands : ∀ above, place above → tree.Stands known above

/-- Trees side by side that follow a pattern. -/
structure Fill (known : Token → Prop) (place : Place) (parts : List Part)
    (trees : List Tree) : Prop where
  follows : Part.Match parts (trees.map kind)
  stand : ∀ tree ∈ trees, ∀ above, place above → tree.Stands known above

variable {known : Token → Prop} {place inner : Place} {kinds more above : List NodeKind}
  {parts others : List Part} {tree : Tree} {trees behind : List Tree} {kind : NodeKind}
  {span : Option Span}

theorem Allowed.free
    (pattern : ∃ parts ∈ tree.kind.patterns,
      Part.Match parts (tree.children.map Tree.kind))
    (isFree : tree.kind.isFree = true) (noLabel : tree.data.label = none) :
    tree.Allowed known above := by
  refine ⟨pattern, ?_, fun hasLabel => absurd noLabel hasLabel, ?_, ?_, ?_⟩
  · intro isName
    simp [isName, NodeKind.isFree] at isFree
  · intro isBlock
    simp [isBlock, NodeKind.isFree] at isFree
  · intro isSuffix
    cases kind : tree.kind <;> simp_all [NodeKind.isFree, NodeKind.isSuffix]
  · intro isRule
    simp [isRule, NodeKind.isFree] at isFree

namespace IsShaped

theorem mono (isShaped : tree.IsShaped known place kinds)
    (included : ∀ kind ∈ kinds, kind ∈ more) : tree.IsShaped known place more :=
  ⟨included _ isShaped.ofKinds, isShaped.stands⟩

/-- The value of an option can be any name. -/
theorem optionValue {text : String} :
    (Tree.node ⟨.identifier, text, span, none⟩ []).IsShaped
    known (.below [.assign, .options]) [.identifier] := by
  refine ⟨mem_singleton_self _, ?_⟩
  rintro _ ⟨further, rfl⟩
  exact .node ⟨⟨[], .head _, .nil⟩, fun _ => .inr ⟨further, rfl⟩,
    fun hasLabel => absurd rfl hasLabel, nofun, nofun, nofun⟩ nofun

/-- An alternative of a rule can be given a label. -/
theorem withLabel {label : AltLabel}
    (isShaped : tree.IsShaped known (.below [.block, .rule]) [.alternative]) :
    (tree.withLabel label).IsShaped known (.below [.block, .rule]) [.alternative] := by
  obtain ⟨data, children⟩ := tree
  obtain ⟨ofKinds, stands⟩ := isShaped
  refine ⟨ofKinds, ?_⟩
  rintro _ ⟨further, rfl⟩
  have isAlternative : data.kind = .alternative := mem_singleton.mp ofKinds
  have differs {other : NodeKind} (isOther : data.kind = other)
      (different : NodeKind.alternative ≠ other) : False :=
    different (isAlternative.symm.trans isOther)
  cases stands _ ⟨further, rfl⟩ with
  | node allowed below =>
    refine .node ⟨allowed.pattern, ?_, fun _ => ⟨isAlternative, further, rfl⟩, ?_,
      ?_, ?_⟩ below
    · exact fun isName => (differs isName nofun).elim
    · exact fun isBlock => (differs isBlock nofun).elim
    · intro isSuffix
      simp [Tree.kind, isAlternative, NodeKind.isSuffix] at isSuffix
    · exact fun isRule => (differs isRule nofun).elim

end IsShaped

namespace Fill

theorem nil : Fill known place [] [] := ⟨.nil, nofun⟩

theorem part (part : Part) (allowed : part.count.Allows trees.length)
    (each : ∀ tree ∈ trees, tree.IsShaped known place part.kinds) :
    Fill known place [part] trees := by
  refine ⟨?_, fun tree member => (each tree member).stands⟩
  rw [← append_nil (trees.map Tree.kind)]
  refine .cons (by rwa [length_map]) ?_ .nil
  intro kind member
  obtain ⟨tree, isTree, rfl⟩ := mem_map.mp member
  exact (each tree isTree).ofKinds

theorem one (isShaped : tree.IsShaped known place kinds) :
    Fill known place [⟨.one, kinds⟩] [tree] :=
  part ⟨.one, kinds⟩ rfl (forall_mem_singleton.mpr isShaped)

theorem present (isShaped : tree.IsShaped known place kinds) :
    Fill known place [⟨.maybe, kinds⟩] [tree] :=
  part ⟨.maybe, kinds⟩ (Nat.le_refl 1) (forall_mem_singleton.mpr isShaped)

theorem absent : Fill known place [⟨.maybe, kinds⟩] [] :=
  part ⟨.maybe, kinds⟩ (Nat.zero_le 1) nofun

theorem any (each : ∀ tree ∈ trees, tree.IsShaped known place kinds) :
    Fill known place [⟨.any, kinds⟩] trees :=
  part ⟨.any, kinds⟩ trivial each

theorem none : Fill known place [⟨.any, kinds⟩] [] := any nofun

theorem some (nonempty : trees ≠ [])
    (each : ∀ tree ∈ trees, tree.IsShaped known place kinds) :
    Fill known place [⟨.some, kinds⟩] trees :=
  part ⟨.some, kinds⟩ (length_pos_iff.mpr nonempty) each

theorem append (front : Fill known place parts trees)
    (rest : Fill known place others behind) :
    Fill known place (parts ++ others) (trees ++ behind) := by
  refine ⟨?_, forall_mem_append.mpr ⟨front.stand, rest.stand⟩⟩
  rw [map_append]
  exact front.follows.append rest.follows

theorem everywhere (fill : Fill known .anywhere parts trees) :
    Fill known place parts trees :=
  ⟨fill.follows, fun tree member above _ => fill.stand tree member above trivial⟩

/-- One more tree of a stretch that may have any number of them. -/
theorem cons {first : Tree} (fill : Fill known place (⟨.any, kinds⟩ :: parts) trees)
    (isShaped : first.IsShaped known place kinds) :
    Fill known place (⟨.any, kinds⟩ :: parts) (first :: trees) := by
  obtain ⟨follows, stand⟩ := fill
  refine ⟨?_, forall_mem_cons.mpr ⟨isShaped.stands, stand⟩⟩
  rw [map_cons]
  generalize trees.map Tree.kind = found at follows
  cases follows with
  | cons allowed ofKinds rest =>
    rw [← cons_append]
    exact .cons trivial (forall_mem_cons.mpr ⟨isShaped.ofKinds, ofKinds⟩) rest

/-- A node over trees that follow a pattern of its kind. -/
theorem node {data : NodeData} (fill : Fill known inner parts trees)
    (goes : ∀ above, place above → inner (data.kind :: above))
    (pattern : parts ∈ data.kind.patterns) (isFree : data.kind.isFree = true)
    (noLabel : data.label = .none) (ofKinds : data.kind ∈ kinds) :
    (node data trees).IsShaped known place kinds :=
  ⟨ofKinds, fun above holds => .node (.free ⟨parts, pattern, fill.follows⟩ isFree noLabel)
    fun child member => fill.stand child member _ (goes above holds)⟩

theorem builtAt (fill : Fill known .anywhere parts trees)
    (pattern : parts ∈ kind.patterns) (isFree : kind.isFree = true)
    (ofKinds : kind ∈ kinds) :
    (Tree.builtAt kind span trees).IsShaped known place kinds :=
  fill.node (fun _ _ => trivial) pattern isFree rfl ofKinds

theorem inRule (fill : Fill known .inRule parts trees) (pattern : parts ∈ kind.patterns)
    (isFree : kind.isFree = true) (ofKinds : kind ∈ kinds) :
    (Tree.builtAt kind span trees).IsShaped known .inRule kinds :=
  fill.node (fun _ inside => .tail _ inside) pattern isFree rfl ofKinds

theorem outside {data : NodeData} (fill : Fill known .outside parts trees)
    (pattern : parts ∈ data.kind.patterns) (isFree : data.kind.isFree = true)
    (noLabel : data.label = .none) (ofKinds : data.kind ∈ kinds) :
    (Tree.node data trees).IsShaped known .outside kinds := by
  refine fill.node (fun above isOutside => ?_) pattern isFree noLabel ofKinds
  intro member
  rcases mem_cons.mp member with isRule | further
  · rw [← isRule] at isFree
    cases isFree
  · exact isOutside further

theorem leafWith {token : Token} (fill : Fill known .anywhere parts trees)
    (isKnown : known token) (pattern : parts ∈ kind.patterns)
    (isLeaf : kind.fixedText? = .none) (ofKinds : kind ∈ kinds) :
    ((leaf kind token).append trees).IsShaped known place kinds := by
  refine ⟨ofKinds, fun above _ => .node ⟨⟨parts, pattern, fill.follows⟩,
    fun _ => .inl ⟨token, isKnown, rfl⟩, fun hasLabel => absurd rfl hasLabel, ?_, ?_, ?_⟩
    fun child member => fill.stand child member _ trivial⟩
  · intro isBlock
    cases isBlock
    cases isLeaf
  · intro isSuffix
    cases kind <;> cases isLeaf <;> cases isSuffix
  · intro isRule
    cases isRule
    cases isLeaf

theorem block (fill : Fill known inner parts trees)
    (goes : ∀ above, place above → .rule ∈ above ∧ inner (.block :: above))
    (pattern : parts ∈ NodeKind.block.patterns) :
    (Tree.builtAt .block span trees).IsShaped known place [.block] := by
  refine ⟨mem_singleton_self _, fun above holds => ?_⟩
  obtain ⟨inside, further⟩ := goes above holds
  exact .node ⟨⟨parts, pattern, fill.follows⟩, nofun, fun hasLabel => absurd rfl hasLabel,
    fun _ => inside, nofun, nofun⟩ fun child member => fill.stand child member _ further

theorem suffix {block : Tree} (isSuffix : kind.isSuffix = true)
    (isBlock : block.IsShaped known .inRule [.block]) (ofKinds : kind ∈ kinds) :
    (Tree.builtAt kind span [block]).IsShaped known .inRule kinds := by
  have pattern : kind.patterns = [[⟨.one, [.block]⟩]] := by
    cases kind <;> cases isSuffix <;> rfl
  have matched := (one isBlock).follows
  have isBlockKind : block.kind = .block := mem_singleton.mp isBlock.ofKinds
  refine ⟨ofKinds, fun above inside => .node ⟨⟨_, pattern ▸ .head _, matched⟩, ?_,
    fun hasLabel => absurd rfl hasLabel, fun _ => inside,
    fun _ => ⟨inside, block, rfl, isBlockKind⟩, ?_⟩ ?_⟩
  · intro isName
    cases isName
    cases isSuffix
  · intro isRule
    cases isRule
    cases isSuffix
  · exact forall_mem_singleton.mpr (isBlock.stands _ (.tail _ inside))

theorem filter_eq_nil (fill : Fill known place parts trees)
    (noBlock : ∀ part ∈ parts, .block ∉ part.kinds) :
    trees.filter (·.kind = .block) = [] := by
  refine filter_eq_nil_iff.mpr fun tree member isBlock => ?_
  obtain ⟨part, isPart, ofKind⟩ := fill.follows.exists_part (mem_map_of_mem member)
  exact noBlock part isPart (of_decide_eq_true isBlock ▸ ofKind)

/-- A rule, given its children in front of its body and behind it. -/
theorem rule {body : Tree} (front : Fill known .anywhere parts trees)
    (isBody : body.IsShaped known (.below [.rule]) [.block])
    (alternatives : ∀ child ∈ body.children, child.kind ∈ NodeKind.alternatives)
    (rest : Fill known .anywhere others behind)
    (pattern : parts ++ ⟨.one, [.block]⟩ :: others ∈ NodeKind.rule.patterns)
    (noBlock : ∀ part ∈ parts ++ others, .block ∉ part.kinds) :
    (group .rule (trees ++ body :: behind)).IsShaped known .outside [.rule] := by
  obtain ⟨notFront, notBehind⟩ := forall_mem_append.mp noBlock
  have isBlock : body.kind = .block := mem_singleton.mp isBody.ofKinds
  have matched : Part.Match (parts ++ ⟨.one, [.block]⟩ :: others)
      ((trees ++ body :: behind).map Tree.kind) := by
    rw [map_append]
    exact front.follows.append ((one isBody).follows.append rest.follows)
  have only : (trees ++ body :: behind).filter (·.kind = .block) = [body] := by
    rw [filter_append, filter_cons_of_pos (by simp [isBlock]),
      front.filter_eq_nil notFront, rest.filter_eq_nil notBehind]
    rfl
  refine ⟨mem_singleton_self _, fun above isOutside => .node ⟨⟨_, pattern, matched⟩,
    nofun, fun hasLabel => absurd rfl hasLabel, nofun, nofun,
    fun _ => ⟨isOutside, body, only, alternatives⟩⟩ ?_⟩
  refine forall_mem_append.mpr ⟨fun tree member => front.stand tree member _ trivial,
    forall_mem_cons.mpr ⟨isBody.stands _ ⟨above, rfl⟩, fun tree member =>
      rest.stand tree member _ trivial⟩⟩

end Fill

/-! ## Nodes -/

namespace Stands

theorem allowed (stands : tree.Stands known above) : tree.Allowed known above := by
  cases stands with
  | node allowed _ => exact allowed

theorem child (stands : tree.Stands known above) {child : Tree}
    (member : child ∈ tree.children) : child.Stands known (tree.kind :: above) := by
  cases stands with
  | node _ below => exact below child member

theorem of_mem_ofTree (stands : tree.Stands known above) {index : Nat}
    {holders : List (Nat × Tree)} (kinds : holders.map (·.2.kind) = above) {node : Node}
    (member : node ∈ Node.ofTree index holders tree) :
    node.tree.Stands known (node.above.map (·.2.kind)) := by
  induction stands generalizing index holders with
  | @node above data children allowed below induction =>
    rw [Node.ofTree_node, mem_cons] at member
    rcases member with rfl | inside
    · rw [kinds]
      exact .node allowed below
    · obtain ⟨child, included, first, below⟩ := Node.exists_of_mem_ofTrees inside
      apply induction child included _ below
      exact congrArg (data.kind :: ·) kinds

theorem of_mem (stands : tree.Stands known []) {node : Node}
    (member : node ∈ tree.nodes) : node.tree.Stands known (node.above.map (·.2.kind)) :=
  stands.of_mem_ofTree rfl member

/-- A suffix lies in a rule, and it has a block. -/
theorem rule_of_suffix (stands : tree.Stands known []) {suffix : Node}
    (member : suffix ∈ tree.nodes) (isSuffix : suffix.kind.isSuffix = true) :
    ∃ rule ∈ tree.rules, suffix ∈ rule.descendants ∧
      ∃ block, suffix.firstChild? = some block ∧ block.kind = .block := by
  obtain ⟨inRule, block, only, isBlock⟩ :=
    (stands.of_mem member).allowed.suffixed isSuffix
  obtain ⟨rule, ruleMember, inside⟩ := exists_holder_of_mem member inRule
  have first : suffix.firstChild? =
      some ⟨suffix.index + 1, block, (suffix.index, suffix.tree) :: suffix.above⟩ := by
    rw [Node.firstChild?_eq, Tree.firstChild?, only]
    rfl
  exact ⟨rule, ruleMember, inside, _, first, isBlock⟩

end Stands

end Tree

end GrammarInspector
