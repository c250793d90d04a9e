import Mathlib.Data.List.Basic
import GrammarInspector.Proofs.Grammar.Order
import GrammarInspector.Proofs.Grammar.Shape.Reading

/-! # Names outside and inside of modes

In pre-order all names outside of modes come before those in modes, and on each side names
follow the source. From one side to the other they need not: rules behind a faulty `mode`
line are put outside of modes. Where names of the two sides are out of order, names of
whole rules are.
-/

namespace GrammarInspector

open List

variable {known : Token → Prop} {tree : Tree} {node : Node}

/-! ## Below the root -/

namespace NodeKind

/-- What can stand directly below the root, in front of the rules. -/
def fronts : List NodeKind := .identifier :: sections

theorem of_mem_fronts :
    ∀ kind ∈ .rules :: fronts, kind.isName = false ∧ kind ≠ .mode := by
  decide

theorem ne_grammar_of_pattern {kind child : NodeKind} {parts : List Part}
    (pattern : parts ∈ kind.patterns) {part : Part} (isPart : part ∈ parts)
    (ofKind : child ∈ part.kinds) : child ≠ .grammar := by
  rintro rfl
  revert part parts
  cases kind <;> decide

theorem ne_mode_of_pattern {kind child : NodeKind} (inner : kind ≠ .grammar)
    {parts : List Part} (pattern : parts ∈ kind.patterns) {part : Part}
    (isPart : part ∈ parts) (ofKind : child ∈ part.kinds) : child ≠ .mode := by
  rintro rfl
  revert part parts
  cases kind
  case grammar => exact absurd rfl inner
  all_goals decide

theorem of_pattern_of_rules {kind : NodeKind} (ofKind : kind = .rules ∨ kind = .mode) :
    ∀ parts ∈ kind.patterns, ∀ part ∈ parts, ∀ child ∈ part.kinds, child = .identifier ∨
    child = .rule := by
  rcases ofKind with rfl | rfl <;> decide

end NodeKind

/-- There are no modes below a tree that is no whole grammar. -/
theorem Tree.Stands.kind_ne_mode {above : List NodeKind}
    (stands : tree.Stands known above) (inner : tree.kind ≠ .grammar) {index : Nat}
    {holders : List (Nat × Tree)}
    (member : node ∈ Node.ofTrees index holders tree.children) : node.kind ≠ .mode := by
  induction stands generalizing index holders with
  | node allowed below induction =>
    obtain ⟨child, included, first, inside⟩ := Node.exists_of_mem_ofTrees member
    obtain ⟨parts, pattern, matched⟩ := allowed.pattern
    obtain ⟨part, isPart, ofKind⟩ := matched.exists_part (mem_map_of_mem included)
    obtain ⟨childData, grandchildren⟩ := child
    rw [Node.ofTree_node, mem_cons] at inside
    rcases inside with isChild | deeper
    · rw [isChild]
      exact NodeKind.ne_mode_of_pattern inner pattern isPart ofKind
    · exact induction _ included
        (NodeKind.ne_grammar_of_pattern pattern isPart ofKind) deeper

/-- The first stretch of a pattern. -/
theorem Part.Match.exists_front {part : Part} {parts : List Part} {kinds : List NodeKind}
    (matched : Match (part :: parts) kinds) :
    ∃ front behind, kinds = front ++ behind ∧ part.count.Allows front.length ∧
      (∀ kind ∈ front, kind ∈ part.kinds) ∧ Match parts behind := by
  cases matched with
  | cons allowed ofKinds rest => exact ⟨_, _, rfl, allowed, ofKinds, rest⟩

/-- What a pattern says about the children of a whole grammar. -/
theorem Part.Match.grammar {parts : List Part}
    (pattern : parts ∈ NodeKind.grammar.patterns) {kinds : List NodeKind}
    (matched : Match parts kinds) :
    ∃ front behind, kinds = front ++ .rules :: behind ∧
      (∀ kind ∈ front, kind ∈ NodeKind.fronts) ∧
      ∀ kind ∈ behind, kind = .mode := by
  cases mem_singleton.mp pattern
  obtain ⟨name, _, rfl, _, isName, behindName⟩ := matched.exists_front
  obtain ⟨sections, _, rfl, _, areSections, behindSections⟩ := behindName.exists_front
  obtain ⟨group, _, rfl, single, isGroup, behindGroup⟩ := behindSections.exists_front
  obtain ⟨modes, _, rfl, _, areModes, behindModes⟩ := behindGroup.exists_front
  obtain ⟨kind, rfl⟩ := length_eq_one_iff.mp single
  cases mem_singleton.mp (isGroup kind (.head _))
  cases behindModes
  refine ⟨name ++ sections, modes, by simp, ?_, fun kind member => ?_⟩
  · intro kind member
    rcases mem_append.mp member with isFirst | isSection
    · exact mem_cons.mpr (Or.inl (mem_singleton.mp (isName kind isFirst)))
    · exact mem_cons_of_mem _ (areSections kind isSection)
  · exact mem_singleton.mp (areModes kind member)

theorem Tree.nodes_eq_cons (tree : Tree) :
    tree.nodes = tree.root :: Node.ofTrees 1 [(0, tree)] tree.children := by
  cases tree with
  | node data children => exact Node.ofTree_node ..

/-! ## Nodes in modes -/

namespace Node

/-- Whether a node stands in a mode. -/
def inMode (node : Node) : Bool := node.above.any (·.2.kind = .mode)

/-- What is in a node and of another kind lies below it. -/
theorem below_of_kind_ne {holder : Node} (inside : node ∈ holder.descendants)
    (deeper : node.kind ≠ holder.kind) :
    node ∈ ofTrees (holder.index + 1) ((holder.index, holder.tree) :: holder.above)
      holder.tree.children := by
  obtain ⟨index, ⟨data, children⟩, above⟩ := holder
  rw [descendants, ofTree_node, mem_cons] at inside
  refine inside.resolve_left fun isSame => deeper ?_
  rw [isSame]

/-- Whether everything in a node is ahead of everything in another one. -/
def WhollyBefore (left right : Node) : Prop :=
  ∀ node ∈ left.descendants, ∀ other ∈ right.descendants, node.Ahead other

theorem mem_ofTrees_of_sibling {index : Nat} {above : List (Nat × Tree)}
    {trees : List Tree} {sibling : Node} (included : sibling ∈ siblings index above trees)
    (inside : node ∈ sibling.descendants) : node ∈ ofTrees index above trees :=
  mem_ofTrees_of_mem_descendants trees ((siblings_sublist ..).subset included) inside

end Node

/-- Whether something stands in a mode is seen from the child of the root that
it lies below. -/
theorem Tree.Stands.inMode_eq (stands : tree.Stands known [])
    (ofKind : tree.kind = .grammar) {child : Node} (isChild : child ∈ tree.root.children)
    (inside : node ∈ child.descendants) (deeper : node.kind ≠ child.kind) :
    node.inMode = decide (child.kind = .mode) := by
  have included := Node.tree_mem_children isChild
  obtain ⟨parts, pattern, matched⟩ := stands.allowed.pattern
  obtain ⟨part, isPart, ofPart⟩ := matched.exists_part (mem_map_of_mem included)
  have inner := NodeKind.ne_grammar_of_pattern pattern isPart ofPart
  have above : child.above = [(0, tree)] := Node.above_of_mem_children isChild
  have below := Node.below_of_kind_ne inside deeper
  obtain ⟨index, subtree, _⟩ := child
  cases above
  rw [Node.inMode, eq_comm, Bool.eq_iff_iff, decide_eq_true_iff, any_eq_true]
  constructor
  · intro isMode
    refine ⟨(index, subtree), ?_, decide_eq_true isMode⟩
    exact (Node.above_of_mem_ofTrees _ below).subset (.head _)
  · rintro ⟨⟨number, holder⟩, isHolder, isMode⟩
    obtain ⟨nearer, further, equal⟩ := append_of_mem isHolder
    let mode : Node := ⟨number, holder, further⟩
    have held : (mode.index, mode.tree) :: mode.above <:+ node.above :=
      ⟨nearer, equal.symm⟩
    have ofMode : mode.kind = .mode := of_decide_eq_true isMode
    rcases Node.holder_of_mem_ofTrees _ below held with ⟨member, _⟩ | outside
    · exact absurd ofMode ((stands.child included).kind_ne_mode inner member)
    · rcases mem_cons.mp (outside.subset (.head _)) with isChild | atRoot
      · cases isChild
        exact ofMode
      · cases mem_singleton.mp atRoot
        exact absurd (ofKind.symm.trans ofMode) (by decide)

theorem Node.BuiltFrom.whollyBefore {first second : List Token} {other : Node}
    (left : node.BuiltFrom first) (ordered : Token.Ordered (first ++ second))
    (right : other.BuiltFrom second) : node.WhollyBefore other := by
  obtain ⟨_, _, _, built, member⟩ := left
  obtain ⟨_, _, _, otherBuilt, otherMember⟩ := right
  intro node inside other otherInside
  exact (built.lies (mem_ofTrees_of_mem_descendants _ member inside)).ahead ordered
    (otherBuilt.lies (mem_ofTrees_of_mem_descendants _ otherMember otherInside))

namespace Reading

variable {tokens : List Token} {left right : Node}

/-- A stray and a mode lie apart in the source. -/
theorem whollyBefore_of_stray {modes : List (List Token × ModeSection)}
    (took : ∀ part ∈ modes, TookMode part.1 part.2)
    (ordered : Token.Ordered (modes.flatMap (·.1))) {index otherIndex : Nat}
    {above otherAbove : List (Nat × Tree)} {stray mode : Node}
    (isStray : stray ∈ Node.ofTrees index above (modes.flatMap (·.2.strays)))
    (isMode : mode ∈ Node.ofTrees otherIndex otherAbove (modes.filterMap (·.2.mode))) :
    stray.WhollyBefore mode ∨ mode.WhollyBefore stray := by
  obtain ⟨first, behind, within, tail, ⟨isFirst, isSecond⟩ | ⟨isFirst, _, _, later⟩⟩ :=
    built_of_stray took isStray isMode
  · exact Or.inl (isFirst.whollyBefore (ordered.sublist within.sublist) isSecond)
  · exact Or.inr (isFirst.whollyBefore (ordered.sublist within.sublist)
      ⟨_, _, _, built_strays tail, later⟩)

namespace Division

variable (division : Division tokens) {index : Nat}

/-- A rule outside of modes and a mode lie apart in the source. -/
theorem whollyBefore (inOrder : Token.Ordered tokens) {otherIndex : Nat}
    {above otherAbove : List (Nat × Tree)} {rule mode : Node}
    (isRule : rule ∈ Node.siblings index above division.ruleTrees)
    (isMode : mode ∈ Node.siblings otherIndex otherAbove division.modeTrees) :
    rule.WhollyBefore mode ∨ mode.WhollyBefore rule := by
  have ordered := (pairwise_append.mp (division.ordered inOrder)).2.1
  replace isRule := (Node.siblings_sublist ..).subset isRule
  replace isMode := (Node.siblings_sublist ..).subset isMode
  rw [ruleTrees, Node.ofTrees_append, mem_append] at isRule
  rcases isRule with isDeclared | isStray
  · have built : rule.BuiltFrom division.declaredTokens :=
      ⟨_, _, _, division.tookDeclared.built, isDeclared⟩
    exact Or.inl (built.whollyBefore ordered
      ⟨_, _, _, built_modes division.tookModes, isMode⟩)
  · exact whollyBefore_of_stray division.tookModes (pairwise_append.mp ordered).2.1
      isStray isMode

/-- What stands below the root, apart from modes. -/
def outerTrees : List Tree := division.frontTrees ++ [.group .rules division.ruleTrees]

/-- The nodes below the root that do not belong to modes. -/
def outerNodes : List Node :=
  Node.ofTrees 1 [(0, (ofTokens tokens).tree)] division.outerTrees

def modeNodes : List Node :=
  Node.ofTrees (1 + Tree.sizeAll division.outerTrees) [(0, (ofTokens tokens).tree)]
    division.modeTrees

/-- The children of the root that are no modes. -/
def outerChildren : List Node :=
  Node.siblings 1 [(0, (ofTokens tokens).tree)] division.outerTrees

def modeChildren : List Node :=
  Node.siblings (1 + Tree.sizeAll division.outerTrees) [(0, (ofTokens tokens).tree)]
    division.modeTrees

theorem children_eq :
    (ofTokens tokens).tree.children = division.outerTrees ++ division.modeTrees := by
  rw [division.tree_eq]
  rfl

theorem nodes_eq : (ofTokens tokens).tree.nodes =
    (ofTokens tokens).tree.root :: (division.outerNodes ++ division.modeNodes) := by
  rw [Tree.nodes_eq_cons, division.children_eq, Node.ofTrees_append,
    outerNodes, modeNodes]

theorem root_children :
    (ofTokens tokens).tree.root.children = division.outerChildren ++
      division.modeChildren := by
  rw [Node.children, Tree.root, division.children_eq, Node.siblings_append, outerChildren,
    modeChildren]

/-- The kinds of what stands directly below the root. -/
theorem kinds : (∀ tree ∈ division.outerTrees, tree.kind ∈ .rules :: NodeKind.fronts) ∧
    ∀ tree ∈ division.modeTrees, tree.kind = .mode := by
  obtain ⟨parts, pattern, matched⟩ := (stands_tree tokens).allowed.pattern
  rw [show (ofTokens tokens).tree.kind = .grammar from
    mem_singleton.mp (shaped_tree tokens).ofKinds] at pattern
  obtain ⟨front, behind, equal, ofFront, ofBehind⟩ := matched.grammar pattern
  have frontRules : .rules ∉ front := fun member => absurd (ofFront _ member) (by decide)
  have behindRules : .rules ∉ behind :=
    fun member => absurd (ofBehind _ member) (by decide)
  rw [division.children_eq, outerTrees, append_assoc, map_append] at equal
  obtain ⟨rfl, _, rfl⟩ := (append_cons_inj_of_notMem frontRules behindRules).mp equal.symm
  refine ⟨fun tree member => ?_, fun tree member => ofBehind _ (mem_map_of_mem member)⟩
  rcases mem_append.mp member with inFront | isGroup
  · exact mem_cons_of_mem _ (ofFront _ (mem_map_of_mem inFront))
  · rw [mem_singleton.mp isGroup]
    exact .head _

theorem mem_nodes_of_child {child : Node}
    (isChild : child ∈ division.outerChildren ∨ child ∈ division.modeChildren) :
    child ∈ (ofTokens tokens).tree.nodes := by
  rw [← mem_append, ← division.root_children] at isChild
  exact Tree.child_mem_nodes (Node.ofTree_self_mem ..) isChild

/-- Which names stand in modes. -/
theorem inMode_of_mem {trees : List Tree}
    (areChildren : Node.siblings index [(0, (ofTokens tokens).tree)] trees ⊆
      (ofTokens tokens).tree.root.children)
    (member : node ∈ Node.ofTrees index [(0, (ofTokens tokens).tree)] trees)
    (other : ∀ tree ∈ trees, tree.kind ≠ node.kind) :
    ∃ tree ∈ trees, node.inMode = decide (tree.kind = .mode) := by
  obtain ⟨child, included, inside⟩ := Node.exists_sibling_of_mem member
  have isTree := Node.tree_mem_of_mem_siblings included
  have ofKind := mem_singleton.mp (shaped_tree tokens).ofKinds
  exact ⟨child.tree, isTree, (stands_tree tokens).inMode_eq ofKind
    (areChildren included) inside (other _ isTree).symm⟩

theorem inMode_of_mem_outerNodes (isName : node.kind.isName = true)
    (member : node ∈ division.outerNodes) : node.inMode = false := by
  have facts (tree : Tree) (included : tree ∈ division.outerTrees) :=
    NodeKind.of_mem_fronts tree.kind (division.kinds.1 tree included)
  have other (tree : Tree) (included : tree ∈ division.outerTrees) :
      tree.kind ≠ node.kind := by
    intro same
    cases (facts tree included).1.symm.trans (same ▸ isName)
  obtain ⟨tree, included, equal⟩ :=
    inMode_of_mem (division.root_children ▸ subset_append_left ..) member other
  rw [equal]
  exact decide_eq_false (facts tree included).2

theorem inMode_of_mem_modeNodes (isName : node.kind.isName = true)
    (member : node ∈ division.modeNodes) : node.inMode = true := by
  have other (tree : Tree) (included : tree ∈ division.modeTrees) :
      tree.kind ≠ node.kind := by
    intro same
    rw [← same, division.kinds.2 tree included] at isName
    cases isName
  obtain ⟨tree, included, equal⟩ :=
    inMode_of_mem (division.root_children ▸ subset_append_right ..) member other
  rw [equal]
  exact decide_eq_true (division.kinds.2 tree included)

/-- A name stands below the root in front of the modes, or in one of them. -/
theorem mem_of_name (member : node ∈ (ofTokens tokens).tree.nodes)
    (isName : node.kind.isName = true) :
    node ∈ division.outerNodes ∧ node.inMode = false ∨ node ∈ division.modeNodes ∧
    node.inMode = true := by
  rw [division.nodes_eq, mem_cons, mem_append] at member
  rcases member with isRoot | outside | inside
  · rw [isRoot, Node.kind, Tree.root, division.tree_eq] at isName
    cases isName
  · exact Or.inl ⟨outside, division.inMode_of_mem_outerNodes isName outside⟩
  · exact Or.inr ⟨inside, division.inMode_of_mem_modeNodes isName inside⟩

end Division

/-- In pre-order the names outside of modes come first, and on each side names
follow the source. -/
theorem pairwise_names (ordered : Token.Ordered tokens) :
    ((ofTokens tokens).tree.nodes.filter (·.kind.isName)).Pairwise fun left right =>
      left.inMode = right.inMode ∧ left.Precedes right ∨ left.inMode = false ∧
        right.inMode = true := by
  obtain ⟨division⟩ := nonempty_division tokens
  have outerOrdered := division.ordered ordered
  have modesOrdered := (pairwise_append.mp (pairwise_append.mp outerOrdered).2.1).2.1
  have outerBuilt := division.built_frontTrees.append division.built_ruleTrees
  rw [pairwise_filter, division.nodes_eq, pairwise_cons, pairwise_append]
  refine ⟨?_, ?_, ?_, ?_⟩
  · intro node _ isName
    rw [Node.kind, Tree.root, division.tree_eq] at isName
    cases isName
  · refine (outerBuilt.pairwise_precedes outerOrdered _ _).imp_of_mem ?_
    intro left right leftMember rightMember precedes leftName rightName
    refine Or.inl ⟨?_, precedes⟩
    rw [division.inMode_of_mem_outerNodes leftName leftMember,
      division.inMode_of_mem_outerNodes rightName rightMember]
  · refine ((built_modes division.tookModes).pairwise_precedes modesOrdered _
      _).imp_of_mem ?_
    intro left right leftMember rightMember precedes leftName rightName
    refine Or.inl ⟨?_, precedes⟩
    rw [division.inMode_of_mem_modeNodes leftName leftMember,
      division.inMode_of_mem_modeNodes rightName rightMember]
  · intro left leftMember right rightMember leftName rightName
    exact Or.inr ⟨division.inMode_of_mem_outerNodes leftName leftMember,
      division.inMode_of_mem_modeNodes rightName rightMember⟩

/-! ## Rules out of order -/

theorem exists_part_of_child {child : Node} (member : node ∈ (ofTokens tokens).tree.nodes)
    (isChild : child ∈ node.children) :
    ∃ parts ∈ node.kind.patterns, ∃ part ∈ parts, child.kind ∈ part.kinds := by
  obtain ⟨parts, pattern, matched⟩ := ((stands_tree tokens).of_mem member).allowed.pattern
  exact ⟨parts, pattern,
    matched.exists_part (mem_map_of_mem (Node.tree_mem_children isChild))⟩

/-- What stands directly in the part for rules or in a mode, and holds a
name, is a rule. -/
theorem exists_rule_of_name {holder name : Node}
    (member : holder ∈ (ofTokens tokens).tree.nodes)
    (ofKind : holder.kind = .rules ∨ holder.kind = .mode)
    (inside : name ∈ holder.descendants) (isName : name.kind.isName = true) :
    ∃ rule ∈ (ofTokens tokens).tree.rules, rule ∈ holder.children ∧
    name ∈ rule.descendants := by
  have deeper : name.kind ≠ holder.kind := by
    intro same
    rw [same] at isName
    rcases ofKind with isGroup | isMode
    · cases isGroup ▸ isName
    · cases isMode ▸ isName
  obtain ⟨child, isChild, inChild⟩ :=
    Node.exists_sibling_of_mem (Node.below_of_kind_ne inside deeper)
  have childMember := Tree.child_mem_nodes member isChild
  obtain ⟨parts, pattern, part, isPart, ofPart⟩ := exists_part_of_child member isChild
  rcases NodeKind.of_pattern_of_rules ofKind parts pattern part isPart _ ofPart with
    isIdentifier | isRule
  · have other : name.kind ≠ child.kind := by
      intro same
      rw [same, isIdentifier] at isName
      cases isName
    obtain ⟨grandchild, isGrandchild, _⟩ :=
      Node.exists_sibling_of_mem (Node.below_of_kind_ne inChild other)
    obtain ⟨parts, pattern, part, isPart, _⟩ :=
      exists_part_of_child childMember isGrandchild
    rw [isIdentifier] at pattern
    cases mem_singleton.mp pattern
    cases isPart
  · exact ⟨child, mem_filter.mpr ⟨childMember, decide_eq_true isRule⟩, isChild, inChild⟩

/-- What does not belong to modes precedes them in pre-order. -/
theorem Division.index_lt (division : Division tokens)
    (outside : left ∈ division.outerNodes) (inside : right ∈ division.modeNodes) :
    left.index < right.index := by
  have bounds := Node.index_of_mem_ofTrees _ outside
  have otherBounds := Node.index_of_mem_ofTrees _ inside
  omega

/-- What does not belong to modes stands in front of the rules or below the
part for rules. -/
theorem Division.front_or_group (division : Division tokens)
    (member : node ∈ division.outerNodes) :
    node ∈ Node.ofTrees 1 [(0, (ofTokens tokens).tree)] division.frontTrees ∨
      ∃ index above, ⟨index, .group .rules division.ruleTrees, above⟩ ∈
        division.outerChildren ∧
        node ∈ Node.descendants ⟨index, .group .rules division.ruleTrees, above⟩ := by
  rw [outerNodes, outerTrees, Node.ofTrees_append, mem_append] at member
  rw [outerChildren, outerTrees, Node.siblings_append]
  refine member.imp_right fun inGroup => ?_
  obtain ⟨group, isGroup, below⟩ := Node.exists_sibling_of_mem inGroup
  cases mem_singleton.mp isGroup
  exact ⟨_, _, mem_append_right _ isGroup, below⟩

/-- A name outside of modes precedes a name in a mode, or they belong to rules the second
of which ends before the first begins. -/
theorem precedes_or_rules (ordered : Token.Ordered tokens)
    (leftMember : left ∈ (ofTokens tokens).tree.nodes)
    (leftName : left.kind.isName = true)
    (rightMember : right ∈ (ofTokens tokens).tree.nodes)
    (rightName : right.kind.isName = true) (outside : left.inMode = false)
    (inside : right.inMode = true) :
    left.Precedes right ∨ ∃ rule ∈ (ofTokens tokens).tree.rules,
      ∃ other ∈ (ofTokens tokens).tree.rules,
      rule.index < other.index ∧ other.WhollyBefore rule := by
  obtain ⟨division⟩ := nonempty_division tokens
  have leftOutside :=
    (division.mem_of_name leftMember leftName).resolve_right fun inMode => by
    cases outside.symm.trans inMode.2
  have rightInside :=
    (division.mem_of_name rightMember rightName).resolve_left fun outer => by
    cases inside.symm.trans outer.2
  obtain ⟨mode, isMode, inMode⟩ := Node.exists_sibling_of_mem rightInside.1
  rcases division.front_or_group leftOutside.1 with
    inFront | ⟨index, above, isGroup, below⟩
  · exact Or.inl (division.front_ahead ordered inFront rightInside.1).precedes
  obtain ⟨rule, isRule, ruleChild, inRule⟩ :=
    exists_rule_of_name (division.mem_nodes_of_child (Or.inl isGroup))
      (Or.inl rfl) below leftName
  rcases division.whollyBefore ordered ruleChild isMode with before | behind
  · exact Or.inl (before _ inRule _ inMode).precedes
  · obtain ⟨other, otherRule, otherChild, _⟩ :=
      exists_rule_of_name (division.mem_nodes_of_child (Or.inr isMode))
        (Or.inr (division.kinds.2 _ (Node.tree_mem_of_mem_siblings isMode)))
          inMode rightName
    have ruleInside := Node.mem_descendants_of_mem_children ruleChild
    have otherInside := Node.mem_descendants_of_mem_children otherChild
    refine Or.inr ⟨rule, isRule, other, otherRule, ?_, ?_⟩
    · exact division.index_lt (Node.mem_ofTrees_of_sibling isGroup ruleInside)
        (Node.mem_ofTrees_of_sibling isMode otherInside)
    · exact fun node inside =>
        behind node (Node.mem_ofTree_of_mem_descendants _ otherInside inside)

end Reading

end GrammarInspector
