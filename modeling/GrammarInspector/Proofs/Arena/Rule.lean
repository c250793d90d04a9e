import GrammarInspector.Proofs.Arena.Attempt
import GrammarInspector.Proofs.Arena.Element
import GrammarInspector.Proofs.Grammar.Sound.Rule

/-! # Building rules

A rule makes a branch with the tree that reading gives, also if its handlers have a fault.
-/

namespace GrammarInspector

open List

open GrammarInspector.Arena (Branch Trunk Tag IsStable)

namespace Build

variable {flavour : RuleFlavour} {trunk : Trunk} {others before : List Branch}
  {kind : NodeKind} {node : Nat} {data : NodeData} {holder : Option Nat}
  {pending : List Tag} {arena : Arena} {tree : Tree} {trees : List Tree}
  {ids : List Nat}

/-! ## Signatures -/

theorem adds_bracketed? {keyword : Keyword} :
    Adds (Parse.bracketed? keyword kind) (bracketed? keyword kind) := by
  intro parent data trees holder
  refine .read fun found => ?_
  split
  · exact .pure (by rw [append_nil])
  · exact .node fun node => .read fun arguments => .adoptLeaf (.attaches rfl)

theorem mirrors_name (names : List Tree) :
    Mirrors Parse.identifier
      (do let name ← read Parse.identifier
          adopt node (leaf .identifier name)) [⟨node, .node data names, holder⟩]
      fun name _ branches =>
        branches = [⟨node, .node data (names ++ [Tree.leaf .identifier name]), holder⟩] :=
  .ofReturn (.read fun _ => .leaf fun _ => .attaches rfl)

theorem adds_throws? : Adds Parse.throws? throws? := by
  intro parent data trees holder
  refine .read fun found => ?_
  split
  · exact .pure (by rw [append_nil])
  · refine .node fun node => ?_
    refine ((mirrors_separated mirrors_name []).frame _).bind ?_
    rintro names _ _ ⟨_, rfl, rfl⟩
    exact .attaches rfl

theorem adds_signature : Adds (Parse.signature flavour) (signature flavour) := by
  intro parent data trees holder
  unfold Parse.signature signature
  split
  · refine adds_arguments?.bind fun arguments _ => ?_
    refine adds_bracketed?.bind fun returns _ => ?_
    refine adds_throws?.bind fun throws _ => ?_
    refine (adds_bracketed? parent data _ holder).returns ?_
    rintro locals _ _ rfl
    simp
  · exact .pure (by rw [append_nil])

/-! ## Labels -/

/-- Whether labels were read for different nodes, each of which is a child. -/
structure Given (tags : List Tag) (arena : Arena) : Prop where
  attached : ∀ tag ∈ tags, ∃ parent, arena.parent? tag.alternative = some parent
  distinct : (tags.map (·.alternative)).Nodup

theorem isStable_given {tags : List Tag} : IsStable (Given tags) :=
  fun _ _ _ given legal => ⟨fun tag member =>
    (given.attached tag member).imp fun _ => Arena.parent?_step legal, given.distinct⟩

/-- What is known of the labels that were read for a rule, all of them for children
of its body. -/
structure OfBody (kept pending : List Tag) (rule body : Nat) (arena : Arena) : Prop where
  given : Given (kept ++ pending) arena
  rule : ∀ tag ∈ pending, tag.rule = rule
  parent : ∀ tag ∈ pending, arena.parent? tag.alternative = some body

theorem isStable_ofBody {kept : List Tag} {rule body : Nat} :
    IsStable (OfBody kept pending rule body) :=
  fun lines arena change ofBody legal =>
    ⟨isStable_given lines arena change ofBody.given legal,
    ofBody.rule, fun tag member => Arena.parent?_step legal (ofBody.parent tag member)⟩

/-- What is left of a rule that fails: its labels, which no other branch has. -/
def Spoils (trunk : Trunk) (others : List Branch) (arena : Arena) : Prop :=
  ∃ pending, arena.Bears { trunk with pending } others ∧ ∀ tag ∈ pending,
    tag.alternative ≠ Arena.root ∧ ∀ branch ∈ others,
      ¬arena.Above branch.id tag.alternative

theorem Spoils.of_below {branch : Branch} (forest : arena.IsForest)
    (bears : arena.Bears { trunk with pending } (branch :: others))
    (below : ∀ tag ∈ pending, arena.Above branch.id tag.alternative) :
    Spoils trunk others arena := by
  obtain ⟨hasBranch, apart, rest⟩ := Arena.Bears.cons_iff.mp bears
  refine ⟨pending, rest, fun tag member =>
    ⟨fun isRoot => ?_, fun other isOther above => ?_⟩⟩
  · have ofRoot := below tag member
    rw [isRoot] at ofRoot
    exact hasBranch.notRoot (ofRoot.eq_of_parent?_eq_none forest.root)
  · rcases (below tag member).or_above above with first | second
    · exact (apart other isOther).1 first
    · exact (apart other isOther).2 second

theorem Spoils.sublist {fewer : List Branch} (spoils : Spoils trunk others arena)
    (isSublist : fewer.Sublist others) : Spoils trunk fewer arena := by
  obtain ⟨pending, bears, apart⟩ := spoils
  refine ⟨pending, bears.sublist isSublist, fun tag member => ⟨(apart tag member).1, ?_⟩⟩
  exact fun branch included => (apart tag member).2 branch (isSublist.subset included)

theorem Spoils.of_bears (bears : arena.Bears { trunk with pending := [] } others) :
    Spoils trunk others arena :=
  ⟨[], bears, fun _ member => (not_mem_nil member).elim⟩

/-! ## Bodies -/

/-- Whether the labels of the alternatives of a body are pending. -/
def Pends (trunk : Trunk) (others : List Branch) (rule body : Nat) (tree : Tree)
    (arena : Arena) : Prop :=
  ∃ pending, arena.Bears { trunk with pending } (⟨body, tree, none⟩ :: others) ∧
    OfBody trunk.kept pending rule body arena ∧
    pending.map (·.label) = tree.children.filterMap (·.data.label)

theorem Pends.spoils {rule body : Nat} (forest : arena.IsForest)
    (pends : Pends trunk others rule body tree arena) : Spoils trunk others arena := by
  obtain ⟨pending, bears, ofBody, _⟩ := pends
  exact .of_below forest bears fun tag member => .step (ofBody.parent tag member) .refl

section Alternatives

variable {rule body : Nat} {alternative : Tree}

/-- An alternative that has just been attached. -/
structure Attached (trunk : Trunk) (others : List Branch) (rule body : Nat)
    (data : NodeData)
    (trees : List Tree) (pending : List Tag) (node : Nat) (alternative : Tree)
    (before : Arena) : Prop where
  forest : before.IsForest
  bears : before.Bears { trunk with pending }
    (⟨node, alternative, none⟩ :: ⟨body, .node data trees, none⟩ :: others)
  given : Given (trunk.kept ++ pending) before
  ofBody : OfBody trunk.kept pending rule body (before.attach body node)
  labels : pending.map (·.label) = trees.filterMap (·.data.label)

theorem Attached.pends
    (attached : Attached trunk others rule body data trees pending node alternative arena)
    (noLabel : alternative.data.label = none) :
    Pends trunk others rule body (.node data (trees ++ [alternative]))
      (arena.attach body node) := by
  refine ⟨pending, attached.bears.attach attached.forest, attached.ofBody, ?_⟩
  simpa [noLabel] using attached.labels

theorem Attached.push {label : AltLabel}
    (attached : Attached trunk others rule body data trees pending node
      alternative arena) :
    Pends trunk others rule body (.node data (trees ++ [alternative.withLabel label]))
      ((arena.attach body node).step (.push ⟨label, rule, node⟩)) := by
  obtain ⟨forest, bears, given, ofBody, labels⟩ := attached
  obtain ⟨hasNode, _, _⟩ := Arena.Bears.cons_iff.mp bears
  have noTag : ∀ old ∈ trunk.kept ++ pending, old.alternative ≠ node := by
    rintro old member rfl
    obtain ⟨parent, isParent⟩ := given.attached old member
    rw [hasNode.parent] at isParent
    cases isParent
  have tags : arena.tags = trunk.kept ++ pending := by
    rw [Arena.tags, bears.trunk.kept, bears.trunk.pending]
  have isParent : (arena.attach body node).parent? node = some body := by
    rw [Arena.parent?_attach hasNode.holds.lt_size, if_pos rfl]
  let tag : Tag := ⟨label, rule, node⟩
  refine ⟨pending ++ [tag], ?_, ⟨⟨?_, ?_⟩, ?_, ?_⟩, ?_⟩
  · -- The label could as well have been given before the node was attached.
    change ((arena.step (.push tag)).attach body node).Bears _ _
    cases alternative with
    | node under below =>
      refine Arena.Bears.attach (forest.of_sameLinks (Arena.sameLinks_of_entries rfl)) ?_
      exact Arena.Bears.push tag forest bears (tags ▸ noTag)
  · rw [← append_assoc, forall_mem_append, forall_mem_singleton]
    exact ⟨ofBody.given.attached, body, isParent⟩
  · rw [← append_assoc, map_append, nodup_append]
    refine ⟨given.distinct, by simp, ?_⟩
    intro id member other isNode same
    rw [map_singleton, mem_singleton] at isNode
    obtain ⟨old, isOld, rfl⟩ := mem_map.mp member
    exact noTag old isOld (same.trans isNode)
  · exact forall_mem_append.mpr ⟨ofBody.rule, forall_mem_singleton.mpr rfl⟩
  · exact forall_mem_append.mpr ⟨ofBody.parent, forall_mem_singleton.mpr isParent⟩
  · cases alternative
    simp [tag, labels, Tree.withLabel, Tree.data, Tree.children]

/-- The label of an alternative is read when the alternative has been attached. -/
theorem follows_label (pending : List Tag) (noLabel : alternative.data.label = none) :
    Follows
    (do if flavour = .parser then
          match ← Parse.eat (.punctuation .hash) with
          | none => return alternative
          | some _ =>
            let label ← Parse.identifier
            return alternative.withLabel ⟨label.text, label.span⟩
        else return alternative)
    (do if flavour = .parser then
          match ← read (Parse.eat (.punctuation .hash)) with
          | none => return ()
          | some _ =>
            let name ← read Parse.identifier
            push ⟨⟨name.text, name.span⟩, rule, node⟩
        else return ())
    (fun arena => ∃ before, arena = before.attach body node ∧
      Attached trunk others rule body data trees pending node alternative before)
    (fun tree _ => Pends trunk others rule body (.node data (trees ++ [tree])))
    (Spoils trunk others) := by
  have plain (arena : Arena) : (∃ before, arena = before.attach body node ∧
      Attached trunk others rule body data trees pending node alternative before) →
      Pends trunk others rule body (.node data (trees ++ [alternative])) arena := by
    rintro ⟨before, rfl, attached⟩
    exact attached.pends noLabel
  split
  · refine .read (fun arena forest known => (plain arena known).spoils forest)
      fun hash => ?_
    cases hash with
    | none => exact .pure plain
    | some hash =>
      refine .read (fun arena forest known => (plain arena known).spoils forest)
        fun name => ?_
      rintro lines _ tokens _ ⟨before, rfl, attached⟩
      obtain ⟨hasNode, _⟩ := Arena.Bears.cons_iff.mp attached.bears
      have inside : node < (before.attach body node).size := by
        rw [Arena.size_attach]
        exact hasNode.holds.lt_size
      exact ⟨.cons inside .nil, .done attached.push⟩
  · exact .pure plain

theorem follows_ruleAlternative : Follows (Parse.ruleAlternative flavour)
    (ruleAlternative flavour rule body) (Pends trunk others rule body (.node data trees))
    (fun tree _ => Pends trunk others rule body (.node data (trees ++ [tree])))
    (Spoils trunk others) := by
  rintro lines arena tokens forest ⟨pending, bears, ofBody, labels⟩
  have makes : Makes (Parse.alternative (Parse.block flavour) flavour) _ :=
    makes_alternative makes_block
  have first := makes.knowing fun _ _ _ => Parse.label_of_alternative
  refine first.bindFollows isStable_ofBody ?_ ?_ lines arena tokens forest ⟨bears, ofBody⟩
  · exact fun arena forest bears ofBody => .of_below forest bears fun tag member =>
      .step (ofBody.parent tag member) .refl
  · rintro tree node _ ⟨rfl, noLabel⟩
    refine Follows.act ?_ fun _ => follows_label pending noLabel
    rintro lines arena tokens forest ⟨bears, ofBody⟩
    have legal : (Arena.Step.attach body node).IsLegal lines arena := bears.isLegal_attach
    exact ⟨.cons legal .nil, .done ⟨arena, rfl, forest, bears, ofBody.given,
      isStable_ofBody lines arena _ ofBody legal, labels⟩⟩

theorem follows_alternatives :
    Follows (Parse.separated .bar (Parse.ruleAlternative flavour))
      (separated .bar (ruleAlternative flavour rule body))
      (Pends trunk others rule body (.node data []))
      (fun trees _ => Pends trunk others rule body (.node data trees))
      (Spoils trunk others) := by
  have each (trees : List Tree) : Follows (Parse.ruleAlternative flavour)
      (ruleAlternative flavour rule body)
        (Pends trunk others rule body (.node data trees))
      (fun tree _ => Pends trunk others rule body (.node data (trees ++ [id tree])))
      (Spoils trunk others) := follows_ruleAlternative
  refine (follows_separated (fun _ _ forest pends => pends.spoils forest) each []).mono ?_
    fun _ spoils => spoils
  intro trees _ arena pends
  rwa [map_id, nil_append] at pends

end Alternatives

theorem follows_ruleBody {rule : Nat} : Follows (Parse.ruleBody flavour)
    (ruleBody flavour rule)
    (fun arena => arena.Bears { trunk with pending := [] } others ∧
      Given trunk.kept arena)
    (fun tree body arena => tree.kind = .block ∧ Pends trunk others rule body tree arena)
    (Spoils trunk others) := by
  refine .read (fun _ _ ⟨bears, _⟩ => .of_bears bears) fun colon => ?_
  refine Follows.act ?_ fun node => follows_alternatives.bind fun trees _ =>
    .pure fun _ pends => ⟨rfl, pends⟩
  rintro lines arena tokens forest ⟨bears, given⟩
  have noTag (tag : Tag) : tag ∉ [] := not_mem_nil
  have legal : Arena.AreLegal lines arena
      (nodeAt .block colon.span lines arena tokens).steps := .cons rfl .nil
  refine ⟨legal, .done ⟨[], bears.alloc forest _ _, ⟨?_, ?_, ?_⟩, rfl⟩⟩
  · rw [append_nil]
    exact legal.keeps (isStable_given lines) given prefix_rfl
  · exact fun tag member => (noTag tag member).elim
  · exact fun tag member => (noTag tag member).elim

/-! ## Handlers -/

theorem makes_handler : Makes Parse.handler handler := by
  refine .read fun keyword => .node fun node => .read fun arguments =>
    .leaf fun first => ?_
  exact .read fun body => .leaf fun second => .attachBoth (.pure rfl)

theorem makes_cleanup : Makes Parse.cleanup cleanup := by
  refine .read fun keyword => .node fun node => .read fun body => ?_
  exact .adoptLeaf (.pure rfl)

theorem reaches_handlers {lines : LineIndex} {trunk : Trunk} {others : List Branch}
    {rule : Nat} (forest : arena.IsForest)
    (bears : arena.Bears trunk (⟨rule, .node data trees, holder⟩ :: others))
    (tokens : List Token) :
    (handlers rule lines arena tokens).Reaches lines arena (Parse.handlers tokens).rest
      (·.Bears trunk (⟨rule, .node data (trees ++ (Parse.handlers tokens).trees),
        holder⟩ :: others)) := by
  fun_induction Parse.handlers tokens generalizing arena trees with
  | case1 tokens isCatch expected rest isRead =>
    have fits := makes_handler.triesBranch lines arena tokens forest bears
    obtain ⟨legal, isFailed, same⟩ := fits.of_failed isRead
    unfold handlers
    simp only [isCatch, isFailed]
    exact ⟨legal, rfl, by rwa [append_nil]⟩
  | case2 tokens isCatch tree rest isRead shorter following =>
    rename_i induction
    have fits := makes_handler.triesBranch lines arena tokens forest bears
    obtain ⟨legal, isDone, grown⟩ := fits.of_done isRead
    have further := (induction (forest.after legal) grown).prepend legal
    unfold handlers
    simp only [isCatch, isDone, if_pos shorter]
    rwa [append_assoc] at further
  | case3 tokens isCatch tree rest isRead longer =>
    have fits := makes_handler.triesBranch lines arena tokens forest bears
    obtain ⟨legal, isDone, grown⟩ := fits.of_done isRead
    unfold handlers
    simp only [isCatch, isDone, if_neg longer]
    exact ⟨legal, rfl, grown⟩
  | case4 tokens isFinally expected rest isRead =>
    have fits := makes_cleanup.triesBranch lines arena tokens forest bears
    obtain ⟨legal, isFailed, same⟩ := fits.of_failed isRead
    unfold handlers
    simp only [isFinally, isFailed]
    exact ⟨legal, rfl, by rwa [append_nil]⟩
  | case5 tokens isFinally tree rest isRead =>
    have fits := makes_cleanup.triesBranch lines arena tokens forest bears
    obtain ⟨legal, isDone, grown⟩ := fits.of_done isRead
    unfold handlers
    simp only [isFinally, isDone]
    exact ⟨legal, rfl, grown⟩
  | case6 tokens notCatch notFinally =>
    unfold handlers
    simp only
    exact ⟨.nil, rfl, by rwa [append_nil]⟩

/-! ## Whole rules -/

/-- Branches that are not attached. -/
def loose (ids : List Nat) (trees : List Tree) : List Branch :=
  List.zipWith (⟨·, ·, none⟩) ids trees

theorem mirrors_modifierLeaves (tokens : List Token) :
    Mirrors (pure ()) (modifierLeaves tokens) before fun _ ids branches =>
      ids.length = tokens.length ∧
        branches.Perm (loose ids (tokens.map (.leaf .ruleModifier)) ++ before) := by
  induction tokens generalizing before with
  | nil => exact .pure ⟨rfl, .refl _⟩
  | cons token rest induction =>
    refine .leaf fun first => induction.act ?_
    rintro ids branches ⟨length_eq, isPerm⟩
    exact .pure ⟨by simp [length_eq], isPerm.trans perm_middle⟩

theorem mirrors_attachAll {parent : Nat} {below : List Tree}
    (length_eq : ids.length = trees.length) :
    Mirrors (pure ()) (attachAll parent ids)
      (⟨parent, .node data below, holder⟩ :: (loose ids trees ++ before))
        fun _ _ branches =>
        branches = ⟨parent, .node data (below ++ trees), holder⟩ :: before := by
  induction ids generalizing trees below with
  | nil =>
    cases trees with
    | nil => exact .pure (by rw [append_nil]; rfl)
    | cons tree rest => cases length_eq
  | cons child ids induction =>
    cases trees with
    | nil => cases length_eq
    | cons tree rest =>
      refine .attachOlder ?_
      refine (induction (Nat.succ.inj length_eq)).mono ?_
      rintro _ _ _ rfl
      rw [append_assoc]
      rfl

/-- The name of a rule with its modifiers. -/
def headTrees : Parse (List Tree × RuleFlavour) := do
  let modifiers ← Parse.modifiers
  let (name, flavour) ← Parse.ruleName
  return (name :: modifiers, flavour)

theorem ruleDeclaration_eq : Parse.ruleDeclaration = (do
    let (front, flavour) ← headTrees
    let signature ← Parse.signature flavour
    let sections ← Parse.prequels
    let body ← Parse.ruleBody flavour
    let _ ← Parse.mark .semicolon
    return (Tree.group .rule (front ++ signature ++ sections ++ [body]), flavour)) := by
  funext tokens
  unfold Parse.ruleDeclaration headTrees
  simp only [Parse.bind_apply]
  cases Parse.modifiers tokens with
  | failed expected rest => rfl
  | done modifiers rest =>
    dsimp only
    cases Parse.ruleName rest <;> rfl

/-- A rule whose modifiers have been made and whose name has been read. -/
theorem mirrors_ruleNode {name : Token} {modifiers : List Token}
    (length_eq : ids.length = modifiers.length) :
    Mirrors (pure (Tree.leaf kind name :: if modifiers.isEmpty then []
        else [Tree.group .ruleModifiers (modifiers.map (.leaf .ruleModifier))], flavour))
      (do let node ← nodeAt .rule none
          adopt node (leaf kind name)
          if ids.isEmpty then pure ()
          else
            let group ← nodeAt .ruleModifiers none
            attachAll group ids
            attach node group
          return (node, flavour)) (loose ids (modifiers.map (.leaf .ruleModifier)))
      fun found result branches =>
        found.2 = result.2 ∧ branches = [⟨result.1, .group .rule found.1, none⟩] := by
  refine .node fun node => .adoptLeaf ?_
  cases ids with
  | nil =>
    have none : modifiers = [] := length_eq_zero_iff.mp length_eq.symm
    subst none
    exact .pure ⟨rfl, rfl⟩
  | cons first rest =>
    cases modifiers with
    | nil => cases length_eq
    | cons token tokens =>
      refine .node fun group => ?_
      refine .perm ?_ ((perm_append_singleton ..).symm.cons _)
      refine (mirrors_attachAll (length_eq.trans (length_map _).symm)).act ?_
      rintro _ _ rfl
      exact .attach (.pure ⟨rfl, rfl⟩)

theorem mirrors_ruleHead : Mirrors headTrees ruleHead [] fun found result branches =>
    found.2 = result.2 ∧ branches = [⟨result.1, .group .rule found.1, none⟩] := by
  unfold headTrees Parse.modifiers Parse.ruleName
  refine .assoc (.read fun tokens => ?_)
  refine (mirrors_modifierLeaves tokens).act ?_
  rintro modifiers branches ⟨length_eq, isPerm⟩
  rw [append_nil] at isPerm
  refine .perm ?_ isPerm
  rw [← apply_ite pure]
  change Mirrors (_ >>= _ >>= _) _ _ _
  refine .assoc (.read fun name => ?_)
  by_cases isToken : name.kind = .tokenRef
  · simp only [if_pos isToken]
    exact mirrors_ruleNode length_eq
  · simp only [if_neg isToken]
    exact mirrors_ruleNode length_eq

/-- Whether the labels of a rule are pending. -/
def Declares (trunk : Trunk) (others : List Branch) (rule : Nat) (tree : Tree)
    (arena : Arena) : Prop :=
  ∃ body pending, arena.Bears { trunk with pending } (⟨rule, tree, none⟩ :: others) ∧
    OfBody trunk.kept pending rule body arena ∧ arena.parent? body = some rule ∧
    ∃ block ∈ tree.children, block.kind = .block ∧
      pending.map (·.label) = block.children.filterMap (·.data.label)

theorem Declares.spoils {rule : Nat} (forest : arena.IsForest)
    (declares : Declares trunk others rule tree arena) : Spoils trunk others arena := by
  obtain ⟨body, pending, bears, ofBody, isParent, _⟩ := declares
  exact .of_below forest bears fun tag member =>
    .step (ofBody.parent tag member) (.step isParent .refl)

theorem follows_adoptBody :
    Follows (Parse.ruleBody flavour) (adopt node (ruleBody flavour node))
      (fun arena => arena.Bears { trunk with pending := [] }
        (⟨node, .node data trees, none⟩ :: others) ∧ Given trunk.kept arena)
      (fun tree _ => Declares trunk others node (.node data (trees ++ [tree])))
      (Spoils trunk others) := by
  refine .ofReturn ((follows_ruleBody.mono (fun _ _ _ holds => holds) fun _ spoils =>
    spoils.sublist (sublist_cons_self ..)).bind fun tree body lines arena tokens forest =>
      ?_)
  rintro ⟨isBlock, pending, bears, ofBody, labels⟩
  have legal : (Arena.Step.attach node body).IsLegal lines arena := bears.isLegal_attach
  obtain ⟨hasBody, _⟩ := Arena.Bears.cons_iff.mp bears
  refine ⟨.cons legal .nil, .done ⟨body, pending, bears.attach forest,
    isStable_ofBody lines arena _ ofBody legal, ?_, tree, ?_, isBlock, labels⟩⟩
  · change (arena.attach node body).parent? body = some node
    rw [Arena.parent?_attach hasBody.holds.lt_size, if_pos rfl]
  · exact mem_append_right _ (mem_singleton_self tree)

theorem follows_ruleDeclaration : Follows Parse.ruleDeclaration ruleDeclaration
    (fun arena => arena.Bears { trunk with pending := [] } others ∧
      Given trunk.kept arena)
    (fun found result arena => found.2 = result.2 ∧
      Declares trunk others result.1 found.1 arena) (Spoils trunk others) := by
  rw [ruleDeclaration_eq]
  have fails (arena : Arena) (_ : arena.IsForest)
      (bears : arena.Bears { trunk with pending := [] } others)
        (_ : Given trunk.kept arena) :
      Spoils trunk others arena := .of_bears bears
  refine mirrors_ruleHead.bindFollows isStable_given fails ?_
  rintro ⟨front, flavour⟩ ⟨node, _⟩ _ ⟨rfl, rfl⟩
  refine (adds_signature node _ front none).bindFollows isStable_given fails ?_
  rintro signature _ _ rfl
  refine (adds_prequels node _ _ none).bindFollows isStable_given fails ?_
  rintro sections _ _ rfl
  refine follows_adoptBody.bind fun body _ => ?_
  refine .read (fun _ forest declares => declares.spoils forest) fun _ => ?_
  exact .pure fun _ declares => ⟨rfl, declares⟩

/-- The tree of a rule. -/
def ruleTree : Parse Tree := do
  let (tree, _) ← Parse.rule
  return tree

theorem follows_rule : Follows ruleTree rule
    (fun arena => arena.Bears { trunk with pending := [] } others ∧
      Given trunk.kept arena)
    (fun tree node => Declares trunk others node tree) (Spoils trunk others) := by
  intro lines arena tokens forest holds
  obtain ⟨legal, agree⟩ := follows_ruleDeclaration lines arena tokens forest holds
  have later := forest.after legal
  rw [ruleTree, Parse.bind_apply, Parse.rule, rule, bind_apply]
  generalize ruleDeclaration lines arena tokens = built at legal agree later
  generalize Parse.ruleDeclaration tokens = read at agree
  obtain ⟨steps, outcome⟩ := built
  dsimp only at legal agree later ⊢
  cases agree with
  | failed holds => exact ⟨legal, .failed holds⟩
  | @done found result rest holds =>
    obtain ⟨node, flavour⟩ := result
    obtain ⟨tree, readFlavour⟩ := found
    obtain ⟨sameFlavour, declares⟩ := holds
    dsimp only at sameFlavour declares
    subst sameFlavour
    cases readFlavour with
    | lexer => exact Built.Fits.prepend legal ⟨.nil, .done declares⟩
    | parser =>
      cases tree with
      | node data trees =>
        obtain ⟨body, pending, bears, ofBody, isParent, block, isChild,
            isBlock, labels⟩ :=
          declares
        obtain ⟨further, isDone, grown⟩ := reaches_handlers later bears rest
        have stillBody := further.keeps (isStable_ofBody lines) ofBody prefix_rfl
        have stillRule := further.keeps (Arena.isStable_parent? lines) isParent prefix_rfl
        refine Built.Fits.prepend legal ?_
        simp only [if_pos]
        rw [bind_apply, isDone]
        exact Built.Fits.prepend further ⟨.nil, .done ⟨body, pending, grown, stillBody,
          stillRule, block, mem_append_left _ isChild, isBlock, labels⟩⟩

end Build

end GrammarInspector
