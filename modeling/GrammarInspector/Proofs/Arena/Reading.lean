import GrammarInspector.Grammar.Basic
import GrammarInspector.Proofs.Arena.Rule
import GrammarInspector.Proofs.Grammar.Attempts
import GrammarInspector.Proofs.Grammar.Hashes

/-! # The arena of a grammar

While a grammar is built, the root keeps the parts that are complete. A part that fails is
not among them, so in the end the root holds the tree that reading gives. The labels that
are kept are those of rules that were attached, in the order of the source.
-/

namespace GrammarInspector

open List

open GrammarInspector.Arena (Branch Trunk Tag Step AreLegal IsStable)

namespace Build

variable {lines : LineIndex} {arena : Arena} {data : NodeData} {trunk : Trunk}
  {others : List Branch} {trees declared : List Tree} {parts : List (Nat × Tree)}
  {tokens rest whole : List Token} {harvest : Reading.Harvest} {tops : List Nat}
  {kept : List Tag} {node : Nat} {sections : List Reading.ModeSection}

/-! ## Parts of a grammar -/

/-- A part that hangs at the root. -/
def hung (part : Nat × Tree) : Branch := ⟨part.1, part.2, some Arena.root⟩

/-- Whether the root has some parts and no others. -/
def HasParts (data : NodeData) (trees : List Tree) (arena : Arena) : Prop :=
  ∃ parts : List (Nat × Tree), parts.map (·.2) = trees ∧
    arena.Bears ⟨data, parts.map (·.1), [], []⟩ (parts.map hung)

theorem HasParts.attach {child : Nat} {tree : Tree} (isTrees : parts.map (·.2) = trees)
    (forest : arena.IsForest)
    (bears : arena.Bears ⟨data, parts.map (·.1), [], []⟩
      (⟨child, tree, none⟩ :: parts.map hung)) :
    HasParts data (trees ++ [tree]) (arena.attach Arena.root child) := by
  refine ⟨parts ++ [(child, tree)], ?_, ?_⟩
  · rw [map_append, isTrees]
    rfl
  · rw [map_append, map_append]
    exact (bears.attachRoot forest).perm (perm_append_singleton ..).symm

theorem Makes.reaches_part {parse : Parse Tree} {build : Build Nat}
    {recover : List Token → List Token} (makes : Makes parse build)
    (forest : arena.IsForest) (hasParts : HasParts data trees arena)
    (isRead : Reading.attempt parse recover tokens = (harvest, rest)) :
    (attempt (Build.adopt Arena.root build) recover lines arena tokens).Reaches
      lines arena rest (HasParts data (trees ++ harvest.trees)) := by
  obtain ⟨parts, isTrees, bears⟩ := hasParts
  refine makes.reaches_attempt (fun lines arena child tree forest bears => ?_)
    ?_ forest bears isRead
  · exact ⟨bears.isLegal_attachRoot forest, HasParts.attach isTrees forest bears⟩
  · exact fun _ same => ⟨parts, isTrees, same⟩

/-! ## Sections -/

theorem reaches_prequelStep (forest : arena.IsForest)
    (hasParts : HasParts data trees arena)
    (isRead : Reading.prequelStep tokens = some (harvest, rest)) :
    ∃ item, prequelStep tokens = some item ∧
      (item lines arena tokens).Reaches lines arena rest
        (HasParts data (trees ++ harvest.trees)) := by
  obtain ⟨kind, construct, recover, isSection, begins, equal⟩ :=
    Reading.exists_section isRead
  rw [prequelStep, begins]
  cases isSection with
  | options => exact ⟨_, rfl, makes_options.reaches_part forest hasParts equal⟩
  | tokenNames => exact ⟨_, rfl, makes_nameSection.reaches_part forest hasParts equal⟩
  | channelNames => exact ⟨_, rfl, makes_nameSection.reaches_part forest hasParts equal⟩
  | imports => exact ⟨_, rfl, makes_imports.reaches_part forest hasParts equal⟩
  | action => exact ⟨_, rfl, makes_namedAction.reaches_part forest hasParts equal⟩

theorem prequelStep_eq_none (isRead : Reading.prequelStep tokens = none) :
    prequelStep tokens = none := by
  unfold Reading.prequelStep at isRead
  split at isRead
  case h_6 => simp only [prequelStep]
  all_goals cases isRead

theorem reaches_prequels (forest : arena.IsForest)
    (hasParts : HasParts data trees arena) :
    (repeated prequelStep lines arena tokens).Reaches lines arena
      (Reading.collect Reading.prequelStep tokens).2
      (HasParts data (trees ++ (Reading.collect Reading.prequelStep tokens).1.trees)) :=
  reaches_collect (fun trees _ => HasParts data trees) (fun _ => prequelStep_eq_none)
    (fun _ _ _ _ _ forest hasParts isRead => reaches_prequelStep forest hasParts isRead)
    forest hasParts

/-! ## Labels that are kept -/

/-- Whether a label belongs to a rule that is a child of one of some nodes. -/
def Hangs (tops : List Nat) (tag : Tag) (arena : Arena) : Prop :=
  ∃ body, arena.parent? tag.alternative = some body ∧ arena.parent? body = some tag.rule ∧
    ∃ top ∈ tops, arena.parent? tag.rule = some top

theorem isStable_hangs {tag : Tag} : IsStable (Hangs tops tag) := by
  rintro lines arena change ⟨body, ofAlternative, ofBody, top, isTop, ofRule⟩ legal
  exact ⟨body, Arena.parent?_step legal ofAlternative,
    Arena.parent?_step legal ofBody, top,
    isTop, Arena.parent?_step legal ofRule⟩

/-- What is known of the labels that are kept while some tokens are left: they stand
behind hashes among those taken before. -/
structure Keeps (whole : List Token) (tops : List Nat) (kept : List Tag)
    (rest : List Token) (arena : Arena) : Prop where
  distinct : (kept.map (·.alternative)).Nodup
  hang : ∀ tag ∈ kept, Hangs tops tag arena
  ordered : ∃ front, whole = front ++ rest ∧
    (kept.map (·.label)).Sublist (AltLabel.behindHashes front)

theorem isStable_keeps : IsStable (Keeps whole tops kept rest) :=
  fun lines arena change keeps legal => { keeps with
    hang :=
      fun tag member => isStable_hangs lines arena change (keeps.hang tag member) legal }

namespace Keeps

variable {pending : List Tag}

theorem start : Keeps whole tops [] whole arena :=
  ⟨.nil, fun _ member => (not_mem_nil member).elim, [], rfl, nil_sublist _⟩

theorem given (keeps : Keeps whole tops kept rest arena) : Given kept arena :=
  ⟨fun tag member => (keeps.hang tag member).imp fun _ hangs => hangs.1, keeps.distinct⟩

theorem mono {more : List Nat} (keeps : Keeps whole tops kept rest arena)
    (included : tops ⊆ more) : Keeps whole more kept rest arena := by
  refine { keeps with hang := fun tag member => ?_ }
  obtain ⟨body, ofAlternative, ofBody, top, isTop, ofRule⟩ := keeps.hang tag member
  exact ⟨body, ofAlternative, ofBody, top, included isTop, ofRule⟩

/-- Tokens are taken that give no label. -/
theorem skip {left : List Token} (keeps : Keeps whole tops kept rest arena)
    (isSuffix : left <:+ rest) : Keeps whole tops kept left arena := by
  obtain ⟨skipped, rfl⟩ := isSuffix
  obtain ⟨front, equal, isSublist⟩ := keeps.ordered
  refine { keeps with ordered := ⟨front ++ skipped, ?_, ?_⟩ }
  · rw [equal, append_assoc]
  · exact isSublist.trans ((sublist_append_left ..).trans
      (AltLabel.append_behindHashes_sublist front skipped))

theorem append {taken : List Token} {rule body top : Nat}
    (keeps : Keeps whole tops kept (taken ++ rest) arena)
    (ofBody : OfBody kept pending rule body arena)
    (isBody : arena.parent? body = some rule) (isRule : arena.parent? rule = some top)
    (isTop : top ∈ tops) (labels : pending.map (·.label) = AltLabel.behindHashes taken) :
    Keeps whole tops (kept ++ pending) rest arena := by
  obtain ⟨front, equal, isSublist⟩ := keeps.ordered
  refine ⟨ofBody.given.distinct, forall_mem_append.mpr ⟨keeps.hang, ?_⟩,
    front ++ taken, ?_, ?_⟩
  · intro tag member
    rw [← ofBody.rule tag member] at isBody isRule
    exact ⟨body, ofBody.parent tag member, isBody, top, isTop, isRule⟩
  · rw [equal, append_assoc]
  · rw [map_append, labels]
    exact (isSublist.append_right _).trans
      (AltLabel.append_behindHashes_sublist front taken)

end Keeps

/-! ## Rules -/

section Rules

variable {parent : Nat} {under : NodeData} {holder : Option Nat} {steps : List Step}

/-- Whether a node has some rules so far, with their labels kept and other
branches beside it. -/
def HasRules (trunk : Trunk) (others : List Branch) (parent : Nat) (data : NodeData)
    (holder : Option Nat) (whole : List Token) (tops : List Nat) (trees : List Tree)
    (rest : List Token) (arena : Arena) : Prop :=
  ∃ kept, arena.Bears { trunk with pending := [], kept }
    (⟨parent, .node data trees, holder⟩ :: others) ∧ Keeps whole tops kept rest arena

theorem declare_of_done (isDone : rule lines arena tokens = ⟨steps, .done node rest⟩) :
    declare parent lines arena tokens =
      ⟨steps ++ [.attach parent node, .keep], .done () rest⟩ := by
  simp [declare, adopt, bind_apply, isDone, attach, keep]

theorem declare_of_failed {expected : Expected}
    (isFailed : rule lines arena tokens = ⟨steps, .failed expected rest⟩) :
    declare parent lines arena tokens =
      ⟨steps ++ [.drop], .done () (Reading.skipPast (.punctuation .semicolon) rest)⟩ := by
  simp [declare, adopt, bind_apply, isFailed]

/-- The labels of a complete rule are kept with it. -/
theorem HasRules.keep {tree : Tree} {faults : List SyntaxFault} (forest : arena.IsForest)
    (keeps : Keeps whole tops kept tokens arena) (isTop : parent ∈ tops)
    (declares : Declares { trunk with kept }
      (⟨parent, .node under trees, holder⟩ :: others) node tree arena)
    (outcome : Parse.rule tokens = .done (tree, faults) rest) :
    Built.Reaches ⟨[.attach parent node, .keep], .done () rest⟩ lines arena rest
      (HasRules trunk others parent under holder whole tops (trees ++ [tree]) rest) := by
  obtain ⟨body, pending, bears, ofBody, isBody, block, isChild, isBlock, labels⟩ :=
    declares
  obtain ⟨taken, rfl, among⟩ := Parse.among_block outcome isChild isBlock
  have isLegal : (Step.attach parent node).IsLegal lines arena := bears.isLegal_attach
  have legal : AreLegal lines arena [.attach parent node, .keep] :=
    .cons isLegal (.cons trivial .nil)
  obtain ⟨hasNode, _⟩ := Arena.Bears.cons_iff.mp bears
  have isRule : (arena.after [.attach parent node, .keep]).parent? node =
      some parent := by
    change (arena.attach parent node).parent? node = some parent
    rw [Arena.parent?_attach hasNode.holds.lt_size, if_pos rfl]
  refine ⟨legal, rfl, kept ++ pending, (bears.attach forest).keep (forest.step isLegal),
    ?_⟩
  exact Keeps.append (legal.keeps (isStable_keeps lines) keeps prefix_rfl)
    (legal.keeps (isStable_ofBody lines) ofBody prefix_rfl)
    (legal.keeps (Arena.isStable_parent? lines) isBody prefix_rfl) isRule isTop
    (labels.trans among.eq.symm)

/-- The labels of a rule that fails are dropped. -/
theorem HasRules.drop (forest : arena.IsForest) (keeps : Keeps whole tops kept rest arena)
    (spoils : Spoils { trunk with kept }
      (⟨parent, .node under trees, holder⟩ :: others) arena) :
    Built.Reaches ⟨[.drop], .done () rest⟩ lines arena rest
      (HasRules trunk others parent under holder whole tops trees rest) := by
  obtain ⟨pending, bears, apart⟩ := spoils
  have legal : AreLegal lines arena [.drop] := .cons trivial .nil
  exact ⟨legal, rfl, kept, bears.drop forest (fun tag member => (apart tag member).1)
    fun tag member => (apart tag member).2,
    legal.keeps (isStable_keeps lines) keeps prefix_rfl⟩

theorem reaches_declare (forest : arena.IsForest)
    (isTop : parent ∈ tops)
    (hasRules : HasRules trunk others parent under holder whole tops trees tokens arena)
    (isRead : (match Parse.rule tokens with
      | .done (tree, faults) rest => some (⟨[tree], faults⟩, rest)
      | .failed expected rest => some (⟨[], [.mismatched expected rest]⟩,
        Reading.skipPast (.punctuation .semicolon) rest)) = some (harvest, rest)) :
    (declare parent lines arena tokens).Reaches lines arena rest
      (HasRules trunk others parent under holder whole tops
        (trees ++ harvest.trees) rest) := by
  obtain ⟨kept, bears, keeps⟩ := hasRules
  have fits : (rule lines arena tokens).Fits lines arena (ruleTree tokens)
      (fun tree node => Declares { trunk with kept } _ node tree)
      (Spoils { trunk with kept } _) :=
    follows_rule lines arena tokens forest ⟨bears, keeps.given⟩
  have later := forest.after fits.legal
  have still := fits.legal.keeps (isStable_keeps lines) keeps prefix_rfl
  obtain ⟨legal, agree⟩ := fits
  rw [ruleTree, Parse.bind_apply] at agree
  rcases built : rule lines arena tokens with ⟨steps, ending⟩
  rw [built] at legal agree later still
  cases outcome : Parse.rule tokens with
  | done found left =>
    obtain ⟨tree, faults⟩ := found
    rw [outcome] at agree isRead
    cases isRead
    cases agree with
    | done declares =>
      rw [declare_of_done built]
      exact (HasRules.keep later still isTop declares outcome).prepend legal
  | failed expected left =>
    rw [outcome] at agree isRead
    cases isRead
    cases agree with
    | failed spoils =>
      rw [declare_of_failed built, append_nil]
      have isSuffix := (Reading.skipPast_suffix (.punctuation .semicolon) left).trans
        (Parse.ensures_rule.failed outcome)
      exact (HasRules.drop later (still.skip isSuffix) spoils).prepend legal

theorem reaches_ruleStep (forest : arena.IsForest) (isTop : parent ∈ tops)
    (hasRules : HasRules trunk others parent under holder whole tops trees tokens arena)
    (isRead : Reading.ruleStep tokens = some (harvest, rest)) :
    ∃ item, ruleStep parent tokens = some item ∧
      (item lines arena tokens).Reaches lines arena
      rest (HasRules trunk others parent under holder whole tops (trees ++ harvest.trees)
        rest) := by
  cases tokens with
  | nil => cases isRead
  | cons token tokens =>
    by_cases isMode : token.kind = .keyword .mode
    · simp only [Reading.ruleStep, if_pos isMode] at isRead
      cases isRead
    by_cases starts : Parse.startsRule token.kind = true
    · simp only [Reading.ruleStep, if_neg isMode, if_pos starts] at isRead
      simp only [ruleStep, if_neg isMode, if_pos starts]
      exact ⟨_, rfl, reaches_declare forest isTop hasRules isRead⟩
    · simp only [Reading.ruleStep, if_neg isMode, if_neg starts] at isRead
      simp only [ruleStep, if_neg isMode, if_neg starts]
      cases isRead
      obtain ⟨kept, bears, keeps⟩ := hasRules
      refine ⟨_, rfl, .nil, rfl, kept, by rwa [append_nil], ?_⟩
      exact keeps.skip (Reading.skipPast_suffix ..)

theorem ruleStep_eq_none (isRead : Reading.ruleStep tokens = none) :
    ruleStep parent tokens = none := by
  cases tokens with
  | nil => rfl
  | cons token tokens =>
    by_cases isMode : token.kind = .keyword .mode
    · exact if_pos isMode
    · simp only [Reading.ruleStep, if_neg isMode] at isRead
      split at isRead
      · split at isRead <;> cases isRead
      · cases isRead

theorem reaches_rules (forest : arena.IsForest) (isTop : parent ∈ tops)
    (hasRules : HasRules trunk others parent under holder whole tops trees tokens arena) :
    (rules parent lines arena tokens).Reaches lines arena (Reading.rules tokens).2
      (HasRules trunk others parent under holder whole tops
        (trees ++ (Reading.rules tokens).1.trees) (Reading.rules tokens).2) :=
  reaches_collect (HasRules trunk others parent under holder whole tops)
    (fun _ => ruleStep_eq_none)
    (fun _ _ _ _ _ forest hasRules isRead =>
      reaches_ruleStep forest isTop hasRules isRead)
    forest hasRules

end Rules

/-! ## Modes -/

section Modes

variable {front : List Nat}

theorem makes_modeLine : Makes Reading.modeLine modeLine := by
  refine .read fun keyword => .node fun node => .read fun name => ?_
  exact .adoptLeaf (.read fun _ => .pure rfl)

/-- Whether some modes follow the rules, which got the strays of all modes. -/
def HasModes (data : NodeData) (front : List Nat) (others : List Branch) (node : Nat)
    (declared : List Tree) (whole : List Token) (sections : List Reading.ModeSection)
    (rest : List Token) (arena : Arena) : Prop :=
  ∃ modes : List (Nat × Tree), modes.map (·.2) = sections.filterMap (·.mode) ∧
    HasRules ⟨data, front ++ modes.map (·.1), [], []⟩ (modes.map hung ++ others) node
      (Tree.group .rules []).data (some Arena.root) whole (node :: modes.map (·.1))
      (declared ++ sections.flatMap (·.strays)) rest arena

theorem HasModes.attach {modes : List (Nat × Tree)} {kept : List Tag} {child : Nat}
    {tree : Tree} {faults : List SyntaxFault}
    (isModes : modes.map (·.2) = sections.filterMap (·.mode)) (forest : arena.IsForest)
    (bears : arena.Bears ⟨data, front ++ modes.map (·.1), [], kept⟩
      (⟨child, tree, none⟩ :: ⟨node, .node (Tree.group .rules []).data
      (declared ++ sections.flatMap (·.strays)),
      some Arena.root⟩ :: (modes.map hung ++ others)))
    (keeps : Keeps whole (child :: node :: modes.map (·.1)) kept rest arena) :
    Built.Reaches ⟨[.attach Arena.root child], .done () rest⟩ lines arena rest
      (HasModes data front others node declared whole
        (sections ++ [⟨some tree, [], faults⟩])
        rest) := by
  have legal : AreLegal lines arena [.attach Arena.root child] :=
    .cons (bears.isLegal_attachRoot forest) .nil
  refine ⟨legal, rfl, modes ++ [(child, tree)], ?_, kept, ?_, ?_⟩
  · rw [map_append, isModes, filterMap_append]
    rfl
  · have noStrays : (sections ++ [Reading.ModeSection.mk (some tree) [] faults]).flatMap
        (·.strays) = sections.flatMap (·.strays) := by simp
    rw [noStrays, map_append, map_append, ← append_assoc]
    refine (bears.attachRoot forest).perm ((List.Perm.swap ..).trans (.cons _ ?_))
    exact (perm_append_singleton ..).symm.append_right others
  · refine (legal.keeps (isStable_keeps lines) keeps prefix_rfl).mono ?_
    rw [map_append]
    exact (perm_append_singleton child (node :: modes.map (·.1))).symm.subset

theorem reaches_mode {found : Reading.ModeSection} (forest : arena.IsForest)
    (hasModes : HasModes data front others node declared whole sections tokens arena)
    (isRead : Reading.modeStep tokens = some (found, rest)) :
    (mode node lines arena tokens).Reaches lines arena rest
      (HasModes data front others node declared whole (sections ++ [found]) rest) := by
  obtain ⟨modes, isModes, kept, bears, keeps⟩ := hasModes
  obtain ⟨legal, agree⟩ := makes_modeLine _ _ lines arena tokens forest bears
  have later := forest.after legal
  have still := legal.keeps (isStable_keeps lines) keeps prefix_rfl
  unfold Reading.modeStep at isRead
  unfold mode
  split at isRead
  · cases isRead
  · generalize modeLine lines arena tokens = built at legal agree later still
    obtain ⟨steps, ending⟩ := built
    cases outcome : Reading.modeLine tokens with
    | done tree left =>
      rw [outcome] at agree isRead
      cases isRead
      cases agree with
      | @done _ child _ holds =>
        obtain ⟨_, rfl, bears⟩ := holds
        obtain ⟨taken, rfl, _⟩ := Reading.ensures_modeLine.done outcome
        cases tree with
        | node under trees =>
          have behind := (still.skip (suffix_append taken left)).mono
            (subset_cons_self child _)
          refine Built.Reaches.prepend legal ?_
          refine reaches_bind later
            (reaches_rules later (.head _) ⟨kept, bears, behind⟩) ?_
          rintro arena forest ⟨kept, bears, keeps⟩
          exact HasModes.attach isModes forest bears keeps
    | failed expected left =>
      rw [outcome] at agree isRead
      cases isRead
      cases agree with
      | failed bears =>
        have behind :=
          still.skip ((Reading.skipPast_suffix (.punctuation .semicolon) left).trans
          (Reading.ensures_modeLine.failed outcome))
        refine Built.Reaches.prepend legal ?_
        refine (reaches_rules later (.head _) ⟨kept, bears, behind⟩).mono ?_
        rintro arena ⟨kept, bears, keeps⟩
        refine ⟨modes, ?_, kept, ?_, keeps⟩
        · rw [isModes, filterMap_append]
          exact (append_nil _).symm
        · rwa [flatMap_append, ← append_assoc, flatMap_singleton]

theorem reaches_modes (forest : arena.IsForest)
    (hasModes : HasModes data front others node declared whole [] tokens arena) :
    (repeated (modeStep node) lines arena tokens).Reaches lines arena
      (Reading.repeated Reading.modeStep tokens).2
      (HasModes data front others node declared whole
        (Reading.repeated Reading.modeStep tokens).1
        (Reading.repeated Reading.modeStep tokens).2) := by
  refine reaches_repeated (fun tokens isRead => ?_) ?_ forest hasModes
  · rw [Reading.modeStep_eq_none_iff.mp isRead]
    rfl
  · intro sections arena tokens found rest forest hasModes isRead
    have notEmpty : ¬tokens.isEmpty := by
      simpa using (Reading.ModeStep.of_applies isRead).1
    exact ⟨_, if_neg notEmpty, reaches_mode forest hasModes isRead⟩

end Modes

/-! ## Headers -/

/-- What the root shows before the header is read. -/
def rootContent : Arena.Content := ⟨.grammar, GrammarFlavour.combined.rootText, none⟩

theorem HasParts.header (hasParts : HasParts (rootContent.data none) trees arena)
    (forest : arena.IsForest) (text : String) (span : Span) (position : Position) :
    HasParts ⟨.grammar, text, some span, none⟩ trees
      (arena.step (.header text span position)) := by
  obtain ⟨parts, isTrees, bears⟩ := hasParts
  exact ⟨parts, isTrees, bears.header forest⟩

theorem HasParts.addLeaf (hasParts : HasParts data trees arena) (forest : arena.IsForest)
    (leaf : Arena.Content) (position : Option Position)
    (placed : position = leaf.span.map fun span => lines.position span.start) :
    AreLegal lines arena [.alloc leaf position, .attach Arena.root arena.size] ∧
      HasParts data (trees ++ [.node (leaf.data none) []])
        ((arena.alloc leaf position).attach Arena.root arena.size) := by
  obtain ⟨parts, isTrees, bears⟩ := hasParts
  have loose := bears.alloc forest leaf position
  have grown : (arena.alloc leaf position).IsForest :=
    forest.of_sameLinks Arena.sameLinks_alloc
  exact ⟨.cons placed (.cons (loose.isLegal_attachRoot grown) .nil),
    HasParts.attach isTrees grown loose⟩

/-- Whether the root shows what is known of the header. -/
def HasHeader (found : Reading.Header) : Arena → Prop :=
  HasParts ⟨.grammar, found.flavour.rootText, found.keyword, none⟩ found.name.toList

/-- A header that fails half-way keeps what it has built, as it keeps what it has read. -/
theorem fits_header (forest : arena.IsForest)
    (hasParts : HasParts (rootContent.data none) [] arena) (tokens : List Token) :
    (header lines arena tokens).Fits lines arena (Reading.header tokens).2
      (fun _ _ => HasHeader (Reading.header tokens).1)
        (HasHeader (Reading.header tokens).1) := by
  unfold Reading.header
  cases isGrammar : Parse.expect (.keyword .grammar) (Reading.flavourOf tokens).2 with
  | failed expected rest =>
    have built : header lines arena tokens = ⟨[], .failed expected rest⟩ := by
      simp [header, bind_apply, read, isGrammar]
    rw [built]
    simp only [isGrammar]
    exact ⟨.nil, .failed hasParts⟩
  | done keyword behind =>
    let text := (Reading.flavourOf tokens).1.rootText
    let position := lines.position keyword.span.start
    have shown := hasParts.header forest text keyword.span position
    have shownForest : (arena.step (.header text keyword.span position)).IsForest :=
      forest.step rfl
    cases isName : Parse.identifier behind with
    | failed expected rest =>
      have built : header lines arena tokens =
          ⟨[.header text keyword.span position], .failed expected rest⟩ := by
        simp [header, bind_apply, read, rootAt, isGrammar, isName, text, position]
      rw [built]
      simp only [isGrammar, isName]
      exact ⟨.cons rfl .nil, .failed shown⟩
    | done name rest =>
      obtain ⟨legal, named⟩ := shown.addLeaf shownForest
        ⟨.identifier, name.text, some name.span⟩
          (some (lines.position name.span.start)) rfl
      have built : header lines arena tokens = ⟨[.header text keyword.span position,
          .alloc ⟨.identifier, name.text, some name.span⟩
            (some (lines.position name.span.start)),
          .attach Arena.root (arena.step (.header text keyword.span position)).size],
          (do let _ ← Parse.mark .semicolon : Parse Unit) rest⟩ := by
        rw [Parse.bind_apply]
        cases isEnd : Parse.mark .semicolon rest <;>
          simp [header, bind_apply, pure_apply, read, rootAt, adopt, leaf, alloc, attach,
            isGrammar, isName, isEnd, text, position]
      rw [built, Parse.bind_apply]
      simp only [isGrammar, isName]
      refine ⟨.cons rfl legal, ?_⟩
      cases Parse.mark .semicolon rest with
      | done mark left => exact .done named
      | failed expected left => exact .failed named

theorem reaches_header (forest : arena.IsForest)
    (hasParts : HasParts (rootContent.data none) [] arena) :
    (attempt header (Reading.skipPast (.punctuation .semicolon)) lines arena
      tokens).Reaches lines arena (Reading.behindHeader (Reading.header tokens).2).2
      (HasHeader (Reading.header tokens).1) := by
  obtain ⟨legal, agree⟩ := fits_header forest hasParts tokens
  unfold attempt
  generalize header lines arena tokens = built at legal agree
  obtain ⟨steps, outcome⟩ := built
  generalize Reading.header tokens = found at agree
  obtain ⟨found, ending⟩ := found
  dsimp only at legal agree ⊢
  cases agree with
  | done named => exact ⟨legal, rfl, named⟩
  | failed named => exact ⟨legal, rfl, named⟩

/-! ## Whole grammars -/

/-- The root holds a tree if every part hangs at it. -/
theorem holds_root {branches : List Branch}
    (bears : arena.Bears ⟨data, parts.map (·.1), [], kept⟩ branches)
    (each : ∀ part ∈ parts, hung part ∈ branches) :
    arena.Holds Arena.root (.node data (parts.map (·.2))) := by
  refine .node bears.trunk.data ?_ ?_
  · rw [bears.trunk.children, length_map, length_map]
  · rw [bears.trunk.children, zip_map', forall_mem_map]
    intro part member
    exact (bears.each _ (each part member)).holds

theorem HasModes.holds_root
    (hasModes : HasModes data (parts.map (·.1) ++ [node]) (parts.map hung) node declared
      whole sections rest arena) :
    arena.Holds Arena.root (.node data (parts.map (·.2) ++
      [.group .rules (declared ++ sections.flatMap (·.strays))] ++
        sections.filterMap (·.mode))) := by
  obtain ⟨modes, isModes, kept, bears, _⟩ := hasModes
  let rules : Nat × Tree :=
    (node, .group .rules (declared ++ sections.flatMap (·.strays)))
  have whole : (parts ++ [rules] ++ modes).map (·.1) =
      parts.map (·.1) ++ [node] ++ modes.map (·.1) := by
    rw [map_append, map_append]
    rfl
  dsimp only at bears
  rw [← whole] at bears
  have holds := Build.holds_root bears ?_
  · rwa [map_append, map_append, isModes] at holds
  · intro part member
    rw [mem_append, mem_append, mem_singleton] at member
    rw [mem_cons, mem_append]
    rcases member with (isPart | rfl) | isMode
    · exact .inr (.inr (mem_map_of_mem isPart))
    · exact .inl rfl
    · exact .inr (.inl (mem_map_of_mem isMode))

/-- What is known of the labels in the end, where some tokens were left for the rules. -/
structure Settles (tokens : List Token) (arena : Arena) : Prop where
  pending : arena.pending = []
  distinct : (arena.kept.map (·.alternative)).Nodup
  hang : ∀ tag ∈ arena.kept, ∃ body top, arena.parent? tag.alternative = some body ∧
    arena.parent? body = some tag.rule ∧ arena.parent? tag.rule = some top ∧
    arena.parent? top = some Arena.root
  ordered : (arena.kept.map (·.label)).Sublist (AltLabel.behindHashes tokens)

theorem HasModes.settles {front : List Nat}
    (hasModes : HasModes data front others node declared whole sections rest arena) :
    Settles whole arena := by
  obtain ⟨modes, _, kept, bears, keeps⟩ := hasModes
  have isKept : arena.kept = kept := bears.trunk.kept
  obtain ⟨front, equal, isSublist⟩ := keeps.ordered
  refine ⟨bears.trunk.pending, isKept ▸ keeps.distinct, ?_, ?_⟩
  · intro tag member
    rw [isKept] at member
    obtain ⟨body, ofAlternative, ofBody, top, isTop, ofRule⟩ := keeps.hang tag member
    refine ⟨body, top, ofAlternative, ofBody, ofRule, ?_⟩
    rcases mem_cons.mp isTop with rfl | isMode
    · exact (bears.each _ (.head _)).parent
    · obtain ⟨part, isPart, rfl⟩ := mem_map.mp isMode
      have inside := mem_append_left others (mem_map_of_mem (f := hung) isPart)
      exact (bears.each _ (.tail _ inside)).parent
  · rw [isKept, equal]
    exact isSublist.trans ((sublist_append_left ..).trans
      (AltLabel.append_behindHashes_sublist front rest))

/-- The rules of a grammar with the modes behind them. -/
theorem reaches_body (forest : arena.IsForest) (hasParts : HasParts data trees arena) :
    ((do let node ← nodeAt .rules none
         attach Arena.root node
         rules node
         repeated (modeStep node)) lines arena tokens : Built Unit).Reaches lines arena
      (Reading.repeated Reading.modeStep (Reading.rules tokens).2).2
      (fun arena => arena.Holds Arena.root
          (.node data (trees ++ [.group .rules ((Reading.rules tokens).1.trees ++
            (Reading.repeated Reading.modeStep (Reading.rules tokens).2).1.flatMap
              (·.strays))] ++
          (Reading.repeated Reading.modeStep (Reading.rules tokens).2).1.filterMap
            (·.mode))) ∧ Settles tokens arena) := by
  obtain ⟨parts, rfl, bears⟩ := hasParts
  let content : Arena.Content := ⟨.rules, NodeKind.rules.fixedText?.getD "", none⟩
  have loose := bears.alloc forest content none
  have grown : (arena.alloc content none).IsForest :=
    forest.of_sameLinks Arena.sameLinks_alloc
  have hasRules : HasRules ⟨data, parts.map (·.1) ++ [arena.size], [], []⟩
      (parts.map hung)
      arena.size (content.data none) (some Arena.root) tokens [arena.size] [] tokens
      ((arena.alloc content none).attach Arena.root arena.size) :=
    ⟨[], loose.attachRoot grown, .start⟩
  have attached : (attach Arena.root arena.size lines (arena.alloc content none)
      tokens).Reaches lines _ tokens _ :=
    ⟨.cons (loose.isLegal_attachRoot grown) .nil, rfl, hasRules⟩
  refine Built.Reaches.prepend (.cons rfl .nil) ?_
  refine reaches_bind grown attached fun arena forest hasRules => ?_
  refine reaches_bind forest (reaches_rules forest (.head _) hasRules)
    fun arena forest hasRules => ?_
  refine (reaches_modes forest ⟨[], rfl, ?_⟩).mono fun arena hasModes =>
    ⟨hasModes.holds_root, hasModes.settles⟩
  rwa [map_nil, append_nil, flatMap_nil, append_nil]

/-- Reading a grammar and building it in an arena give the same tree. -/
theorem reaches_grammar (forest : arena.IsForest)
    (hasParts : HasParts (rootContent.data none) [] arena) :
    ∃ rest, (grammar lines arena tokens).Reaches lines arena rest fun arena =>
      arena.Holds Arena.root (Reading.ofTokens tokens).tree ∧
        Settles (Reading.collect Reading.prequelStep
          (Reading.behindHeader (Reading.header tokens).2).2).2 arena := by
  apply Exists.intro
  apply reaches_bind forest (reaches_header forest hasParts)
  intro arena forest hasParts
  apply reaches_bind forest (reaches_prequels forest hasParts)
  intro arena forest hasParts
  exact reaches_body forest hasParts

end Build

namespace Arena

variable {source : String}

/-- The arena that every grammar is built in. -/
def start : Arena := .single Build.rootContent

/-- The steps that the tokens of a source cause. -/
def stepsOf (source : String) : List Step :=
  (Build.grammar (.ofText source.toList) start
    ((Token.ofText source.toList).filter (·.isSignificant))).steps

def ofSource (source : String) : Arena := start.after (stepsOf source)

theorem hasParts_start : Build.HasParts (Build.rootContent.data none) [] start :=
  ⟨[], rfl, ⟨rfl, rfl, rfl, rfl, forall_mem_nil _⟩, forall_mem_nil _, .nil⟩

theorem areLegal_stepsOf (source : String) :
    AreLegal (Grammar.ofSource source).lines start (stepsOf source) := by
  obtain ⟨_, reaches⟩ := Build.reaches_grammar IsForest.single hasParts_start
  exact reaches.legal

/-- In the end the root holds the tree of the grammar. -/
theorem holds_ofSource (source : String) :
    (ofSource source).Holds root (Grammar.ofSource source).tree := by
  obtain ⟨_, reaches⟩ := Build.reaches_grammar IsForest.single hasParts_start
  exact reaches.holds.1

theorem settles_ofSource (source : String) :
    ∃ whole, whole <:+ (Token.ofText source.toList).filter (·.isSignificant) ∧
      Build.Settles whole (ofSource source) := by
  obtain ⟨_, reaches⟩ := Build.reaches_grammar IsForest.single hasParts_start
  exact ⟨_, Reading.behindSections_suffix _, reaches.holds.2⟩

theorem isForest_ofSource (source : String) : (ofSource source).IsForest :=
  IsForest.single.after (areLegal_stepsOf source)

/-- All the time the position that is stored at a node is where its span begins. -/
theorem isPlaced_after {front : List Step} (isFront : front <+: stepsOf source) :
    (start.after front).IsPlaced (Grammar.ofSource source).lines := by
  refine (areLegal_stepsOf source).keeps (fun _ _ placed => placed.step) ?_ isFront
  exact forall_mem_singleton.mpr rfl

/-- Each node of the grammar is held where the walk from the root meets it. -/
theorem exists_holds_of_mem {node : Node}
    (member : node ∈ (Grammar.ofSource source).tree.nodes) :
    ∃ ids id, (ofSource source).descendants root = some ids ∧
      (id, node) ∈ ids.zip (Grammar.ofSource source).tree.nodes ∧
      (ofSource source).Holds id node.tree := by
  have holds := holds_ofSource source
  have forest := isForest_ofSource source
  obtain ⟨ids, lists⟩ := (forest.endsBelow root holds.lt_size).exists_lists
  have each := lists.forall₂_holds holds
  obtain ⟨id, paired⟩ := exists_listed each.length_eq member
  exact ⟨ids, id, lists.descendants_eq forest holds.lt_size, paired,
    (forall₂_iff_zip.mp each).2 paired⟩

/-- The arena of a source is a forest after every step, and a node becomes a child only if
it has no parent. The finished arena holds the tree of the grammar, and from every node
all walks through it end. -/
theorem forest_throughout (source : String) :
    (∀ front, front <+: stepsOf source → (start.after front).IsForest ∧
      ((start.after front).entries.flatMap (·.children)).Nodup) ∧
    (∀ front parent child, front ++ [.attach parent child] <+: stepsOf source →
      (start.after front).parent? child = none) ∧
    (ofSource source).Holds root (Grammar.ofSource source).tree ∧
    (∃ ids, (ofSource source).descendants root = some ids ∧ ids.Nodup ∧
      (∀ id, id ∈ ids ↔ (ofSource source).Above root id) ∧
      (∀ front child behind, ids = front ++ child :: behind →
        child = root ∨ ∃ parent ∈ front, (ofSource source).parent? child = some parent) ∧
      ids.map (ofSource source).data? =
        (Grammar.ofSource source).tree.nodes.map fun node => some node.tree.data) ∧
    ∀ id < (ofSource source).size, ((ofSource source).descendants id).isSome ∧
      ((ofSource source).position id).isSome ∧ ((ofSource source).anchor id).isSome ∧
      ((ofSource source).enclosingRule id).isSome := by
  have legal := areLegal_stepsOf source
  have holds := holds_ofSource source
  have forest := isForest_ofSource source
  refine ⟨fun front isFront => ?_, fun front parent child isFront => ?_, holds, ?_,
    fun id inside => ?_⟩
  · have now := legal.keeps (fun _ _ forest => forest.step) IsForest.single isFront
    exact ⟨now, now.nodup_children⟩
  · exact (legal.isLegal isFront).2.2.1
  · obtain ⟨ids, lists⟩ := (forest.endsBelow root holds.lt_size).exists_lists
    exact ⟨ids, lists.descendants_eq forest holds.lt_size, lists.nodup forest, fun _ =>
      lists.mem_iff forest,
      fun _ _ _ => lists.parent_mem forest, lists.map_data?_eq holds⟩
  · obtain ⟨ids, lists⟩ := (forest.endsBelow id inside).exists_lists
    obtain ⟨tree, holds⟩ := (forest.endsBelow id inside).exists_holds
    refine ⟨?_, ?_, ?_, forest.isSome_enclosingRule inside⟩
    · rw [lists.descendants_eq forest inside]
      rfl
    · rw [holds.position_eq forest (isPlaced_after prefix_rfl)]
      rfl
    · rw [holds.anchor_eq forest]
      rfl

/-- The labelled element of the first rule is older than the alternative that it is
attached to. The name of the second rule has a parent, but no place below the root. -/
theorem forest_throughout_faulty : let steps := stepsOf "grammar G; a : b=C* ; e : x ("
    let arena := ofSource "grammar G; a : b=C* ; e : x ("
    steps.take 18 ++ [.attach 12 7] <+: steps ∧ (start.after (steps.take 18)).IsForest ∧
      (start.after (steps.take 18)).parent? 7 = none ∧ arena.parent? 14 = some 13 ∧
      arena.parent? 13 = none ∧
      14 < arena.size ∧ (arena.enclosingRule 14).isSome := by
  intro steps arena
  obtain ⟨isForest, noParent, _, _, ends⟩ :=
    forest_throughout "grammar G; a : b=C* ; e : x ("
  have isStep : steps.take 18 ++ [.attach 12 7] <+: steps := by decide +kernel
  have inside : 14 < arena.size := by decide +kernel
  exact ⟨isStep, (isForest _ ( take_prefix ..)).1,
    noParent _ 12 7 isStep, by decide +kernel,
    by decide +kernel, inside, (ends 14 inside).2.2.2⟩

end Arena

end GrammarInspector
