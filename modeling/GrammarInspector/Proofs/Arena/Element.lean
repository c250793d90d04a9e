import GrammarInspector.Proofs.Arena.Mirror
import GrammarInspector.Proofs.Grammar.Shape.Element

/-! # Building sections and elements

Each section, each element and each block makes a branch with the tree that reading gives.
-/

namespace GrammarInspector

open List

open GrammarInspector.Arena (Branch)

namespace Build

variable {flavour : RuleFlavour} {kind : NodeKind} {arena : Arena} {tree : Tree}
  {build : Build Nat} {inner : Parse Tree}

/-! ## Sections -/

theorem makes_leaf {parse : Parse Token} :
    Makes (do return Tree.leaf kind (← parse)) (do leaf kind (← read parse)) :=
  .read fun _ => .allocs Mirrors.sites_leaf fun _ => rfl

theorem makes_dottedName : Makes Parse.dottedName dottedName := by
  refine .read fun names => ?_
  split
  · exact .fail
  · exact .allocs Mirrors.sites_nodeWithText fun _ => rfl

theorem makes_optionValue :
    Makes Parse.optionValue (do optionValueAt (← read Parse.peek)) := by
  refine .read fun kind => ?_
  split
  · exact makes_leaf
  · exact makes_leaf
  · exact makes_leaf
  · exact makes_dottedName
  · exact makes_dottedName
  · simp only [optionValueAt]
    exact .fail

theorem makes_option : Makes Parse.option option := by
  refine .read fun name => .read fun assign => ?_
  refine makes_optionValue.bind fun value valueId => ?_
  refine .read fun _ => .node fun node => ?_
  exact .adoptLeaf (.attachOlder (.pure rfl))

theorem makes_options : Makes Parse.options options := by
  refine .read fun opening => .node fun node => ?_
  refine makes_option.adopt.adds_many.bind fun entries _ => ?_
  exact .read fun _ => .pure rfl

theorem namesFrom_eq (tokens : List Token) : Parse.namesFrom tokens =
    ((nameTokens tokens).1.map (.leaf .identifier), (nameTokens tokens).2) := by
  fun_induction Parse.namesFrom tokens <;> unfold nameTokens <;> simp_all

theorem adds_leaves {names : List Token} {parent : Nat} {data : NodeData}
    {trees : List Tree} {holder : Option Nat} {before : List Branch} :
    Mirrors (pure ()) (leaves parent names) (⟨parent, .node data trees, holder⟩ :: before)
      fun _ _ branches => branches =
        ⟨parent, .node data (trees ++ names.map (.leaf .identifier)),
          holder⟩ :: before := by
  induction names generalizing trees with
  | nil => exact .pure (by rw [map_nil, append_nil])
  | cons name rest induction =>
    refine .adoptLeaf (induction.mono ?_)
    rintro _ _ _ rfl
    rw [append_assoc]
    rfl

theorem makes_nameSection {opener : Opener} :
    Makes (Parse.nameSection opener kind) (nameSection opener kind) := by
  have names_eq : Parse.names = do
      return ((← fun tokens => .done (nameTokens tokens).1 (nameTokens tokens).2) :
          List Token).map (.leaf .identifier) := by
    funext tokens
    rw [Parse.names, namesFrom_eq]
    rfl
  rw [Parse.nameSection, names_eq]
  refine .read fun opening => .node fun node => .assoc (.read fun names => ?_)
  refine adds_leaves.act ?_
  rintro _ _ rfl
  exact .read fun _ => .pure rfl

theorem makes_delegate : Makes Parse.delegate delegate := by
  refine .read fun name => .read fun found => ?_
  split
  · refine .read fun target => .node fun node => .leaf fun given =>
      .leaf fun grammar => ?_
    exact .attachBoth (.pure rfl)
  · exact .allocs Mirrors.sites_leaf fun _ => rfl

theorem makes_imports : Makes Parse.imports imports := by
  refine .read fun keyword => .node fun node => ?_
  refine makes_delegate.adopt.separated.bind fun delegates _ => ?_
  exact .read fun _ => .pure rfl

theorem makes_namedAction : Makes Parse.namedAction namedAction := by
  refine .read fun start => .node fun node => .read fun first => .adoptLeaf ?_
  refine .read fun found => ?_
  split
  · exact .read fun name => .adoptLeaf (.read fun body => .adoptLeaf (.pure rfl))
  · exact .read fun body => .adoptLeaf (.pure rfl)

theorem mirrors_prequels (parent : Nat) (data : NodeData) (trees : List Tree)
    (holder : Option Nat) :
    Mirrors Parse.prequels (prequels parent) [⟨parent, .node data trees, holder⟩]
      fun sections found branches => found = !sections.isEmpty ∧
        branches = [⟨parent, .node data (trees ++ sections), holder⟩] := by
  refine Grows.many (Makes.adopt (.read fun kind => ?_)) parent data trees holder
  split
  · exact makes_options
  · simp only [prequelAt]
    exact makes_namedAction

theorem adds_prequels : Adds Parse.prequels prequels :=
  fun parent data trees holder =>
    (mirrors_prequels parent data trees holder).mono fun _ _ _ holds => holds.2

/-! ## Elements -/

theorem makes_elementOptionValue :
    Makes Parse.elementOptionValue (do elementOptionValueAt (← read Parse.peek)) := by
  refine .read fun kind => ?_
  split
  · exact makes_leaf
  · exact makes_leaf
  · exact makes_leaf
  · exact makes_leaf
  · simp only [elementOptionValueAt]
    exact .fail

theorem makes_elementOption : Makes Parse.elementOption elementOption := by
  refine .read fun name => .read fun found => ?_
  split
  · refine makes_elementOptionValue.bind fun value valueId => .node fun node => ?_
    exact .adoptLeaf (.attachOlder (.pure rfl))
  · exact .allocs Mirrors.sites_leaf fun _ => rfl

theorem makes_elementOptions : Makes Parse.elementOptions elementOptions := by
  refine .read fun opening => .node fun node => ?_
  refine makes_elementOption.adopt.separated.bind fun entries _ => ?_
  exact .read fun _ => .pure rfl

theorem adds_elementOptions? : Adds Parse.elementOptions? elementOptions? := by
  intro parent data trees holder
  refine .read fun kind => ?_
  split
  · exact makes_elementOptions.bind fun tree id => .attaches rfl
  · simp only [elementOptionsAt]
    exact .pure (by rw [append_nil])

theorem makes_characterRange : Makes Parse.characterRange characterRange := by
  refine .read fun first => .read fun dots => .read fun last => ?_
  exact .node fun node => .leaf fun start => .leaf fun stop => .attachBoth (.pure rfl)

theorem makes_setElement : Makes (Parse.setElement flavour) (setElement flavour) := by
  refine .read fun first => .read fun second => ?_
  split
  · exact makes_leaf
  · exact makes_characterRange
  · simp only [setElementAt]
    exact makes_leaf
  · simp only [setElementAt]
    split
    · exact makes_leaf
    · exact .fail
  · simp only [setElementAt]
    exact .fail

theorem makes_complement : Makes (Parse.complement flavour) (complement flavour) := by
  refine .read fun tilde => .node fun node => .node fun set => .read fun found => ?_
  split
  · refine makes_setElement.adopt.separated.bind fun elements _ => .read fun _ => ?_
    exact .attach (.pure rfl)
  · exact makes_setElement.adopt.bind fun element => .attach (.pure rfl)

theorem adds_arguments? : Adds (Parse.arguments? flavour) (arguments? flavour) := by
  intro parent data trees holder
  unfold Parse.arguments? arguments?
  split
  · refine .read fun found => ?_
    split
    · exact .leaf fun _ => .attaches rfl
    · exact .pure (by rw [append_nil])
  · exact .pure (by rw [append_nil])

theorem makes_atom : Makes (Parse.atom flavour) (atom flavour) := by
  refine .read fun first => .read fun second => ?_
  split
  · refine .read fun reference => .leaf fun node => ?_
    exact adds_elementOptions?.bind fun options _ => .pure rfl
  · refine .read fun reference => .leaf fun node => ?_
    refine adds_arguments?.bind fun arguments _ => ?_
    exact adds_elementOptions?.bind fun options _ =>
      .pure (by simp [Tree.append, Tree.leaf])
  · exact makes_characterRange
  · simp only [atomAt]
    refine .read fun literal => .leaf fun node => ?_
    exact adds_elementOptions?.bind fun options _ => .pure rfl
  · simp only [atomAt]
    split
    · exact makes_leaf
    · exact .fail
  · refine .read fun dot => .node fun node => ?_
    exact adds_elementOptions?.bind fun options _ => .pure rfl
  · exact makes_complement
  · simp only [atomAt]
    exact .fail

/-! ## Suffixes -/

theorem isBlock_eq {element : Nat} (holds : arena.Holds element tree) :
    isBlock element arena = decide (tree.kind = .block) := by
  cases holds with
  | node isData _ _ =>
    rw [isBlock, isData]
    rfl

theorem elementStart_eq {element : Nat} (holds : arena.Holds element tree)
    (forest : arena.IsForest) : elementStart element arena = Parse.elementStart tree := by
  have anchored : (arena.anchor element).join = tree.anchor := by
    rw [holds.anchor_eq forest]
    rfl
  cases holds with
  | @node _ data trees isData length_eq below =>
    have atLabel : ((arena.children element).head?.bind fun label =>
        (arena.anchor label).join) =
        trees.head?.bind Tree.anchor := by
      generalize arena.children element = children at length_eq below
      cases trees with
      | nil =>
        rw [length_eq_zero_iff.mp length_eq]
        rfl
      | cons first rest =>
        obtain ⟨child, others, rfl⟩ := exists_cons_of_length_eq_add_one length_eq
        have first_eq := (below (child, first) (mem_cons_self ..)).anchor_eq forest
        simp [first_eq]
    rw [elementStart, isData, atLabel, anchored, Parse.elementStart, Tree.kind,
      Tree.data_node]
    symm
    split
    · next isAssign => exact (if_pos (by simp [isAssign])).symm
    · next isPlusAssign => exact (if_pos (by simp [isPlusAssign])).symm
    · next notAssign notPlusAssign =>
        exact (if_neg (by simpa using ⟨notAssign, notPlusAssign⟩)).symm

theorem mirrors_suffixBlock (element : Nat) (tree : Tree) :
    Mirrors (pure ()) (suffixBlock element) [⟨element, tree, none⟩]
      fun _ id branches => branches = [⟨id, Parse.suffixBlock tree, none⟩] := by
  refine .look (decide (tree.kind = .block)) ?_ ?_
  · intro arena trunk others forest bears
    exact isBlock_eq (bears.each _ (mem_cons_self ..)).holds
  · rw [Parse.suffixBlock]
    by_cases isBlock : tree.kind = .block
    · simp only [isBlock, decide_true, if_true]
      exact .pure rfl
    · simp only [isBlock, decide_false, if_false]
      refine .look (Parse.elementStart tree) ?_ ?_
      · intro arena trunk others forest bears
        exact elementStart_eq (bears.each _ (mem_cons_self ..)).holds forest
      · refine .node fun block => .node fun alternative => .toFront [_, _] ?_
        exact .attach (.attach (.pure rfl))

theorem mirrors_suffixed (element : Nat) (tree : Tree) :
    Mirrors (Parse.suffixed tree) (suffixed element) [⟨element, tree, none⟩]
      fun tree id branches => branches = [⟨id, tree, none⟩] := by
  intro trunk others lines arena tokens forest bears
  unfold Parse.suffixed suffixed
  cases tokens with
  | nil => exact ⟨.nil, .done ⟨_, rfl, bears⟩⟩
  | cons suffix rest =>
    dsimp only
    cases Parse.suffixKind? suffix.kind with
    | none => exact ⟨.nil, .done ⟨_, rfl, bears⟩⟩
    | some kind =>
      have operator : Mirrors
          (do let _ ← Parse.eat (.punctuation .question)
              return Tree.builtAt kind suffix.span [Parse.suffixBlock tree])
          (do let _ ← read (Parse.eat (.punctuation .question))
              let node ← nodeAt kind suffix.span
              let block ← suffixBlock element
              attach node block
              return node) [⟨element, tree, none⟩]
          fun tree id branches => branches = [⟨id, tree, none⟩] := by
        refine .read fun _ => .node fun node => .toFront [_] ?_
        refine ((mirrors_suffixBlock element tree).frame _).act ?_
        rintro id _ ⟨_, rfl, rfl⟩
        exact .attach (.pure rfl)
      exact operator trunk others lines arena rest forest bears

theorem makes_suffixed {parse : Parse Tree} (makes : Makes parse build) :
    Makes (do Parse.suffixed (← parse)) (do suffixed (← build)) :=
  makes.bind fun tree element => mirrors_suffixed element tree

theorem makes_labelled (makes : Makes inner build) :
    Makes (Parse.labelled inner flavour) (labelled build flavour) := by
  have target : Makes (Parse.labelTarget inner flavour) (labelTarget build flavour) := by
    refine .read fun kind => ?_
    split
    · exact makes
    · simp only [labelTargetAt]
      exact makes_atom
  refine .read fun label => .read fun operator => .node fun node => .leaf fun name => ?_
  exact target.bind fun tree id => .attachBoth (.pure rfl)

theorem makes_element (makes : Makes inner build) :
    Makes (Parse.element inner flavour) (element build flavour) := by
  refine .read fun first => .read fun second => ?_
  split
  · exact makes_suffixed (makes_labelled makes)
  · split
    · exact makes_suffixed makes
    · exact makes_leaf
    · exact makes_leaf
    · simp only [plainElementAt]
      exact makes_suffixed makes_atom

theorem makes_commandArgument :
    Makes Parse.commandArgument (do commandArgumentAt (← read Parse.peek)) := by
  refine .read fun kind => ?_
  split
  · exact makes_leaf
  · exact makes_leaf
  · exact makes_leaf
  · simp only [commandArgumentAt]
    exact .fail

theorem makes_command : Makes Parse.command command := by
  refine .read fun token => .leaf fun name => .read fun found => ?_
  split
  · exact .pure rfl
  · refine makes_commandArgument.bind fun argument id => .read fun _ =>
      .node fun node => ?_
    exact .toFront [_, _] (.attach (.attachOlder (.pure rfl)))

/-! ## Alternatives and blocks -/

theorem adds_alternativeOptions? :
    Adds (Parse.alternativeOptions? flavour) (alternativeOptions? flavour) := by
  intro parent data trees holder
  unfold Parse.alternativeOptions? alternativeOptions?
  split
  · exact adds_elementOptions? parent data trees holder
  · exact .pure (by rw [append_nil])

theorem mirrors_commands? (alternative : Nat) (tree : Tree) : Mirrors
      (do match ← Parse.peek with
          | some (.punctuation .arrow) =>
            if flavour = .lexer then
              let _ ← Parse.mark .arrow
              let commands ← Parse.separated .comma Parse.command
              return .group .lexerAlternative (tree :: commands)
            else return tree
          | _ => return tree)
      (commands? flavour alternative) [⟨alternative, tree, none⟩]
      fun tree id branches => branches = [⟨id, tree, none⟩] := by
  refine .read fun kind => ?_
  split
  · simp only [commandsAt]
    split
    · refine .node fun node => .attachOlder (.read fun _ => ?_)
      exact makes_command.adopt.separated.bind fun commands _ => .pure rfl
    · exact .pure rfl
  · simp only [commandsAt]
    exact .pure rfl

theorem makes_alternative (makes : Makes inner build) :
    Makes (Parse.alternative inner flavour) (alternative build flavour) := by
  refine .node fun node => adds_alternativeOptions?.bind fun options _ => ?_
  refine ((makes_element makes).adopt.many node _ _ _).bind ?_
  rintro elements found _ ⟨rfl, rfl⟩
  cases elements with
  | nil =>
    refine .adoptNew Mirrors.sites_nodeAt ?_
    rw [append_nil]
    exact mirrors_commands? node _
  | cons first rest => exact mirrors_commands? node _

theorem adds_blockPrequels : Adds Parse.blockPrequels blockPrequels := by
  intro parent data trees holder
  refine (mirrors_prequels parent data trees holder).bind ?_
  rintro sections found _ ⟨rfl, rfl⟩
  cases sections with
  | nil => exact .pure rfl
  | cons first rest => exact .read fun _ => .pure rfl

theorem makes_blockOf (makes : Makes inner build) :
    Makes (Parse.blockOf inner flavour) (blockOf build flavour) := by
  refine .read fun opening => .node fun node =>
    adds_blockPrequels.bind fun sections _ => ?_
  refine (makes_alternative makes).adopt.separated.bind fun alternatives _ => ?_
  exact .read fun _ => .pure rfl

/-- Blocks inside a block are built from fewer tokens, as they are read. -/
theorem makes_block : Makes (Parse.block flavour) (block flavour) := by
  intro trunk others lines arena tokens forest bears
  induction bound : tokens.length using Nat.strongRecOn
    generalizing trunk others lines arena tokens with
  | ind length induction =>
    unfold Parse.block block
    refine makes_blockOf ?_ trunk others lines arena tokens forest bears
    intro trunk others lines arena inner forest bears
    dsimp only
    by_cases shorter : inner.length < tokens.length
    · rw [if_pos shorter, if_pos shorter]
      exact induction inner.length (bound ▸ shorter) trunk others lines arena inner forest
        bears rfl
    · rw [if_neg shorter, if_neg shorter]
      exact ⟨.nil, .failed bears⟩

end Build

end GrammarInspector
