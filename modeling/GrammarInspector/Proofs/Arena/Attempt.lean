import GrammarInspector.Proofs.Arena.Mirror

/-! # Going on after a fault

A construct that fails leaves behind what it has built. The node that it would have become
a child of stays as it is, and building goes on where reading does.
-/

namespace GrammarInspector

open List

open GrammarInspector.Arena (Branch Trunk Step AreLegal)

namespace Built

/-- Whether building goes on in front of some tokens, with an arena of which
something is known. -/
structure Reaches (built : Built Unit) (lines : LineIndex) (arena : Arena)
    (rest : List Token) (known : Arena → Prop) : Prop where
  legal : AreLegal lines arena built.steps
  outcome_eq : built.outcome = .done () rest
  holds : known (arena.after built.steps)

variable {built : Built Unit} {lines : LineIndex} {arena : Arena} {rest : List Token}
  {known : Arena → Prop}

theorem Reaches.prepend {steps : List Step} (legal : AreLegal lines arena steps)
    (reaches : built.Reaches lines (arena.after steps) rest known) :
    Built.Reaches ⟨steps ++ built.steps, built.outcome⟩ lines arena rest known := by
  refine ⟨legal.append reaches.legal, reaches.outcome_eq, ?_⟩
  rw [Arena.after_append]
  exact reaches.holds

theorem Reaches.mono {weaker : Arena → Prop}
    (reaches : built.Reaches lines arena rest known)
    (implies : ∀ arena, known arena → weaker arena) :
    built.Reaches lines arena rest weaker :=
  ⟨reaches.legal, reaches.outcome_eq, implies _ reaches.holds⟩

section Fits

variable {outcome : Outcome Tree} {grown : Tree → Unit → Arena → Prop}
  {same : Arena → Prop}

theorem Fits.of_done {tree : Tree} (fits : built.Fits lines arena outcome grown same)
    (isDone : outcome = .done tree rest) :
    built.Reaches lines arena rest (grown tree ()) := by
  obtain ⟨steps, ending⟩ := built
  obtain ⟨legal, agree⟩ := fits
  cases agree with
  | done holds =>
    cases isDone
    exact ⟨legal, rfl, holds⟩
  | failed => cases isDone

theorem Fits.of_failed {expected : Expected}
    (fits : built.Fits lines arena outcome grown same)
    (isFailed : outcome = .failed expected rest) : AreLegal lines arena built.steps ∧
      built.outcome = .failed expected rest ∧ same (arena.after built.steps) := by
  obtain ⟨steps, ending⟩ := built
  obtain ⟨legal, agree⟩ := fits
  cases agree with
  | done => cases isFailed
  | failed holds =>
    cases isFailed
    exact ⟨legal, rfl, holds⟩

end Fits

end Built

namespace Build

variable {lines : LineIndex} {arena : Arena} {trunk : Trunk} {others : List Branch}
  {parent : Nat} {data : NodeData} {trees : List Tree} {holder : Option Nat}
  {parse : Parse Tree} {build : Build Nat}
  {tokens rest : List Token} {builds : List Token → Option (Build Unit)}

/-- A node gets a child if the child can be read, and stays as it is if not. -/
theorem Makes.tries {grown : Tree → Arena → Prop} (makes : Makes parse build)
    (site : ∀ lines arena child tree, arena.IsForest →
      arena.Bears trunk (⟨child, tree, none⟩ :: others) →
    (Step.attach parent child).IsLegal lines arena ∧
    grown tree (arena.attach parent child)) :
    Follows parse (Build.adopt parent build) (·.Bears trunk others)
      (fun tree _ => grown tree) (·.Bears trunk others) := by
  refine .ofReturn ((makes trunk others).bind fun tree child lines arena tokens forest =>
    ?_)
  rintro ⟨_, rfl, bears⟩
  obtain ⟨isLegal, isGrown⟩ := site lines arena child tree forest bears
  exact ⟨.cons isLegal .nil, .done isGrown⟩

theorem Makes.triesBranch (makes : Makes parse build) :
    Follows parse (Build.adopt parent build)
      (·.Bears trunk (⟨parent, .node data trees, holder⟩ :: others))
      (fun tree _ =>
        (·.Bears trunk (⟨parent, .node data (trees ++ [tree]), holder⟩ :: others)))
      (·.Bears trunk (⟨parent, .node data trees, holder⟩ :: others)) :=
  makes.tries fun _ _ _ _ forest bears => ⟨bears.isLegal_attach, bears.attach forest⟩

/-! ## Attempts and repetition -/

theorem reaches_bind {first : Build Unit} {next : Unit → Build Unit} {left : List Token}
    {known final : Arena → Prop} (forest : arena.IsForest)
    (reaches : (first lines arena tokens).Reaches lines arena rest known)
    (further : ∀ arena, arena.IsForest → known arena →
      (next () lines arena rest).Reaches lines arena left final) :
    ((first >>= next) lines arena tokens).Reaches lines arena left final := by
  obtain ⟨legal, isDone, holds⟩ := reaches
  rw [bind_apply, isDone]
  exact (further _ (forest.after legal) holds).prepend legal

/-- An attempt gives a node one child or none. -/
theorem Makes.reaches_attempt {grown : List Tree → Arena → Prop}
    {recover : List Token → List Token} {harvest : Reading.Harvest}
    (makes : Makes parse build)
    (site : ∀ lines arena child tree, arena.IsForest →
      arena.Bears trunk (⟨child, tree, none⟩ :: others) →
    (Step.attach parent child).IsLegal lines arena ∧
    grown (trees ++ [tree]) (arena.attach parent child))
    (same : ∀ arena, arena.Bears trunk others → grown trees arena)
    (forest : arena.IsForest) (bears : arena.Bears trunk others)
    (isRead : Reading.attempt parse recover tokens = (harvest, rest)) :
    (attempt (Build.adopt parent build) recover lines arena tokens).Reaches
      lines arena rest (grown (trees ++ harvest.trees)) := by
  have fits := makes.tries site lines arena tokens forest bears
  unfold Reading.attempt at isRead
  unfold attempt
  cases found : parse tokens with
  | done tree left =>
    obtain ⟨legal, isDone, holds⟩ := fits.of_done found
    rw [found] at isRead
    cases isRead
    simp only [isDone]
    exact ⟨legal, rfl, holds⟩
  | failed expected left =>
    obtain ⟨legal, isFailed, holds⟩ := fits.of_failed found
    rw [found] at isRead
    cases isRead
    simp only [isFailed]
    refine ⟨legal, rfl, ?_⟩
    rw [append_nil]
    exact same _ holds

/-- What each step keeps, a whole repetition keeps. -/
theorem reaches_repeated {α : Type} {reads : List Token → Option (α × List Token)}
    {known : List α → List Token → Arena → Prop}
    (ends : ∀ tokens, reads tokens = none → builds tokens = none)
    (goesOn : ∀ values arena tokens value rest, arena.IsForest →
      known values tokens arena → reads tokens = some (value, rest) →
    ∃ item, builds tokens = some item ∧
      (item lines arena tokens).Reaches lines arena rest (known (values ++ [value]) rest))
    {values : List α} (forest : arena.IsForest) (holds : known values tokens arena) :
    (repeated builds lines arena tokens).Reaches lines arena
      (Reading.repeated reads tokens).2
      (known (values ++ (Reading.repeated reads tokens).1)
        (Reading.repeated reads tokens).2) := by
  fun_induction Reading.repeated reads tokens generalizing arena values with
  | case1 tokens isEnd =>
    unfold repeated
    rw [ends tokens isEnd]
    exact ⟨.nil, rfl, by rwa [append_nil]⟩
  | case2 tokens value rest isRead shorter others left isRest induction =>
    obtain ⟨item, isItem, legal, isDone, grown⟩ :=
      goesOn values arena tokens value rest forest holds isRead
    have further := (induction (forest.after legal) grown).prepend legal
    unfold repeated
    simp only [isItem, isDone, if_pos shorter]
    rw [append_assoc, isRest] at further
    exact further
  | case3 tokens value rest isRead longer =>
    obtain ⟨item, isItem, legal, isDone, grown⟩ :=
      goesOn values arena tokens value rest forest holds isRead
    unfold repeated
    simp only [isItem, isDone, if_neg longer]
    exact ⟨legal, rfl, grown⟩

theorem reaches_collect {reads : List Token → Option (Reading.Harvest × List Token)}
    (grown : List Tree → List Token → Arena → Prop)
    (ends : ∀ tokens, reads tokens = none → builds tokens = none)
    (goesOn : ∀ trees arena tokens harvest rest, arena.IsForest →
      grown trees tokens arena → reads tokens = some (harvest, rest) →
    ∃ item, builds tokens = some item ∧ (item lines arena tokens).Reaches lines arena rest
      (grown (trees ++ harvest.trees) rest))
    (forest : arena.IsForest) (holds : grown trees tokens arena) :
    (repeated builds lines arena tokens).Reaches lines arena
      (Reading.collect reads tokens).2
      (grown (trees ++ (Reading.collect reads tokens).1.trees)
        (Reading.collect reads tokens).2) := by
  let known (harvests : List Reading.Harvest) : List Token → Arena → Prop :=
    grown (trees ++ harvests.flatMap (·.trees))
  have step (harvests : List Reading.Harvest) (arena : Arena) (tokens : List Token)
      (harvest : Reading.Harvest) (rest : List Token) (forest : arena.IsForest)
      (holds : known harvests tokens arena)
        (isRead : reads tokens = some (harvest, rest)) :
      ∃ item, builds tokens = some item ∧
        (item lines arena tokens).Reaches lines arena rest
        (known (harvests ++ [harvest]) rest) := by
    unfold known
    rw [flatMap_append, ← append_assoc, flatMap_singleton]
    exact goesOn _ arena tokens harvest rest forest holds isRead
  have start : known [] tokens arena := by
    unfold known
    rwa [flatMap_nil, append_nil]
  exact reaches_repeated ends step forest start

end Build

end GrammarInspector
