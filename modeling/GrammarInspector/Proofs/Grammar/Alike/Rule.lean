import GrammarInspector.Proofs.Grammar.Alike.Element
import GrammarInspector.Proofs.Grammar.Complete.Rule

/-! # Rules side by side

A rule is read alike from tokens that are alike. Up to the semicolon that ends its
declaration it takes no semicolon but those of its options.
-/

namespace GrammarInspector

open List

/-- The first tokens of lists that are alike. -/
def Lockstep.Meets (pace : Lockstep) (token first : Option Token) : Prop :=
  ∃ tokens others, pace.Alike tokens others ∧ token = tokens.head? ∧ first = others.head?

/-- Faults where the same was expected, and tokens were found that go together. -/
structure SyntaxFault.Alike (meets : Option Token → Option Token → Prop)
    (fault other : SyntaxFault) : Prop where
  extraneous : fault.extraneous = other.extraneous
  expected : fault.expected = other.expected
  found : meets fault.found other.found

theorem SyntaxFault.Alike.mismatched {pace : Lockstep} {expected : Expected}
    {rest others : List Token} (alike : pace.Alike rest others) :
    (SyntaxFault.mismatched expected rest).Alike pace.Meets
      (SyntaxFault.mismatched expected others) :=
  ⟨rfl, rfl, rest, others, alike, rfl, rfl⟩

namespace Parse

variable {pace : Lockstep} {limits : Allowance} {condition : Prop} {flavour : RuleFlavour}
  {next : Option TokenKind} {tokens rest : List Token} {expected : Expected}

/-! ## Head of a rule -/

theorem parallel_modifiers : SteadyList pace limits condition modifiers := by
  refine (Parallel.takeOther rfl).many.bind fun tokens others => ?_
  have given : condition ∧ Forall₂ (Token.Alike pace.pairing) tokens others →
      Forall₂ (Tree.Alike pace.pairing)
        (if tokens.isEmpty then [] else [Tree.group .ruleModifiers
          (tokens.map (.leaf .ruleModifier))])
        (if others.isEmpty then [] else [Tree.group .ruleModifiers
          (others.map (.leaf .ruleModifier))]) := by
    rintro ⟨_, alike⟩
    cases alike with
    | nil => exact .nil
    | cons first rest => exact .cons (.group (alike_leaves (.cons first rest))) .nil
  cases tokens <;> cases others <;> exact .pure given

theorem parallel_ruleName :
    Parallel pace limits condition (fun found other =>
      found.1.Alike pace.pairing other.1 ∧ found.2 = other.2)
      ruleName ruleName := by
  refine (Parallel.takeOther rfl).bind fun token other => ?_
  by_cases isToken : token.kind = .tokenRef
  · by_cases isTokenToo : other.kind = .tokenRef
    · rw [if_pos isToken, if_pos isTokenToo]
      exact .pure fun given => ⟨.leaf given.2, rfl⟩
    · rw [if_pos isToken, if_neg isTokenToo]
      exact .pure fun given => absurd (given.2.kind.symm.trans isToken) isTokenToo
  · by_cases isTokenToo : other.kind = .tokenRef
    · rw [if_neg isToken, if_pos isTokenToo]
      exact .pure fun given => absurd (given.2.kind.trans isTokenToo) isToken
    · rw [if_neg isToken, if_neg isTokenToo]
      exact .pure fun given => ⟨.leaf given.2, rfl⟩

theorem parallel_bracketed? {keyword : Keyword} {kind : NodeKind} :
    SteadyList pace limits condition (bracketed? keyword kind) := by
  refine .eat (by simp) (fun word _ => ?_) (.pure fun _ => .nil)
  refine (Parallel.expect (by decide)).bind fun arguments _ => .pure fun given => ?_
  exact .cons (.builtAt (.some given.1.2.span) (.cons (.leaf given.2) .nil)) .nil

theorem parallel_throws? : SteadyList pace limits condition throws? := by
  refine .eat (by decide) (fun word _ => ?_) (.pure fun _ => .nil)
  refine (Parallel.separated (by decide) .identifier).bind fun names _ =>
    .pure fun given => ?_
  exact .cons (.builtAt (.some given.1.2.span) (alike_leaves given.2)) .nil

theorem parallel_signature : SteadyList pace limits condition (signature flavour) := by
  unfold signature
  split
  · refine parallel_arguments?.bind fun arguments _ => ?_
    refine parallel_bracketed?.bind fun returns _ => ?_
    refine parallel_throws?.bind fun throws _ => ?_
    refine parallel_bracketed?.bind fun locals _ => .pure fun given => ?_
    obtain ⟨⟨⟨⟨_, arguments⟩, returns⟩, throws⟩, locals⟩ := given
    exact rel_append (rel_append (rel_append arguments returns) throws) locals
  · exact .pure fun _ => .nil

/-! ## Declarations -/

theorem parallel_ruleAlternative :
    Steady pace limits condition (ruleAlternative flavour) := by
  refine (parallel_alternative parallel_block).bind fun alternative _ => ?_
  split
  · refine .eat (by decide) (fun _ _ => ?_) (.pure fun given => given.2)
    refine Parallel.identifier.bind fun label _ => .pure fun given => ?_
    exact given.1.1.2.withLabel ⟨given.2.text, given.2.span⟩
  · exact .pure fun given => given.2

theorem parallel_ruleBody : Steady pace limits condition (ruleBody flavour) := by
  refine (Parallel.mark (by decide)).bind fun colon _ => ?_
  refine (Parallel.separated (by decide) parallel_ruleAlternative).bind
    fun alternatives _ => ?_
  exact .pure fun given => .builtAt (.some given.1.2.span) given.2

/-- A rule up to the semicolon that ends its body, without it. -/
def openRule : Parse (Tree × RuleFlavour) := do
  let modifiers ← modifiers
  let (name, flavour) ← ruleName
  let signature ← signature flavour
  let sections ← prequels
  let body ← ruleBody flavour
  return (.group .rule (name :: modifiers ++ signature ++ sections ++ [body]), flavour)

theorem ruleDeclaration_eq :
    ruleDeclaration =
      (do let front ← openRule; let _ ← mark .semicolon; return front) := by
  funext tokens
  unfold ruleDeclaration openRule
  simp only [bind_apply]
  cases modifiers tokens with
  | failed expected rest => rfl
  | done modifiers rest =>
    dsimp only
    cases ruleName rest with
    | failed expected rest => rfl
    | done found rest =>
      dsimp only
      cases signature found.2 rest with
      | failed expected rest => rfl
      | done signature rest =>
        dsimp only
        cases prequels rest with
        | failed expected rest => rfl
        | done sections rest =>
          dsimp only
          cases ruleBody found.2 rest with
          | failed expected rest => rfl
          | done body rest => rfl

/-- Rules of one flavour that are alike. -/
def DeclaredAlike (pairing : Span.Pairing) (found other : Tree × RuleFlavour) : Prop :=
  found.1.Alike pairing other.1 ∧ found.2 = other.2

theorem parallel_openRule :
    Parallel pace limits condition (DeclaredAlike pace.pairing) openRule openRule := by
  -- What stands behind the name, given its flavour.
  have behindName (given : Prop) (flavour : RuleFlavour) (modifiers others : List Tree)
      (name first : Tree)
      (modifiersAlike : given → Forall₂ (Tree.Alike pace.pairing) modifiers others)
      (nameAlike : given → name.Alike pace.pairing first) :
      Parallel pace limits given (DeclaredAlike pace.pairing)
        (do let signature ← signature flavour
            let sections ← prequels
            let body ← ruleBody flavour
            return (Tree.group .rule (name :: modifiers ++ signature ++ sections ++
              [body]), flavour))
        (do let signature ← signature flavour
            let sections ← prequels
            let body ← ruleBody flavour
            return (Tree.group .rule (first :: others ++ signature ++ sections ++ [body]),
              flavour)) := by
    refine parallel_signature.bind fun signature _ => ?_
    refine parallel_prequels.bind fun sections _ => ?_
    refine parallel_ruleBody.bind fun body _ => .pure fun holds => ⟨.group ?_, rfl⟩
    obtain ⟨⟨⟨holds, signatures⟩, sections⟩, bodies⟩ := holds
    have front := Forall₂.cons (nameAlike holds) (modifiersAlike holds)
    exact rel_append (rel_append (rel_append front signatures) sections)
      (.cons bodies .nil)
  refine parallel_modifiers.bind fun modifiers others => ?_
  refine parallel_ruleName.bind fun found other => ?_
  obtain ⟨name, flavour⟩ := found
  obtain ⟨first, twin⟩ := other
  by_cases same : flavour = twin
  · subst same
    exact behindName _ flavour modifiers others name first (fun given => given.1.2)
      fun given => given.2.1
  · refine ⟨(behindName False flavour modifiers others name first ?_ ?_).takes,
      fun given => ?_⟩
    · exact False.elim
    · exact False.elim
    · exact absurd given.2.2 same

theorem parallel_ruleDeclaration :
    Parallel pace .all condition (DeclaredAlike pace.pairing) ruleDeclaration
      ruleDeclaration := by
  rw [ruleDeclaration_eq]
  refine parallel_openRule.bind fun front other => ?_
  exact (Parallel.semicolon fun _ => trivial).bind fun _ _ => .pure fun given => given.1.2

/-! ## Exception handlers -/

theorem parallel_handler : Steady pace .all condition handler := by
  refine (Parallel.expect (by decide)).bind fun keyword _ => ?_
  refine (Parallel.expect (by decide)).bind fun arguments _ => ?_
  refine (Parallel.expect (by decide)).bind fun body _ => .pure fun given => ?_
  obtain ⟨⟨⟨_, keywords⟩, arguments⟩, bodies⟩ := given
  exact .builtAt (.some keywords.span)
    (.cons (.leaf arguments) (.cons (.leaf bodies) .nil))

theorem parallel_cleanup : Steady pace .all condition cleanup := by
  refine (Parallel.expect (by decide)).bind fun keyword _ => ?_
  refine (Parallel.expect (by decide)).bind fun body _ => .pure fun given => ?_
  exact .builtAt (.some given.1.2.span) (.cons (.leaf given.2) .nil)

theorem length_handlers_le (tokens : List Token) :
    (handlers tokens).rest.length ≤ tokens.length := by
  obtain ⟨more, equal, _⟩ := handlers_eq tokens
  have lengths := congrArg List.length equal
  rw [length_append] at lengths
  omega

/-- The converse of `ne_of_excluding`. -/
theorem excluding_of_forall_ne {unwanted : List TokenKind}
    (other : ∀ kind ∈ unwanted, next ≠ some kind) : excluding unwanted next = true := by
  cases next with
  | none => rfl
  | some kind => exact decide_eq_true fun member => other kind member rfl

theorem neither_of_ne (noCatch : next ≠ some (.keyword .catchWord))
    (noFinally : next ≠ some (.keyword .finallyWord)) :
    excluding [.keyword .catchWord, .keyword .finallyWord] next = true :=
  excluding_of_forall_ne
    (forall_mem_cons.mpr ⟨noCatch, forall_mem_singleton.mpr noFinally⟩)

/-- Handlers that are alike. -/
structure Handlers.Alike (pace : Lockstep) (handlers other : Handlers) : Prop where
  trees : Forall₂ (Tree.Alike pace.pairing) handlers.trees other.trees
  faults : Forall₂ (SyntaxFault.Alike pace.Meets) handlers.faults other.faults
  rest : pace.Alike handlers.rest other.rest

theorem handlers_of_failed_handler
    (isCatch : headKind? tokens = some (.keyword .catchWord))
    (outcome : handler tokens = .failed expected rest) :
    handlers tokens = ⟨[], [.mismatched expected rest], rest⟩ := by
  rw [handlers]
  simp only [isCatch, outcome]

theorem handlers_of_failed_cleanup
    (isFinally : headKind? tokens = some (.keyword .finallyWord))
    (outcome : cleanup tokens = .failed expected rest) :
    handlers tokens = ⟨[], [.mismatched expected rest], rest⟩ := by
  rw [handlers]
  simp only [isFinally, outcome]

theorem length_lt_of_handler {tree : Tree} (outcome : handler tokens = .done tree rest) :
    rest.length < tokens.length := by
  obtain ⟨taken, equal, reads⟩ := ensures_handler.done outcome
  obtain ⟨token, others, rfl, _⟩ := Ebnf.exists_cons_of_derives reads.derives rfl
  rw [equal, length_append, length_cons]
  omega

theorem handlers_alike {others : List Token} (alike : pace.Alike tokens others)
    (shared : pace.tail.length ≤ (handlers tokens).rest.length) :
    (handlers tokens).Alike pace (handlers others) := by
  have handlerParallel : Steady pace .all True handler := parallel_handler
  have cleanupParallel : Steady pace .all True cleanup := parallel_cleanup
  induction count : tokens.length using Nat.strongRecOn generalizing tokens others with
  | ind count induction =>
    have heads := alike.headKind?_eq
    by_cases isCatch : headKind? tokens = some (.keyword .catchWord)
    · have isCatchToo := heads.symm.trans isCatch
      cases outcome : handler tokens with
      | failed expected rest =>
        rw [handlers_of_failed_handler isCatch outcome] at shared ⊢
        obtain ⟨left, failedToo, restAlike⟩ :=
          handlerParallel.exists_failed trivial alike outcome shared
        rw [handlers_of_failed_handler isCatchToo failedToo]
        exact ⟨.nil, .cons (.mismatched restAlike) .nil, restAlike⟩
      | done tree rest =>
        have shorter := length_lt_of_handler outcome
        rw [handlers_of_handler isCatch outcome shorter] at shared ⊢
        obtain ⟨other, left, doneToo, treeAlike, restAlike⟩ :=
          handlerParallel.exists_done trivial
          alike outcome (Nat.le_trans shared (length_handlers_le rest))
        obtain ⟨trees, faults, following⟩ :=
          induction _ (count ▸ shorter) restAlike shared rfl
        rw [handlers_of_handler isCatchToo doneToo (length_lt_of_handler doneToo)]
        exact ⟨.cons treeAlike trees, faults, following⟩
    · by_cases isFinally : headKind? tokens = some (.keyword .finallyWord)
      · have isFinallyToo := heads.symm.trans isFinally
        cases outcome : cleanup tokens with
        | failed expected rest =>
          rw [handlers_of_failed_cleanup isFinally outcome] at shared ⊢
          obtain ⟨left, failedToo, restAlike⟩ :=
            cleanupParallel.exists_failed trivial alike outcome shared
          rw [handlers_of_failed_cleanup isFinallyToo failedToo]
          exact ⟨.nil, .cons (.mismatched restAlike) .nil, restAlike⟩
        | done tree rest =>
          rw [handlers_of_cleanup isFinally outcome] at shared ⊢
          obtain ⟨other, left, doneToo, treeAlike, restAlike⟩ :=
            cleanupParallel.exists_done trivial alike outcome shared
          rw [handlers_of_cleanup isFinallyToo doneToo]
          exact ⟨.cons treeAlike .nil, .nil, restAlike⟩
      · have neither := neither_of_ne isCatch isFinally
        rw [handlers_of_neither neither, handlers_of_neither (heads ▸ neither)]
        exact ⟨.nil, .nil, alike⟩

/-! ## Whole rules -/

/-- Rules that are alike, and the faults of their handlers. -/
structure RulesAlike (pace : Lockstep) (found other : Tree × List SyntaxFault) :
    Prop where
  tree : found.1.Alike pace.pairing other.1
  faults : Forall₂ (SyntaxFault.Alike pace.Meets) found.2 other.2

theorem parallel_rule : Parallel pace .all condition (RulesAlike pace) rule rule where
  takes tokens := by
    cases outcome : rule tokens with
    | done found rest =>
      obtain ⟨taken, equal, _⟩ := ensures_rule.done outcome
      exact ⟨taken, equal, trivial⟩
    | failed expected rest =>
      obtain ⟨taken, equal⟩ := ensures_rule.failed outcome
      exact ⟨taken, equal.symm, trivial⟩
  agrees _ := by
    intro tokens others alike shared
    have declaration :
        Parallel pace .all True (DeclaredAlike pace.pairing) ruleDeclaration
        ruleDeclaration := parallel_ruleDeclaration
    rw [rule] at shared ⊢
    rw [rule]
    cases outcome : ruleDeclaration tokens with
    | failed expected rest =>
      rw [outcome] at shared
      obtain ⟨left, failedToo, restAlike⟩ :=
        declaration.exists_failed trivial alike outcome shared
      rw [failedToo]
      exact .failed restAlike
    | done found rest =>
      obtain ⟨tree, flavour⟩ := found
      rw [outcome] at shared
      cases flavour with
      | lexer =>
        obtain ⟨⟨other, _⟩, left, doneToo, ⟨treeAlike, rfl⟩, restAlike⟩ :=
          declaration.exists_done trivial alike outcome shared
        rw [doneToo]
        exact .done ⟨treeAlike, .nil⟩ restAlike
      | parser =>
        obtain ⟨⟨other, _⟩, left, doneToo, ⟨treeAlike, rfl⟩, restAlike⟩ :=
          declaration.exists_done trivial alike outcome
            (Nat.le_trans shared (length_handlers_le rest))
        obtain ⟨trees, faults, following⟩ := handlers_alike restAlike shared
        rw [doneToo]
        exact .done ⟨treeAlike.append trees, faults⟩ following

end Parse

end GrammarInspector
