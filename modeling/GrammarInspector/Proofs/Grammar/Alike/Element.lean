import GrammarInspector.Proofs.Grammar.Alike.Parse
import GrammarInspector.Proofs.Grammar.Sound.Element

/-! # Sections and elements side by side

Each section, each element and each block is read alike from tokens that are alike. Only
an `options` section takes semicolons, and those in front of the rules.
-/

namespace GrammarInspector.Parse

open List

variable {pace : Lockstep} {limits : Allowance} {condition : Prop} {flavour : RuleFlavour}
  {kind : NodeKind} {others tokens : List Token} {other : Tree}

/-! ## Sections -/

theorem parallel_leaf {parse : Parse Token}
    (token : Parallel pace limits condition (Token.Alike pace.pairing) parse parse) :
    Steady pace limits condition (do return Tree.leaf kind (← parse)) :=
  token.bind fun _ _ => .pure fun given => .leaf given.2

/-- What is joined to alike texts and places is alike. -/
theorem alike_joined {rest : List Token} {span other : Span} (text : String)
    (spans : pace.pairing.pairs span other)
    (alike : Forall₂ (Token.Alike pace.pairing) rest others) :
    rest.foldl (fun text name => text ++ "." ++ name.text) text =
        others.foldl (fun text name => text ++ "." ++ name.text) text ∧
      pace.pairing.pairs (rest.foldl (fun span name => span.merge name.span) span)
        (others.foldl (fun span name => span.merge name.span) other) := by
  induction alike generalizing text span other with
  | nil => exact ⟨rfl, spans⟩
  | cons name _ induction =>
    rw [foldl_cons, foldl_cons, foldl_cons, foldl_cons, name.text]
    exact induction _ (pace.pairing.merge spans name.span)

theorem parallel_dottedName : Steady pace limits condition dottedName := by
  refine (Parallel.separated (by decide) .identifier).bind fun names others => ?_
  cases names with
  | nil =>
    cases others with
    | nil => exact .fail
    | cons second further => exact ⟨fun _ => ⟨[], rfl, limits.nothing⟩, fun given =>
        nomatch given.2⟩
  | cons first rest =>
    cases others with
    | nil => exact ⟨fun _ => ⟨[], rfl, limits.nothing⟩, fun given => nomatch given.2⟩
    | cons second further =>
      refine .pure fun given => ?_
      cases given.2 with
      | cons firstAlike restAlike =>
        obtain ⟨text, span⟩ := alike_joined first.text firstAlike.span restAlike
        exact .node ⟨rfl, text.trans (by rw [firstAlike.text]), .some span, .none⟩ .nil

theorem parallel_optionValue : Steady pace limits condition optionValue := by
  refine .peek fun kind => ?_
  split
  · exact parallel_leaf (.expect (by decide))
  · exact parallel_leaf (.expect (by decide))
  · exact parallel_leaf (.expect (by decide))
  · exact parallel_dottedName
  · exact parallel_dottedName
  · exact .fail

theorem parallel_option (every : ∀ token, limits.may [token]) :
    Steady pace limits condition option := by
  refine Parallel.identifier.bind fun name _ => ?_
  refine (Parallel.mark (by decide)).bind fun assign _ => ?_
  refine parallel_optionValue.bind fun value _ => ?_
  refine (Parallel.semicolon every).bind fun _ _ => .pure fun given => ?_
  obtain ⟨⟨⟨⟨_, names⟩, assigns⟩, values⟩, _⟩ := given
  exact .builtAt (.some assigns.span) (.cons (.leaf names) (.cons values .nil))

/-- Behind the first token of an `options` section all tokens may be taken. -/
theorem Parallel.behindOptions {α : Type} {final : α → α → Prop}
    {next further : Token → Parse α} (each : ∀ token first,
      Parallel pace .all (condition ∧ token.Alike pace.pairing first) final
      (next token) (further first)) :
    Parallel pace limits condition final (Parse.expect (.opener .options) >>= next)
      (Parse.expect (.opener .options) >>= further) where
  takes tokens := by
    rw [bind_apply]
    cases tokens with
    | nil => exact ⟨[], rfl, limits.nothing⟩
    | cons token rest =>
      by_cases isOptions : token.kind = .opener .options
      · rw [expect_cons isOptions]
        obtain ⟨taken, equal, _⟩ := (each token token).takes rest
        exact ⟨token :: taken, congrArg (token :: ·) equal, limits.options isOptions⟩
      · rw [Parse.expect, Parse.take, if_neg (by simpa using isOptions)]
        exact ⟨[], rfl, limits.nothing⟩
  agrees := ((Parallel.expect (by decide)).bind each).agrees

theorem parallel_options : Steady pace limits condition options := by
  refine .behindOptions fun opening _ => ?_
  refine (parallel_option fun _ => trivial).many.bind fun entries _ => ?_
  refine (Parallel.mark (by decide)).bind fun _ _ => .pure fun given => ?_
  obtain ⟨⟨⟨_, openings⟩, entries⟩, _⟩ := given
  exact .builtAt (.some openings.span) entries

theorem takes_namesFrom (tokens : List Token) :
    ∃ taken, tokens = taken ++ (namesFrom tokens).2 ∧ limits.may taken := by
  have plain {name : Token} (isName : name.kind.isIdentifier = true) :
      limits.may [name] := by
    refine limits.single fun isSemicolon => ?_
    rw [isSemicolon] at isName
    cases isName
  fun_induction namesFrom tokens with
  | case1 => exact ⟨[], rfl, limits.nothing⟩
  | case2 name isName => exact ⟨[name], rfl, plain isName⟩
  | case3 name isName comma rest isComma names left recursion induction =>
    rw [recursion] at induction
    obtain ⟨taken, equal, mayTake⟩ := induction
    refine ⟨name :: comma :: taken, congrArg (name :: comma :: ·) equal, ?_⟩
    refine limits.append (plain isName) (limits.append (limits.single ?_) mayTake)
    rw [isComma]
    decide
  | case4 name isName comma rest other => exact ⟨[name], rfl, plain isName⟩
  | case5 name rest other => exact ⟨[], rfl, limits.nothing⟩

theorem namesFrom_alike (alike : pace.Alike tokens others)
    (shared : pace.tail.length ≤ (namesFrom tokens).2.length) :
    Forall₂ (Tree.Alike pace.pairing) (namesFrom tokens).1 (namesFrom others).1 ∧
      pace.Alike (namesFrom tokens).2 (namesFrom others).2 := by
  fun_induction namesFrom tokens generalizing others with
  | case1 =>
    obtain rfl := alike.eq_nil
    rw [namesFrom]
    exact ⟨.nil, alike⟩
  | case2 name isName =>
    obtain ⟨first, further, rfl, kinds, behind⟩ := alike.exists_cons
    obtain ⟨nameAlike, restAlike⟩ := behind shared
    obtain rfl := restAlike.eq_nil
    rw [namesFrom, if_pos (kinds ▸ isName)]
    exact ⟨.cons (.leaf nameAlike) .nil, restAlike⟩
  | case3 name isName comma rest isComma names left recursion induction =>
    have fewer : left.length ≤ rest.length := by
      have later : ∃ taken, rest = taken ++ (namesFrom rest).2 ∧
          Allowance.all.may taken := takes_namesFrom rest
      obtain ⟨taken, equal, _⟩ := later
      rw [recursion] at equal
      rw [equal, length_append]
      exact Nat.le_add_left ..
    obtain ⟨first, further, rfl, kinds, behind⟩ := alike.exists_cons
    obtain ⟨nameAlike, restAlike⟩ :=
      behind (Nat.le_succ_of_le (Nat.le_trans shared fewer))
    obtain ⟨second, further, rfl, commas, behind⟩ := restAlike.exists_cons
    obtain ⟨_, restAlike⟩ := behind (Nat.le_trans shared fewer)
    rw [recursion] at induction
    obtain ⟨namesAlike, leftAlike⟩ := induction restAlike shared
    simp only [namesFrom, if_pos (kinds ▸ isName), if_pos (commas ▸ isComma)]
    exact ⟨.cons (.leaf nameAlike) namesAlike, leftAlike⟩
  | case4 name isName comma rest other =>
    obtain ⟨first, further, rfl, kinds, behind⟩ := alike.exists_cons
    obtain ⟨nameAlike, restAlike⟩ := behind shared
    obtain ⟨second, further, rfl, commas, _⟩ := restAlike.exists_cons
    simp only [namesFrom, if_pos (kinds ▸ isName), if_neg (commas ▸ other)]
    exact ⟨.cons (.leaf nameAlike) .nil, restAlike⟩
  | case5 name rest other =>
    obtain ⟨first, further, rfl, kinds, _⟩ := alike.exists_cons
    rw [namesFrom.eq_def]
    simp only [if_neg (kinds ▸ other)]
    exact ⟨.nil, alike⟩

theorem parallel_names : SteadyList pace limits condition names where
  takes := takes_namesFrom
  agrees _ := by
    intro tokens others alike shared
    obtain ⟨namesAlike, restAlike⟩ := namesFrom_alike alike shared
    exact .done namesAlike restAlike

theorem parallel_nameSection {opener : Opener} :
    Steady pace limits condition (nameSection opener kind) := by
  refine (Parallel.expect (by simp)).bind fun opening _ => ?_
  refine parallel_names.bind fun names _ => ?_
  refine (Parallel.mark (by decide)).bind fun _ _ => .pure fun given => ?_
  obtain ⟨⟨⟨_, openings⟩, names⟩, _⟩ := given
  exact .builtAt (.some openings.span) names

theorem parallel_delegate : Steady pace limits condition delegate := by
  refine Parallel.identifier.bind fun name _ => ?_
  refine .eat (by decide) (fun assign _ => ?_) ?_
  · refine Parallel.identifier.bind fun target _ => .pure fun given => ?_
    obtain ⟨⟨⟨_, names⟩, assigns⟩, targets⟩ := given
    exact .builtAt (.some assigns.span) (.cons (.leaf names) (.cons (.leaf targets) .nil))
  · exact .pure fun given => .leaf given.2

theorem parallel_imports (every : ∀ token, limits.may [token]) :
    Steady pace limits condition imports := by
  refine (Parallel.expect (by decide)).bind fun keyword _ => ?_
  refine (Parallel.separated (by decide) parallel_delegate).bind fun delegates _ => ?_
  refine (Parallel.semicolon every).bind fun _ _ => .pure fun given => ?_
  obtain ⟨⟨⟨_, keywords⟩, delegates⟩, _⟩ := given
  exact .builtAt (.some keywords.span) delegates

theorem alike_leaves (alike : Forall₂ (Token.Alike pace.pairing) tokens others) :
    Forall₂ (Tree.Alike pace.pairing) (tokens.map (Tree.leaf kind))
      (others.map (Tree.leaf kind)) := by
  induction alike with
  | nil => exact .nil
  | cons first _ induction => exact .cons (.leaf first) induction

theorem parallel_namedAction : Steady pace limits condition namedAction := by
  have ending (given : Prop) (start first : Token) (names others : List Token)
      (starts : given → start.Alike pace.pairing first)
      (alike : given → Forall₂ (Token.Alike pace.pairing) names others) :
      Parallel pace limits given (Tree.Alike pace.pairing)
        (do let body ← expect .action
            return Tree.builtAt .namedAction start.span
              (names.map (.leaf .identifier) ++ [.leaf .action body]))
        (do let body ← expect .action
            return Tree.builtAt .namedAction first.span
              (others.map (.leaf .identifier) ++ [.leaf .action body])) := by
    refine (Parallel.expect (by decide)).bind fun body _ =>
      .pure fun ⟨holds, bodies⟩ => ?_
    refine .builtAt (.some (starts holds).span) ?_
    exact rel_append (alike_leaves (alike holds)) (.cons (.leaf bodies) .nil)
  refine (Parallel.mark (by decide)).bind fun start first => ?_
  refine (Parallel.takeOther rfl).bind fun name other => ?_
  refine .eat (by decide) (fun _ _ => ?_) ?_
  · refine Parallel.identifier.bind fun second last => ?_
    exact ending _ start first [name, second] [other, last] (fun given => given.1.1.1.2)
      fun given => .cons given.1.1.2 (.cons given.2 .nil)
  · exact ending _ start first [name] [other] (fun given => given.1.2)
      fun given => .cons given.2 .nil

theorem parallel_prequels : SteadyList pace limits condition prequels := by
  refine .many (.peek fun kind => ?_)
  split
  · exact parallel_options
  · exact parallel_namedAction

/-! ## Elements -/

theorem parallel_elementOptionValue :
    Steady pace limits condition elementOptionValue := by
  refine .peek fun kind => ?_
  split
  · exact parallel_leaf .identifier
  · exact parallel_leaf .identifier
  · exact parallel_leaf (.expect (by decide))
  · exact parallel_leaf (.expect (by decide))
  · exact .fail

theorem parallel_elementOption : Steady pace limits condition elementOption := by
  refine Parallel.identifier.bind fun name _ => ?_
  refine .eat (by decide) (fun assign _ => ?_) ?_
  · refine parallel_elementOptionValue.bind fun value _ => .pure fun given => ?_
    obtain ⟨⟨⟨_, names⟩, assigns⟩, values⟩ := given
    exact .builtAt (.some assigns.span) (.cons (.leaf names) (.cons values .nil))
  · exact .pure fun given => .leaf given.2

theorem parallel_elementOptions? : SteadyList pace limits condition elementOptions? := by
  have options : Steady pace limits condition elementOptions := by
    refine (Parallel.mark (by decide)).bind fun opening _ => ?_
    refine (Parallel.separated (by decide) parallel_elementOption).bind
      fun entries _ => ?_
    refine (Parallel.mark (by decide)).bind fun _ _ => .pure fun given => ?_
    obtain ⟨⟨⟨_, openings⟩, entries⟩, _⟩ := given
    exact .builtAt (.some openings.span) entries
  refine .peek fun kind => ?_
  split
  · exact options.bind fun _ _ => .pure fun given => .cons given.2 .nil
  · exact .pure fun _ => .nil

theorem parallel_characterRange : Steady pace limits condition characterRange := by
  refine (Parallel.expect (by decide)).bind fun first _ => ?_
  refine (Parallel.mark (by decide)).bind fun dots _ => ?_
  refine (Parallel.expect (by decide)).bind fun last _ => .pure fun given => ?_
  obtain ⟨⟨⟨_, firsts⟩, dots⟩, lasts⟩ := given
  exact .builtAt (.some dots.span) (.cons (.leaf firsts) (.cons (.leaf lasts) .nil))

theorem parallel_setElement : Steady pace limits condition (setElement flavour) := by
  refine .peekBoth (fun first second => ?_) fun _ _ => rfl
  split
  · exact parallel_leaf (.expect (by decide))
  · exact parallel_characterRange
  · exact parallel_leaf (.expect (by decide))
  · split
    · exact parallel_leaf (.expect (by decide))
    · exact .fail
  · exact .fail

theorem parallel_complement : Steady pace limits condition (complement flavour) := by
  refine (Parallel.mark (by decide)).bind fun tilde _ => ?_
  refine .eat (by decide) (fun _ _ => ?_) ?_
  · refine (Parallel.separated (by decide) parallel_setElement).bind fun elements _ => ?_
    refine (Parallel.mark (by decide)).bind fun _ _ => .pure fun given => ?_
    obtain ⟨⟨⟨⟨_, tildes⟩, _⟩, elements⟩, _⟩ := given
    exact .builtAt (.some tildes.span) (.cons (.group elements) .nil)
  · refine parallel_setElement.bind fun element _ => .pure fun given => ?_
    obtain ⟨⟨_, tildes⟩, elements⟩ := given
    exact .builtAt (.some tildes.span) (.cons (.group (.cons elements .nil)) .nil)

theorem parallel_arguments? : SteadyList pace limits condition (arguments? flavour) := by
  unfold arguments?
  split
  · refine .eat (by decide) (fun _ _ => ?_) (.pure fun _ => .nil)
    exact .pure fun given => .cons (.leaf given.2) .nil
  · exact .pure fun _ => .nil

theorem parallel_atom : Steady pace limits condition (atom flavour) := by
  refine .peekBoth (fun first second => ?_) fun _ _ => rfl
  split
  · refine (Parallel.expect (by decide)).bind fun reference _ => ?_
    refine parallel_elementOptions?.bind fun _ _ => .pure fun given => ?_
    exact (Tree.Alike.leaf given.1.2).append given.2
  · refine (Parallel.expect (by decide)).bind fun reference _ => ?_
    refine parallel_arguments?.bind fun arguments _ => ?_
    refine parallel_elementOptions?.bind fun _ _ => .pure fun given => ?_
    obtain ⟨⟨⟨_, references⟩, arguments⟩, options⟩ := given
    exact (Tree.Alike.leaf references).append (rel_append arguments options)
  · exact parallel_characterRange
  · refine (Parallel.expect (by decide)).bind fun literal _ => ?_
    refine parallel_elementOptions?.bind fun _ _ => .pure fun given => ?_
    exact (Tree.Alike.leaf given.1.2).append given.2
  · split
    · exact parallel_leaf (.expect (by decide))
    · exact .fail
  · refine (Parallel.mark (by decide)).bind fun dot _ => ?_
    refine parallel_elementOptions?.bind fun _ _ => .pure fun given => ?_
    exact .builtAt (.some given.1.2.span) given.2
  · exact parallel_complement
  · exact .fail

/-! ## Suffixes and labels -/

theorem elementStart_alike {element : Tree} (alike : element.Alike pace.pairing other) :
    Option.Rel pace.pairing.pairs (elementStart element) (elementStart other) := by
  have first : Option.Rel pace.pairing.pairs (element.firstChild?.bind Tree.anchor)
      (other.firstChild?.bind Tree.anchor) := by
    cases alike with
    | node _ below =>
      cases below with
      | nil => exact .none
      | cons firstAlike _ => exact firstAlike.anchor
  rw [elementStart, elementStart, ← alike.kind_eq]
  split
  · exact first
  · exact first
  · exact alike.anchor

theorem suffixBlock_alike {element : Tree} (alike : element.Alike pace.pairing other) :
    (suffixBlock element).Alike pace.pairing (suffixBlock other) := by
  rw [suffixBlock, suffixBlock, ← alike.kind_eq]
  split
  · exact alike
  · exact .builtAt (elementStart_alike alike) (.cons (.group (.cons alike .nil)) .nil)

theorem parallel_suffixed {element : Tree}
    (alike : condition → element.Alike pace.pairing other) :
    Parallel pace limits condition (Tree.Alike pace.pairing) (suffixed element)
      (suffixed other) := by
  -- Behind the suffix a question mark is passed over.
  have operator (kind : NodeKind) (suffix first : Token) :
      Parallel pace limits (condition ∧ suffix.Alike pace.pairing first)
        (Tree.Alike pace.pairing)
        (do let _ ← eat (.punctuation .question)
            return Tree.builtAt kind suffix.span [suffixBlock element])
        (do let _ ← eat (.punctuation .question)
            return Tree.builtAt kind first.span [suffixBlock other]) := by
    have built (given : Prop) (holds : given → condition ∧
        suffix.Alike pace.pairing first) :
        Parallel pace limits given (Tree.Alike pace.pairing)
          (pure (Tree.builtAt kind suffix.span [suffixBlock element]))
          (pure (Tree.builtAt kind first.span [suffixBlock other])) := by
      refine .pure fun given => .builtAt (.some (holds given).2.span) ?_
      exact .cons (suffixBlock_alike (alike (holds given).1)) .nil
    exact .eat (by decide) (fun _ _ => built _ And.left) (built _ id)
  constructor
  · intro tokens
    cases tokens with
    | nil => exact ⟨[], rfl, limits.nothing⟩
    | cons suffix rest =>
      rw [suffixed]
      split
      · exact ⟨[], rfl, limits.nothing⟩
      · next kind isSuffix =>
        obtain ⟨taken, equal, mayTake⟩ := (operator kind suffix suffix).takes rest
        refine ⟨suffix :: taken, congrArg (suffix :: ·) equal, ?_⟩
        refine limits.append (limits.single fun isSemicolon => ?_) mayTake
        rw [isSemicolon] at isSuffix
        cases isSuffix
  · intro given tokens others tokensAlike shared
    cases tokens with
    | nil =>
      obtain rfl := tokensAlike.eq_nil
      exact .done (alike given) tokensAlike
    | cons suffix rest =>
      obtain ⟨first, further, rfl, kinds, behind⟩ := tokensAlike.exists_cons
      rw [suffixed] at shared ⊢
      rw [suffixed, ← kinds]
      cases isSuffix : suffixKind? suffix.kind with
      | none => exact .done (alike given) tokensAlike
      | some kind =>
        rw [isSuffix] at shared
        have enough := (operator kind suffix suffix).rest_length_le rest
        obtain ⟨suffixAlike, restAlike⟩ := behind (Nat.le_trans shared enough)
        exact (operator kind suffix first).agrees ⟨given, suffixAlike⟩ restAlike shared

/-! ## Alternatives and blocks -/

theorem parallel_command : Steady pace limits condition command := by
  have argument (given : Prop) : Steady pace limits given commandArgument := by
    refine .peek fun kind => ?_
    split
    · exact parallel_leaf .identifier
    · exact parallel_leaf .identifier
    · exact parallel_leaf (.expect (by decide))
    · exact .fail
  refine (Parallel.takeOther rfl).bind fun name _ => ?_
  refine .eat (by decide) (fun _ _ => ?_) (.pure fun given => .leaf given.2)
  refine (argument _).bind fun given _ => ?_
  refine (Parallel.mark (by decide)).bind fun _ _ => .pure fun given => ?_
  obtain ⟨⟨⟨⟨_, names⟩, _⟩, arguments⟩, _⟩ := given
  exact .group (.cons (.leaf names) (.cons arguments .nil))

theorem parallel_blockPrequels : SteadyList pace limits condition blockPrequels := by
  refine parallel_prequels.bind fun sections others => ?_
  cases sections with
  | nil =>
    cases others with
    | nil => exact .pure fun _ => .nil
    | cons first rest =>
      exact ⟨fun _ => ⟨[], rfl, limits.nothing⟩, fun given => nomatch given.2⟩
  | cons tree trees =>
    have ending (given : Prop) (first : Tree) (rest : List Tree)
        (alike : given → Forall₂ (Tree.Alike pace.pairing) (tree :: trees)
          (first :: rest)) :
        Parallel pace limits given (Forall₂ (Tree.Alike pace.pairing))
          (do let _ ← mark .colon; return tree :: trees)
          (do let _ ← mark .colon; return first :: rest) :=
      (Parallel.mark (by decide)).bind fun _ _ => .pure fun holds => alike holds.1
    cases others with
    | nil => exact ⟨(ending False tree trees False.elim).takes, fun given =>
        nomatch given.2⟩
    | cons first rest => exact ending _ first rest And.right

section Blocks

variable {block twin : Parse Tree}
  (inner : Parallel pace limits condition (Tree.Alike pace.pairing) block twin)

include inner

theorem parallel_labelled : Parallel pace limits condition (Tree.Alike pace.pairing)
    (labelled block flavour) (labelled twin flavour) := by
  have target (given : Prop) (holds : given → condition) :
      Parallel pace limits given (Tree.Alike pace.pairing) (labelTarget block flavour)
        (labelTarget twin flavour) := by
    refine .peek fun kind => ?_
    split
    · exact inner.under holds
    · exact parallel_atom
  refine Parallel.identifier.bind fun label _ => ?_
  refine (Parallel.takeOther rfl).bind fun operator first => ?_
  refine (target _ fun given => given.1.1).bind fun element _ => .pure fun given => ?_
  obtain ⟨⟨⟨_, labels⟩, operators⟩, elements⟩ := given
  rw [operators.kind]
  exact .builtAt (.some operators.span) (.cons (.leaf labels) (.cons elements .nil))

theorem parallel_element : Parallel pace limits condition (Tree.Alike pace.pairing)
    (element block flavour) (element twin flavour) := by
  refine .peekBoth (fun first second => ?_) fun _ _ => rfl
  split
  · exact (parallel_labelled inner).bind fun _ _ => parallel_suffixed And.right
  · split
    · exact inner.bind fun _ _ => parallel_suffixed And.right
    · exact parallel_leaf (.expect (by decide))
    · exact parallel_leaf (.expect (by decide))
    · exact parallel_atom.bind fun _ _ => parallel_suffixed And.right

theorem parallel_alternative : Parallel pace limits condition (Tree.Alike pace.pairing)
    (alternative block flavour) (alternative twin flavour) := by
  have options : SteadyList pace limits condition (alternativeOptions? flavour) := by
    unfold alternativeOptions?
    split
    · exact parallel_elementOptions?
    · exact .pure fun _ => .nil
  refine options.bind fun options others => ?_
  refine (parallel_element (inner.under And.left)).many.bind fun elements twins => ?_
  -- An alternative without elements gets an epsilon.
  have bodies (alike : Forall₂ (Tree.Alike pace.pairing) elements twins) :
      Forall₂ (Tree.Alike pace.pairing)
        (if elements.isEmpty then [Tree.group .epsilon []] else elements)
        (if twins.isEmpty then [Tree.group .epsilon []] else twins) := by
    cases alike with
    | nil => exact .cons (.group .nil) .nil
    | cons first rest => exact .cons first rest
  refine .peek fun kind => ?_
  split
  · split
    · refine (Parallel.mark (by decide)).bind fun _ _ => ?_
      refine (Parallel.separated (by decide) parallel_command).bind fun commands _ =>
        .pure fun given => ?_
      obtain ⟨⟨⟨⟨_, options⟩, elements⟩, _⟩, commands⟩ := given
      exact .group (.cons (.group (rel_append options (bodies elements))) commands)
    · exact .pure fun given => .group (rel_append given.1.2 (bodies given.2))
  · exact .pure fun given => .group (rel_append given.1.2 (bodies given.2))

theorem parallel_blockOf : Parallel pace limits condition (Tree.Alike pace.pairing)
    (blockOf block flavour) (blockOf twin flavour) := by
  refine (Parallel.mark (by decide)).bind fun opening _ => ?_
  refine parallel_blockPrequels.bind fun sections _ => ?_
  refine (Parallel.separated (by decide)
    (parallel_alternative (inner.under fun given => given.1.1))).bind
      fun alternatives _ => ?_
  refine (Parallel.mark (by decide)).bind fun _ _ => .pure fun given => ?_
  obtain ⟨⟨⟨⟨_, openings⟩, sections⟩, alternatives⟩, _⟩ := given
  exact .builtAt (.some openings.span) (rel_append sections alternatives)

end Blocks

/-- Blocks inside a block are read from fewer tokens. How many they are depends on the
ends of the lists. -/
theorem parallel_blockWithin (bound limit : Nat) :
    Parallel pace limits (bound + pace.other.length = limit + pace.tail.length)
      (Tree.Alike pace.pairing) (blockWithin flavour bound)
        (blockWithin flavour limit) := by
  induction bound using Nat.strongRecOn generalizing limit with
  | ind bound induction =>
    constructor
    · intro tokens
      rw [blockWithin]
      split
      · next shorter =>
        rw [block_eq]
        exact (parallel_blockOf (induction _ shorter limit)).takes tokens
      · exact ⟨[], rfl, limits.nothing⟩
    · intro bounds tokens others alike shared
      have lengths := alike.length_eq
      rw [blockWithin] at shared ⊢
      rw [blockWithin]
      by_cases shorter : tokens.length < bound
      · have shorterToo : others.length < limit := by omega
        rw [if_pos shorter, block_eq] at shared ⊢
        rw [if_pos shorterToo, block_eq]
        exact (parallel_blockOf (induction _ shorter others.length)).agrees
          lengths alike shared
      · have longer : ¬ others.length < limit := by omega
        rw [if_neg shorter, if_neg longer]
        exact .failed alike

theorem parallel_block : Steady pace limits condition (block flavour) := by
  have within (bound limit : Nat) : Parallel pace limits _ (Tree.Alike pace.pairing)
      (blockOf (blockWithin flavour bound) flavour)
        (blockOf (blockWithin flavour limit) flavour) :=
    parallel_blockOf (parallel_blockWithin bound limit)
  constructor
  · intro tokens
    rw [block_eq]
    exact (within _ 0).takes tokens
  · intro _ tokens others alike shared
    rw [block_eq] at shared ⊢
    rw [block_eq]
    exact (within _ _).agrees alike.length_eq alike shared

end GrammarInspector.Parse
