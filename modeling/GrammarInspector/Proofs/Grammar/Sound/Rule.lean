import GrammarInspector.Proofs.Grammar.Sound.Element

/-! # Rules are read as their productions say

A rule whose handlers are at fault is kept, so there are two statements about rules: the
tree of a rule is always built from the tokens taken, and without a fault these tokens are
a rule of the grammar language.
-/

namespace GrammarInspector

open List

namespace RuleFlavour

/-- The kind of token that names a rule. -/
def nameToken : RuleFlavour → TokenKind
  | .parser => .ruleRef
  | .lexer => .tokenRef

/-- The kind of node that names a rule. -/
def nameKind : RuleFlavour → NodeKind
  | .parser => .ruleRef
  | .lexer => .tokenRef

/-- The parts of a rule between its name and the semicolon. -/
def behindName : RuleFlavour → List Ebnf
  | .parser => [.signature, .many .rulePrequel, .mark .colon,
      .separated .bar .labelledAlternative, .mark .semicolon]
  | .lexer => [.many .rulePrequel, .mark .colon,
      .separated .bar (.construct (.alternative .lexer)), .mark .semicolon]

end RuleFlavour

namespace Parse

variable {flavour : RuleFlavour}

/-! ## Head of a rule -/

theorem derives_modifier {kind : TokenKind} (isModifier : isModifier kind = true) :
    Ebnf.modifier.Derives [kind] := by
  unfold Parse.isModifier at isModifier
  split at isModifier
  · exact .oneOf (by simp [Ebnf.keyword]) (.terminal (.keyword .fragment))
  · exact .oneOf (by simp [Ebnf.keyword]) (.terminal (.keyword .publicWord))
  · exact .oneOf (by simp [Ebnf.keyword]) (.terminal (.keyword .privateWord))
  · exact .oneOf (by simp [Ebnf.keyword]) (.terminal (.keyword .protectedWord))
  · cases isModifier

theorem ensures_modifiers :
    Ensures modifiers fun taken trees => trees = Tree.ofModifiers taken ∧
      (∀ token ∈ taken, isModifier token.kind = true) ∧
      (Ebnf.many .modifier).Derives (taken.map Token.kind) := by
  have tokens : Ensures (many isModifier (take isModifier .ruleName)) fun taken tokens =>
      taken = tokens ∧ (∀ token ∈ taken, isModifier token.kind = true) ∧
        (Ebnf.many .modifier).Derives (taken.map Token.kind) := by
    refine (Ensures.take _ _).many ⟨rfl, by simp, .none⟩ ?_
    rintro _ token more _ ⟨rfl, isModifier⟩ ⟨rfl, areModifiers, derives⟩
    refine ⟨rfl, ?_, .more (derives_modifier isModifier) derives⟩
    simp only [singleton_append, mem_cons, forall_eq_or_imp]
    exact ⟨isModifier, areModifiers⟩
  refine tokens.bind ?_
  rintro tokens _ ⟨rfl, areModifiers, derives⟩
  unfold Tree.ofModifiers
  split
  · rename_i isEmpty
    refine .pure ?_
    rw [append_nil, if_pos isEmpty]
    exact ⟨rfl, areModifiers, derives⟩
  · rename_i isNonempty
    refine .pure ?_
    rw [append_nil, if_neg isNonempty]
    exact ⟨rfl, areModifiers, derives⟩

theorem ensures_ruleName :
    Ensures ruleName fun taken found => ∃ name flavour, taken = [name] ∧
      name.kind = flavour.nameToken ∧ found = (.leaf flavour.nameKind name, flavour) := by
  refine (Ensures.take _ _).bind ?_
  rintro name _ ⟨rfl, isName⟩
  split
  · rename_i isToken
    exact .pure ⟨name, .lexer, rfl, isToken, rfl⟩
  · rename_i notToken
    have isRule := (TokenKind.isIdentifier_iff.mp isName).resolve_left notToken
    exact .pure ⟨name, .parser, rfl, isRule, rfl⟩

theorem ensures_bracketed? {word : Keyword} {kind : NodeKind}
    (isHolder : kind.isHolder = true) :
    Ensures (bracketed? word kind) (Reads (.bracketed word) false) := by
  refine (Ensures.eat _).bind ?_
  rintro found _ ⟨rfl, isKeyword⟩
  cases found with
  | none => exact .pure .absent
  | some keyword =>
    refine (Ensures.expect _).bind ?_
    rintro bracket _ ⟨rfl, isBracket⟩
    refine .pure (.present (.holderAt isHolder (by simp) ?_))
    exact (Reads.keyword (isKeyword _ rfl)).cons
      ((Reads.leaf isBracket rfl rfl).cons .nil)

theorem ensures_throws? : Ensures throws? (Reads .throws false) := by
  refine (Ensures.eat _).bind ?_
  rintro found _ ⟨rfl, isKeyword⟩
  cases found with
  | none => exact .pure .absent
  | some keyword =>
    have names : Ensures identifier fun taken name =>
        Reads .identifier false taken [Tree.leaf .identifier name] := by
      refine Ensures.identifier.mono ?_
      rintro _ name ⟨rfl, isName⟩
      exact .identifier isName
    refine (ensures_separated names).returns fun taken tokens reads => ?_
    rw [← map_eq_flatMap] at reads
    refine .present (.holderAt rfl (by simp) ?_)
    exact (Reads.keyword (isKeyword _ rfl)).cons reads.last

theorem ensures_signature : Ensures (signature .parser) (Reads .signature false) := by
  refine (ensures_arguments? false).bind fun arguments argumentsTaken argumentsRead => ?_
  refine (ensures_bracketed? rfl).bind fun returns returnsTaken returnsRead => ?_
  refine ensures_throws?.bind fun throws throwsTaken throwsRead => ?_
  refine (ensures_bracketed? rfl).returns fun localsTaken locals localsRead => ?_
  rw [append_assoc, append_assoc]
  exact argumentsRead.cons (returnsRead.cons (throwsRead.cons localsRead.last))

/-! ## Body of a rule -/

theorem ensures_lexerAlternative :
    ReadsAs (ruleAlternative .lexer) (.construct (.alternative .lexer)) true :=
  (ensures_alternative ensures_block).returns fun _ _ known => known.reads

theorem ensures_parserAlternative :
    ReadsAs (ruleAlternative .parser) .labelledAlternative true := by
  refine (ensures_alternative ensures_block).bind fun alternative taken known => ?_
  refine (Ensures.eat _).bind ?_
  rintro found _ ⟨rfl, isHash⟩
  cases found with
  | none => exact .pure (known.reads.ended (Reads.absent.cons .nil))
  | some hash =>
    refine Ensures.identifier.bind ?_
    rintro label _ ⟨rfl, isName⟩
    obtain ⟨children, rfl, built⟩ := known.plain rfl
    have labelReads : Reads (.optional (.sequence [.mark .hash, .identifier])) true
        [hash, label] [.leaf .identifier label] :=
      .present ((Reads.mark (isHash _ rfl)).cons ((Reads.identifier isName).cons .nil))
    have structural : hash.kind.isText = false := by
      rw [isHash _ rfl]
      rfl
    exact .pure ⟨(known.reads.cons labelReads.last).derives,
      .labelled structural isName built⟩

theorem ensures_ruleBody {alternative : Ebnf}
    (each : ReadsAs (ruleAlternative flavour) alternative true) :
    ReadsAs (ruleBody flavour)
      (.sequence [.mark .colon, .separated .bar alternative]) false := by
  refine (Ensures.mark _).bind ?_
  rintro colon _ ⟨rfl, isColon⟩
  refine (ensures_separatedTrees each).returns fun taken alternatives reads => ?_
  exact .holderAt rfl (by simp) ((Reads.mark isColon).cons reads.last)

/-! ## Exception handlers -/

theorem ensures_handler : ReadsAs handler .handler false := by
  refine (Ensures.expect _).bind ?_
  rintro keyword _ ⟨rfl, isKeyword⟩
  refine (Ensures.expect _).bind ?_
  rintro bracket _ ⟨rfl, isBracket⟩
  refine (Ensures.expect _).bind ?_
  rintro body _ ⟨rfl, isBody⟩
  refine .pure (.holderAt rfl (by simp) ?_)
  exact (Reads.keyword isKeyword).cons
    ((Reads.leaf isBracket rfl rfl).cons ((Reads.leaf isBody rfl rfl).cons .nil))

theorem ensures_cleanup : ReadsAs cleanup .cleanup false := by
  refine (Ensures.expect _).bind ?_
  rintro keyword _ ⟨rfl, isKeyword⟩
  refine (Ensures.expect _).bind ?_
  rintro body _ ⟨rfl, isBody⟩
  refine .pure (.holderAt rfl (by simp) ?_)
  exact (Reads.keyword isKeyword).cons ((Reads.leaf isBody rfl rfl).cons .nil)

/-- The handlers take tokens from the front, faulty ones included. Their trees are built
from them, and without a fault they are handlers and then perhaps a last action. -/
theorem handlers_eq (tokens : List Token) :
    ∃ taken, tokens = taken ++ (handlers tokens).rest ∧
      Tree.Built (fun _ => True) false taken (handlers tokens).trees ∧
      ((handlers tokens).faults = [] → ∃ caught last caughtTrees lastTrees,
        taken = caught ++ last ∧ (handlers tokens).trees = caughtTrees ++ lastTrees ∧
          Reads (.many .handler) false caught caughtTrees ∧
          Reads (.optional .cleanup) false last lastTrees) := by
  have anything {taken : List Token} {trees : List Tree} {expression : Ebnf}
      (reads : Reads expression false taken trees) :
      Tree.Built (fun _ => True) false taken trees :=
    reads.built.mono fun _ _ => trivial
  fun_induction handlers tokens with
  | case1 tokens isCatch expected rest failed =>
    obtain ⟨skipped, rfl⟩ := ensures_handler.failed failed
    exact ⟨skipped, rfl, .of_forall fun _ _ => trivial, fun none => by cases none⟩
  | case2 tokens isCatch tree rest outcome shorter following induction =>
    obtain ⟨first, equal, reads⟩ := ensures_handler.done outcome
    obtain ⟨taken, restEqual, built, complete⟩ := induction
    refine ⟨first ++ taken, ?_, (anything reads).append built, ?_⟩
    · rw [equal, append_assoc, ← restEqual]
    · intro none
      obtain ⟨caught, last, caughtTrees, lastTrees, rfl, treesEqual, many, final⟩ :=
        complete none
      refine ⟨first ++ caught, last, tree :: caughtTrees, lastTrees, ?_, ?_,
        reads.more many, final⟩
      · rw [append_assoc]
      · exact congrArg (tree :: ·) treesEqual
  | case3 tokens isCatch tree rest outcome longer =>
    obtain ⟨first, equal, reads⟩ := ensures_handler.done outcome
    refine ⟨first, equal, anything reads, fun _ => ?_⟩
    refine ⟨first, [], [tree], [], by simp, rfl, ?_, .absent⟩
    simpa using reads.more .none
  | case4 tokens isFinally expected rest failed =>
    obtain ⟨skipped, rfl⟩ := ensures_cleanup.failed failed
    exact ⟨skipped, rfl, .of_forall fun _ _ => trivial, fun none => by cases none⟩
  | case5 tokens isFinally tree rest outcome =>
    obtain ⟨first, equal, reads⟩ := ensures_cleanup.done outcome
    refine ⟨first, equal, anything reads, fun _ => ?_⟩
    exact ⟨[], first, [], [tree], rfl, rfl, .none, reads.present⟩
  | case6 tokens neither last =>
    exact ⟨[], rfl, .nothing, fun _ => ⟨[], [], [], [], rfl, rfl, .none, .absent⟩⟩

/-! ## Whole rules -/

/-- What stands behind the name of a rule, up to the semicolon, and the value that
is made of it. -/
theorem ensures_behindName {α : Type} {make : List Tree → List Tree → Tree → α}
    {post : List Token → α → Prop} (flavour : RuleFlavour)
    (holds : ∀ taken signature sections body,
      Reads (.sequence flavour.behindName) false taken
      (signature ++ (sections ++ [body])) → post taken (make signature sections body)) :
    Ensures (do
      let signature ← signature flavour
      let sections ← prequels
      let body ← ruleBody flavour
      let _ ← mark .semicolon
      return make signature sections body) post := by
  have body {alternative : Ebnf}
      (each : ReadsAs (ruleAlternative flavour) alternative true)
      (signature : List Tree) :
      Ensures (do
        let sections ← prequels
        let body ← ruleBody flavour
        let _ ← mark .semicolon
        return make signature sections body) fun taken value =>
        ∃ sections body, value = make signature sections body ∧
          Reads (.sequence [.many .rulePrequel, .mark .colon, .separated .bar alternative,
            .mark .semicolon]) false taken (sections ++ [body]) := by
    refine (ensures_prequels false).bind fun sections sectionsTaken sectionsRead => ?_
    refine (ensures_ruleBody each).bind fun body bodyTaken bodyRead => ?_
    refine (Ensures.mark _).bind ?_
    rintro semicolon _ ⟨rfl, isSemicolon⟩
    have whole := bodyRead.append (Reads.mark isSemicolon).last
    exact .pure ⟨sections, body, rfl, sectionsRead.cons whole⟩
  cases flavour with
  | parser =>
    refine ensures_signature.bind fun signature signatureTaken signatureRead => ?_
    refine (body ensures_parserAlternative signature).mono ?_
    rintro taken _ ⟨sections, body, rfl, reads⟩
    exact holds _ _ _ _ (signatureRead.cons reads)
  | lexer =>
    refine (body ensures_lexerAlternative []).mono ?_
    rintro taken _ ⟨sections, body, rfl, reads⟩
    exact holds _ [] _ _ reads

theorem ensures_ruleDeclaration :
    Ensures ruleDeclaration fun taken found => ∃ modifiers name behind children flavour,
      taken = modifiers ++ name :: behind ∧
      found = (Tree.ofRule flavour.nameKind name modifiers children, flavour) ∧
      (∀ token ∈ modifiers, isModifier token.kind = true) ∧
      (Ebnf.many .modifier).Derives (modifiers.map Token.kind) ∧
      name.kind = flavour.nameToken ∧
      Reads (.sequence flavour.behindName) false behind children := by
  refine ensures_modifiers.bind ?_
  rintro _ modifiers ⟨rfl, areModifiers, derives⟩
  refine ensures_ruleName.bind ?_
  rintro _ _ ⟨name, flavour, rfl, isName, rfl⟩
  refine ensures_behindName flavour fun behind signature sections body reads => ?_
  refine ⟨modifiers, name, behind, _, flavour, rfl, ?_, areModifiers, derives,
    isName, reads⟩
  simp [Tree.ofRule]

theorem append_ofRule (kind : NodeKind) (name : Token) (modifiers : List Token)
    (children more : List Tree) :
    (Tree.ofRule kind name modifiers children).append more =
      Tree.ofRule kind name modifiers (children ++ more) := by
  simp [Tree.ofRule, Tree.append, Tree.group, Tree.builtAt]

theorem reads_ofRule {parts : List Ebnf} {modifiers behind : List Token} {name : Token}
    {children : List Tree}
    (areModifiers : ∀ token ∈ modifiers, isModifier token.kind = true)
    (derives : (Ebnf.many .modifier).Derives (modifiers.map Token.kind))
      (isName : name.kind = flavour.nameToken)
    (reads : Reads (.sequence parts) false behind children) :
    Reads (.sequence (.many .modifier :: .terminal flavour.nameToken :: parts)) false
      (modifiers ++ name :: behind)
        [Tree.ofRule flavour.nameKind name modifiers children] where
  derives := by
    rw [map_append, map_cons, isName]
    exact .cons derives (.cons (.terminal _) reads.derives)
  built := by
    refine .rule areModifiers ?_ ?_ reads.built
    · cases flavour <;> rfl
    · rw [isName]
      cases flavour <;> rfl

/-- How reading a rule is done: a lexer rule ends with its declaration, and a parser rule
has the handlers behind it. -/
inductive RuleDone (tokens : List Token) : Tree × List SyntaxFault → List Token → Prop
  | lexer {tree : Tree} {rest : List Token}
      (declared : ruleDeclaration tokens = .done (tree, .lexer) rest) :
      RuleDone tokens (tree, []) rest
  | parser {tree : Tree} {left : List Token}
      (declared : ruleDeclaration tokens = .done (tree, .parser) left) :
      RuleDone tokens (tree.append (handlers left).trees, (handlers left).faults)
        (handlers left).rest

theorem RuleDone.of_rule {tokens rest : List Token} {found : Tree × List SyntaxFault}
    (outcome : rule tokens = .done found rest) : RuleDone tokens found rest := by
  unfold rule at outcome
  split at outcome
  · cases outcome
  · next declared =>
    cases outcome
    exact .lexer declared
  · next declared =>
    cases outcome
    exact .parser declared

/-- A rule that was read took some tokens and is built from them, and it is a rule of the
grammar language if there was no fault in its handlers. -/
theorem ensures_rule :
    Ensures rule fun taken found => taken ≠ [] ∧
        Tree.Built (fun _ => True) false taken [found.1] ∧
        (found.2 = [] → Reads (.construct .rule) false taken [found.1]) := by
  constructor
  · intro tokens found rest outcome
    cases RuleDone.of_rule outcome with
    | lexer declared =>
      obtain ⟨taken, equal, modifiers, name, behind, children, flavour, rfl, isFound,
          areModifiers, derives, isName, reads⟩ := ensures_ruleDeclaration.done declared
      cases isFound
      have whole : Reads (.construct .lexerRule) false _ _ :=
        .construct (reads_ofRule areModifiers derives isName reads)
      refine ⟨_, equal, by simp, whole.built.mono fun _ _ => trivial, fun _ => ?_⟩
      exact .construct (whole.oneOf (by simp))
    | @parser tree left declared =>
      obtain ⟨taken, rfl, modifiers, name, behind, children, flavour, rfl, isFound,
          areModifiers, derives, isName, reads⟩ := ensures_ruleDeclaration.done declared
      cases isFound
      obtain ⟨more, leftEqual, built, complete⟩ := handlers_eq left
      refine ⟨modifiers ++ name :: (behind ++ more), ?_, by simp, ?_, ?_⟩
      · rw [append_assoc, append_assoc, cons_append, cons_append,
          append_assoc, ← leftEqual]
      · have behindBuilt := (reads.built.mono fun _ _ => trivial).append built
        rw [append_ofRule]
        exact .rule areModifiers rfl (by rw [isName]; rfl) behindBuilt
      · intro none
        obtain ⟨caught, last, caughtTrees, lastTrees, rfl, treesEqual, many, final⟩ :=
          complete none
        have handlersRead := many.cons final.last
        rw [← treesEqual] at handlersRead
        rw [append_ofRule]
        have whole : Reads (.construct .parserRule) false _ _ :=
          .construct (reads_ofRule areModifiers derives isName
            (reads.append handlersRead))
        exact .construct (whole.oneOf (by simp))
  · intro tokens expected rest outcome
    unfold rule at outcome
    split at outcome
    · rename_i failed
      cases outcome
      exact ensures_ruleDeclaration.failed failed
    · cases outcome
    · cases outcome

end Parse

end GrammarInspector
