import Mathlib.Data.List.Basic
import GrammarInspector.Proofs.Grammar.Shape.Reading

/-! # Labels behind hashes

In the grammar language a hash stands only behind an alternative of a parser rule, with a
name behind it. So the labels of a rule can be told from its tokens alone: they are the
names behind its hashes.
-/

namespace GrammarInspector

open List

/-! ## Phrases without a hash -/

/-- Whether phrases of a construct can have hashes. -/
def Construct.hasHash : Construct → Bool
  | .grammarSpec | .rule | .parserRule => true
  | _ => false

namespace Ebnf

mutual

/-- Whether phrases of an expression can have hashes. -/
def hasHash : Ebnf → Bool
  | .terminal kind => kind = .punctuation .hash
  | .construct named => named.hasHash
  | .sequence parts => anyHash parts
  | .oneOf alternatives => anyHash alternatives
  | .many body => body.hasHash

def anyHash : List Ebnf → Bool
  | [] => false
  | part :: parts => part.hasHash || anyHash parts

end

theorem hasHash_of_mem {chosen : Ebnf} {alternatives : List Ebnf}
    (member : chosen ∈ alternatives) (none : anyHash alternatives = false) :
    chosen.hasHash = false := by
  induction alternatives with
  | nil => cases member
  | cons first rest induction =>
    obtain ⟨head, tail⟩ := Bool.or_eq_false_iff.mp none
    rcases mem_cons.mp member with equal | later
    · rw [equal]
      exact head
    · exact induction later tail

/-- The table agrees with the productions. -/
theorem production_hasHash {construct : Construct} (none : construct.hasHash = false) :
    construct.production.hasHash = false := by
  cases construct with
  | grammarSpec => cases none
  | rule => cases none
  | parserRule => cases none
  | alternative flavour => cases flavour <;> rfl
  | element flavour => cases flavour <;> rfl
  | atom flavour => cases flavour <;> rfl
  | setElement flavour => cases flavour <;> rfl
  | block flavour => cases flavour <;> rfl
  | _ => rfl

theorem ne_hash_of_derives {expression : Ebnf} {kinds : List TokenKind}
    (derivation : expression.Derives kinds) (none : expression.hasHash = false) :
    ∀ kind ∈ kinds, kind ≠ .punctuation .hash := by
  induction derivation with
  | terminal kind => exact forall_mem_singleton.mpr (of_decide_eq_false none)
  | construct _ body => exact body (production_hasHash none)
  | nil => exact fun _ member => by cases member
  | cons _ _ head tail =>
    obtain ⟨headNone, tailNone⟩ := Bool.or_eq_false_iff.mp none
    exact forall_mem_append.mpr ⟨head headNone, tail tailNone⟩
  | oneOf member _ body => exact body (hasHash_of_mem member none)
  | none => exact fun _ member => by cases member
  | more _ _ head tail => exact forall_mem_append.mpr ⟨head none, tail none⟩

end Ebnf

/-! ## Names behind hashes -/

namespace AltLabel

/-- The names that stand behind the hashes among some tokens. -/
def behindHashes : List Token → List AltLabel
  | [] => []
  | token :: rest =>
    if token.kind = .punctuation .hash then
      (rest.head?.map fun name => ⟨name.text, name.span⟩).toList ++ behindHashes rest
    else behindHashes rest

theorem sublist_behindHashes (tokens : List Token) :
    (behindHashes tokens).Sublist
      (tokens.tail.map fun name => ⟨name.text, name.span⟩) := by
  induction tokens with
  | nil => exact .slnil
  | cons token rest induction =>
    have behind :
        (behindHashes rest).Sublist (rest.map fun name => ⟨name.text, name.span⟩) :=
      induction.trans ((tail_sublist rest).map _)
    rw [behindHashes]
    split
    · cases rest with
      | nil => exact .slnil
      | cons name rest => exact induction.cons_cons _
    · exact behind

/-- A hash at the end of some tokens may have its name behind them. -/
theorem append_behindHashes_sublist (front behind : List Token) :
    (behindHashes front ++ behindHashes behind).Sublist
      (behindHashes (front ++ behind)) := by
  induction front with
  | nil => exact .refl _
  | cons token rest induction =>
    rw [cons_append, behindHashes, behindHashes]
    split
    · rw [append_assoc]
      refine List.Sublist.append ?_ induction
      cases rest with
      | nil => exact nil_sublist _
      | cons name rest => exact .refl _
    · exact induction

theorem pairwise_behindHashes {tokens : List Token} (ordered : Token.Ordered tokens) :
    (behindHashes tokens).Pairwise fun left right =>
      left.span.stop ≤ right.span.start := by
  refine List.Pairwise.sublist (sublist_behindHashes tokens) (pairwise_map.mpr ?_)
  exact ordered.sublist (tail_sublist tokens)

/-- Whether some labels are those among some tokens, whatever follows the tokens. -/
def Among (tokens : List Token) (labels : List AltLabel) : Prop :=
  ∀ rest, behindHashes (tokens ++ rest) = labels ++ behindHashes rest

namespace Among

variable {tokens others : List Token} {labels more : List AltLabel}

theorem eq (among : Among tokens labels) : behindHashes tokens = labels := by
  have whole := among []
  rwa [append_nil, behindHashes, append_nil] at whole

theorem append (left : Among tokens labels) (right : Among others more) :
    Among (tokens ++ others) (labels ++ more) := by
  intro rest
  rw [append_assoc, left, right, append_assoc]

theorem nil_of_forall (none : ∀ token ∈ tokens, token.kind ≠ .punctuation .hash) :
    Among tokens [] := by
  intro rest
  induction tokens with
  | nil => rfl
  | cons token tokens induction =>
    obtain ⟨head, tail⟩ := forall_mem_cons.mp none
    rw [cons_append, behindHashes, if_neg head, induction tail]

theorem nil_of_derives {expression : Ebnf}
    (derives : expression.Derives (tokens.map Token.kind))
    (none : expression.hasHash = false) : Among tokens [] :=
  nil_of_forall fun _ member => Ebnf.ne_hash_of_derives derives none _
    (mem_map_of_mem member)

theorem hash {token name : Token} (isHash : token.kind = .punctuation .hash)
    (isName : name.kind.isIdentifier = true) :
    Among [token, name] [⟨name.text, name.span⟩] := by
  have notHash : name.kind ≠ .punctuation .hash := fun isHash => by
    rw [isHash] at isName
    cases isName
  intro rest
  rw [cons_append, behindHashes, if_pos isHash, cons_append, behindHashes, if_neg notHash]
  rfl

end Among

end AltLabel

namespace Parse

open AltLabel (Among)

variable {flavour : RuleFlavour}

/-! ## Handlers -/

/-- Whether no hash is taken, even where reading fails. -/
structure AvoidsHash {α : Type} (parse : Parse α) : Prop where
  done : ∀ {tokens value rest}, parse tokens = .done value rest →
      ∃ taken, tokens = taken ++ rest ∧ Among taken []
  failed : ∀ {tokens expected rest}, parse tokens = .failed expected rest →
    ∃ taken, tokens = taken ++ rest ∧ Among taken []

namespace AvoidsHash

variable {α β : Type} {parse : Parse α} {next : α → Parse β}

theorem expect {kind : TokenKind} (notHash : kind ≠ .punctuation .hash) : AvoidsHash
    (expect kind) where
  done outcome := by
    obtain ⟨_, equal, rfl, rfl⟩ := (Ensures.expect kind).done outcome
    exact ⟨_, equal, .nil_of_forall (forall_mem_singleton.mpr notHash)⟩
  failed {tokens _ _} outcome := by
    refine ⟨[], ?_, .nil_of_forall (by simp)⟩
    cases tokens with
    | nil =>
      cases outcome
      rfl
    | cons token left =>
      rw [Parse.expect, Parse.take] at outcome
      split at outcome
      · cases outcome
      · cases outcome
        rfl

protected theorem pure {value : α} : AvoidsHash (Pure.pure value : Parse α) where
  done outcome := by
    cases outcome
    exact ⟨[], rfl, .nil_of_forall (by simp)⟩
  failed outcome := by cases outcome

protected theorem bind (first : AvoidsHash parse)
    (second : ∀ value, AvoidsHash (next value)) :
    AvoidsHash (parse >>= next) where
  done outcome := by
    obtain ⟨value, left, before, behind⟩ := exists_of_bind_done outcome
    obtain ⟨taken, rfl, none⟩ := first.done before
    obtain ⟨more, rfl, noMore⟩ := (second value).done behind
    exact ⟨taken ++ more, (append_assoc ..).symm, none.append noMore⟩
  failed outcome := by
    obtain before | ⟨value, left, before, behind⟩ := exists_of_bind_failed outcome
    · exact first.failed before
    · obtain ⟨taken, rfl, none⟩ := first.done before
      obtain ⟨more, rfl, noMore⟩ := (second value).failed behind
      exact ⟨taken ++ more, (append_assoc ..).symm, none.append noMore⟩

theorem handler : AvoidsHash handler := by
  refine (expect (by decide)).bind fun keyword => ?_
  refine (expect (by decide)).bind fun arguments => ?_
  exact (expect (by decide)).bind fun body => .pure

theorem cleanup : AvoidsHash cleanup := by
  refine (expect (by decide)).bind fun keyword => ?_
  exact (expect (by decide)).bind fun body => .pure

end AvoidsHash

theorem among_handlers (tokens : List Token) :
    ∃ taken, tokens = taken ++ (handlers tokens).rest ∧ Among taken [] := by
  fun_induction handlers tokens with
  | case1 tokens isCatch expected rest failed => exact AvoidsHash.handler.failed failed
  | case2 tokens isCatch tree rest outcome shorter following induction =>
    obtain ⟨first, rfl, none⟩ := AvoidsHash.handler.done outcome
    obtain ⟨taken, equal, noMore⟩ := induction
    refine ⟨first ++ taken, ?_, none.append noMore⟩
    rw [append_assoc]
    exact congrArg (first ++ ·) equal
  | case3 tokens isCatch tree rest outcome longer => exact AvoidsHash.handler.done outcome
  | case4 tokens isFinally expected rest failed => exact AvoidsHash.cleanup.failed failed
  | case5 tokens isFinally tree rest outcome => exact AvoidsHash.cleanup.done outcome
  | case6 tokens neither last => exact ⟨[], rfl, .nil_of_forall (by simp)⟩

/-! ## Rules -/

theorem ensures_plainAlternative :
    Ensures (alternative (block flavour) flavour) fun taken tree =>
    tree.data.label = none ∧ Among taken [] where
  done {tokens _ _} outcome := by
    obtain ⟨taken, equal, known⟩ := (ensures_alternative ensures_block).done outcome
    exact ⟨taken, equal, label_of_alternative outcome,
      .nil_of_derives known.reads.derives rfl⟩
  failed := (ensures_alternative ensures_block).failed

theorem ensures_ruleAlternative : Ensures (ruleAlternative flavour) fun taken tree =>
    Among taken tree.data.label.toList := by
  refine ensures_plainAlternative.bind fun alternative taken ⟨noLabel, plain⟩ => ?_
  have unlabelled : Among (taken ++ []) alternative.data.label.toList := by
    rw [noLabel, append_nil]
    exact plain
  split
  · refine (Ensures.eat _).bind ?_
    rintro found _ ⟨rfl, isHash⟩
    cases found with
    | none => exact .pure unlabelled
    | some hash =>
      refine Ensures.identifier.bind ?_
      rintro name _ ⟨rfl, isName⟩
      obtain ⟨data, children⟩ := alternative
      exact .pure (plain.append (.hash (isHash _ rfl) isName))
  · exact .pure unlabelled

theorem ensures_alternatives :
    Ensures (separated .bar (ruleAlternative flavour)) fun taken trees =>
    Among taken (trees.flatMap (·.data.label.toList)) := by
  have behind : Ensures (do let _ ← mark .bar; ruleAlternative flavour) fun taken tree =>
      Among taken tree.data.label.toList := by
    refine (Ensures.mark _).bind ?_
    rintro bar _ ⟨rfl, isBar⟩
    have noHash : Among [bar] [] :=
      .nil_of_forall (forall_mem_singleton.mpr (by simp [isBar]))
    exact ensures_ruleAlternative.mono fun _ _ among => noHash.append among
  refine ensures_ruleAlternative.bind fun first taken head => ?_
  have others :
      Ensures (many (· = .punctuation .bar)
      (do let _ ← mark .bar; ruleAlternative flavour))
      fun taken trees => Among taken (trees.flatMap (·.data.label.toList)) :=
    behind.many (.nil_of_forall (by simp)) fun _ _ _ _ => Among.append
  exact others.returns fun _ _ tail => head.append tail

theorem ensures_body : Ensures (ruleBody flavour) fun taken body =>
    body.kind = .block ∧ Among taken (body.children.filterMap (·.data.label)) := by
  refine (Ensures.mark _).bind ?_
  rintro colon _ ⟨rfl, isColon⟩
  have noHash : Among [colon] [] :=
    .nil_of_forall (forall_mem_singleton.mpr (by simp [isColon]))
  refine ensures_alternatives.returns fun taken trees among => ⟨rfl, ?_⟩
  rw [filterMap_eq_flatMap_toList]
  exact noHash.append among

theorem ensures_declaration : Ensures ruleDeclaration fun taken found =>
    ∃ body ∈ found.1.children, body.kind = .block ∧
      Among taken (body.children.filterMap (·.data.label)) := by
  refine ensures_modifiers.bind fun modifiers modifiersTaken ⟨_, _, derives⟩ => ?_
  have noModifier : Among modifiersTaken [] := .nil_of_derives derives rfl
  refine ensures_ruleName.bind ?_
  rintro _ _ ⟨name, flavour, rfl, isName, rfl⟩
  have noName : Among [name] [] := by
    refine .nil_of_forall (forall_mem_singleton.mpr ?_)
    rw [isName]
    cases flavour <;> decide
  have signatures : Ensures (signature flavour) fun taken _ => Among taken [] := by
    cases flavour with
    | parser => exact ensures_signature.mono fun _ _ reads =>
        .nil_of_derives reads.derives rfl
    | lexer => exact .pure (.nil_of_forall (by simp))
  refine signatures.bind fun signature _ noSignature => ?_
  refine (ensures_prequels false).bind fun sections _ sectionsRead => ?_
  have noSection := Among.nil_of_derives sectionsRead.derives rfl
  refine ensures_body.bind fun body _ ⟨isBlock, among⟩ => ?_
  refine (Ensures.mark _).bind ?_
  rintro semicolon _ ⟨rfl, isSemicolon⟩
  have noHash : Among [semicolon] [] :=
    .nil_of_forall (forall_mem_singleton.mpr (by simp [isSemicolon]))
  refine .pure ⟨body, mem_append_right _ (mem_singleton_self body), isBlock, ?_⟩
  have whole :=
    noModifier.append
      (noName.append (noSignature.append (noSection.append (among.append noHash))))
  simpa using whole

/-- The labels of a rule are the names behind its hashes. -/
theorem ensures_labels : Ensures rule fun taken found =>
    ∃ body ∈ found.1.children, body.kind = .block ∧
      Among taken (body.children.filterMap (·.data.label)) where
  done {tokens found rest} outcome := by
    cases RuleDone.of_rule outcome with
    | lexer declared => exact ensures_declaration.done declared
    | @parser tree left declared =>
      obtain ⟨taken, rfl, body, member, isBlock, among⟩ :=
        ensures_declaration.done declared
      obtain ⟨more, equal, noMore⟩ := among_handlers left
      refine ⟨taken ++ more, ?_, body, ?_, isBlock, ?_⟩
      · rw [append_assoc, ← equal]
      · obtain ⟨data, children⟩ := tree
        exact mem_append_left _ member
      · simpa using among.append noMore
  failed := ensures_rule.failed

/-- Any block of a rule is its body. -/
theorem among_block {tokens rest : List Token} {tree block : Tree}
    {faults : List SyntaxFault} (outcome : rule tokens = .done (tree, faults) rest)
    (isChild : block ∈ tree.children) (isBlock : block.kind = .block) :
    ∃ taken, tokens = taken ++ rest ∧
    Among taken (block.children.filterMap (·.data.label)) := by
  obtain ⟨taken, equal, body, isBody, bodyBlock, among⟩ := ensures_labels.done outcome
  have anyToken : ∀ token ∈ tokens, True := fun _ _ => trivial
  obtain ⟨ofKinds, stands⟩ := (shapes_rule tokens _ rest anyToken outcome).1
  obtain ⟨_, only, unique, _⟩ := (stands [] not_mem_nil).allowed.declared
    (mem_singleton.mp ofKinds)
  have isOnly {other : Tree} (inside : other ∈ tree.children)
      (ofKind : other.kind = .block) : other = only := by
    have found : other ∈ tree.children.filter (·.kind = .block) :=
      mem_filter.mpr ⟨inside, decide_eq_true ofKind⟩
    rwa [unique, mem_singleton] at found
  rw [isOnly isChild isBlock, ← isOnly isBody bodyBlock]
  exact ⟨taken, equal, among⟩

theorem ensures_lexerRule : Ensures rule fun taken found => found.1.isLexerRule = true →
      Among taken [] where
  done {tokens found rest} outcome := by
    obtain ⟨whole, wholeEqual, _⟩ := ensures_rule.done outcome
    cases RuleDone.of_rule outcome with
    | lexer declared =>
      obtain ⟨taken, equal, _, _, _, _, _, rfl, isFound, areModifiers, derives,
          isName, reads⟩ :=
        ensures_ruleDeclaration.done declared
      cases isFound
      exact ⟨_, equal, fun _ =>
        .nil_of_derives (reads_ofRule areModifiers derives isName reads).derives rfl⟩
    | parser declared =>
      obtain ⟨_, _, _, _, _, _, _, _, isFound, _⟩ := ensures_ruleDeclaration.done declared
      cases isFound
      exact ⟨whole, wholeEqual, fun isLexer => by cases isLexer⟩
  failed := ensures_rule.failed

end Parse

end GrammarInspector
