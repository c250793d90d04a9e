import GrammarInspector.Proofs.Grammar.Yields
import GrammarInspector.Proofs.Tree.Shape

/-! # Sections and elements are shaped

Whatever a section, an element or a block is read from, the tree it yields is shaped.
Sections may stand anywhere, elements and blocks anywhere in a rule.
-/

namespace GrammarInspector

open List

open GrammarInspector.Tree (Fill IsShaped Place)

open NodeKind (elements innerSections targets values)

namespace Parse

variable {known : Token → Prop} {place : Place} {flavour : RuleFlavour}
  {kinds : List NodeKind} {kind : NodeKind} {token : Token} {tokens : List Token}

theorem Yields.fill_separated {parse : Parse Tree} {separator : Mark}
    (step : Yields known parse (IsShaped known place kinds)) :
    Yields known (Parse.separated separator parse) (Fill known place [⟨.some, kinds⟩]) :=
  step.separated_ne_nil.mono fun _ ⟨nonempty, each⟩ => .some nonempty each

/-! ## Leaves -/

/-- What a token is shown by need not have children. -/
theorem exists_fill_nil (isLeaf : kind.fixedText? = none) :
    ∃ parts ∈ kind.patterns, Fill known place parts [] := by
  cases kind with
  | tokenRef | literal => exact ⟨_, mem_singleton_self _, .absent⟩
  | ruleRef => exact ⟨_, mem_singleton_self _, Fill.absent.append .absent⟩
  | identifier | ruleModifier | charSet | action | predicate | arguments | int =>
    exact ⟨_, mem_singleton_self _, .nil⟩
  | _ => cases isLeaf

theorem shaped_leaf (isKnown : known token) (isLeaf : kind.fixedText? = none)
    (ofKinds : kind ∈ kinds) : (Tree.leaf kind token).IsShaped known place kinds := by
  obtain ⟨parts, pattern, fill⟩ := exists_fill_nil isLeaf
  exact fill.leafWith isKnown pattern isLeaf ofKinds

theorem shapes_leaf {accepts : TokenKind → Bool} {expected : Expected}
    (isLeaf : kind.fixedText? = none) (ofKinds : kind ∈ kinds) :
    Yields known (do return Tree.leaf kind (← take accepts expected))
      (IsShaped known place kinds) :=
  Yields.take.returns fun _ isKnown => shaped_leaf isKnown isLeaf ofKinds

theorem shaped_leaves (areKnown : ∀ token ∈ tokens, known token)
    (isLeaf : kind.fixedText? = none) (ofKinds : kind ∈ kinds) :
    ∀ tree ∈ tokens.map (Tree.leaf kind), tree.IsShaped known place kinds := by
  intro tree member
  obtain ⟨token, included, rfl⟩ := mem_map.mp member
  exact shaped_leaf (areKnown token included) isLeaf ofKinds

theorem fill_leaf (kind : NodeKind) (isKnown : known token)
    (isLeaf : kind.fixedText? = none) :
    Fill known place [⟨.one, [kind]⟩] [.leaf kind token] :=
  .one (shaped_leaf isKnown isLeaf (.head _))

theorem fill_assign {name : Token} {value : Tree} (isKnown : known name)
    (isValue : value.IsShaped known place (values ++ targets)) :
    Fill known place [⟨.one, [.identifier]⟩, ⟨.one, values ++ targets⟩]
      [.leaf .identifier name, value] :=
  (fill_leaf _ isKnown rfl).append (.one isValue)

/-! ## Sections -/

theorem shapes_dottedName : Yields known dottedName
    (IsShaped known (.below [.assign, .options]) [.identifier]) := by
  refine (Yields.separated Yields.identifier).bind fun names _ => ?_
  split
  · exact .fail
  · exact .pure .optionValue

theorem shapes_optionValue :
    Yields known optionValue (IsShaped known (.below [.assign, .options]) values) := by
  refine .peek fun kind => ?_
  split
  · exact shapes_leaf rfl (by decide)
  · exact shapes_leaf rfl (by decide)
  · exact shapes_leaf rfl (by decide)
  · exact shapes_dottedName.mono fun _ isShaped => isShaped.mono (by decide)
  · exact shapes_dottedName.mono fun _ isShaped => isShaped.mono (by decide)
  · exact .fail

theorem shapes_option :
    Yields known option (IsShaped known (.below [.options]) [.assign]) := by
  refine Yields.identifier.bind fun name isKnown => ?_
  refine Yields.mark.bind fun assign _ => ?_
  refine shapes_optionValue.bind fun value isValue => ?_
  refine Yields.mark.bind fun _ _ => .pure ?_
  refine (fill_assign isKnown (isValue.mono (by decide))).node ?_
    (.head _) rfl rfl (.head _)
  rintro _ ⟨further, rfl⟩
  exact ⟨further, rfl⟩

theorem shapes_options : Yields known options (IsShaped known place [.options]) := by
  refine Yields.expect.bind fun opening _ => ?_
  refine shapes_option.many.bind fun entries each => ?_
  refine Yields.mark.bind fun _ _ => .pure ?_
  exact (Fill.any each).node (fun above _ => ⟨above, rfl⟩) (.head _) rfl rfl (.head _)

theorem shaped_namesFrom (areKnown : ∀ token ∈ tokens, known token) :
    (∀ tree ∈ (namesFrom tokens).1, tree.IsShaped known place [.identifier]) ∧
      ∀ token ∈ (namesFrom tokens).2, known token := by
  fun_induction namesFrom tokens with
  | case1 => exact ⟨forall_mem_nil _, areKnown⟩
  | case2 name isName =>
    have isKnown := areKnown name (.head _)
    exact ⟨forall_mem_singleton.mpr (shaped_leaf isKnown rfl (.head _)), forall_mem_nil _⟩
  | case3 name isName comma rest isComma names left recursion induction =>
    obtain ⟨isKnown, behind⟩ := forall_mem_cons.mp areKnown
    have further := induction (forall_mem_cons.mp behind).2
    rw [recursion] at further
    exact ⟨forall_mem_cons.mpr ⟨shaped_leaf isKnown rfl (.head _), further.1⟩, further.2⟩
  | case4 name isName comma rest noComma =>
    obtain ⟨isKnown, behind⟩ := forall_mem_cons.mp areKnown
    exact ⟨forall_mem_singleton.mpr (shaped_leaf isKnown rfl (.head _)), behind⟩
  | case5 => exact ⟨forall_mem_nil _, areKnown⟩

theorem shapes_nameSection {opener : Opener}
    (isSection : kind.patterns = [[⟨.any, [.identifier]⟩]])
      (isFree : kind.isFree = true) :
    Yields known (nameSection opener kind) (IsShaped known place [kind]) := by
  have names : Yields known names fun trees =>
      ∀ tree ∈ trees, tree.IsShaped known .anywhere [.identifier] := by
    intro tokens trees rest areKnown outcome
    cases outcome
    exact shaped_namesFrom areKnown
  refine Yields.expect.bind fun opening _ => ?_
  refine names.bind fun names each => ?_
  refine Yields.mark.bind fun _ _ => .pure ?_
  exact (Fill.any each).builtAt (isSection ▸ .head _) isFree (.head _)

theorem shapes_delegate :
    Yields known delegate (IsShaped known .anywhere [.identifier, .assign]) := by
  refine Yields.identifier.bind fun name isKnown => ?_
  refine Yields.eat.bind fun found _ => ?_
  split
  · refine Yields.identifier.returns fun target targetKnown => ?_
    have isTarget : (Tree.leaf .identifier target).IsShaped known .anywhere
        (values ++ targets) := shaped_leaf targetKnown rfl (by decide)
    exact (fill_assign isKnown isTarget).builtAt (.head _) rfl (by decide)
  · exact .pure (shaped_leaf isKnown rfl (by decide))

theorem shapes_imports : Yields known imports (IsShaped known place [.imports]) := by
  refine Yields.expect.bind fun keyword _ => ?_
  refine shapes_delegate.fill_separated.bind fun delegates fill => ?_
  exact Yields.mark.bind fun _ _ => .pure (fill.builtAt (.head _) rfl (.head _))

theorem shapes_namedAction :
    Yields known namedAction (IsShaped known place [.namedAction]) := by
  refine Yields.mark.bind fun start _ => ?_
  refine Yields.take.bind fun name isKnown => ?_
  refine Yields.eat.bind fun found _ => ?_
  cases found with
  | none =>
    refine Yields.expect.returns fun action isAction => ?_
    exact (((fill_leaf .identifier isKnown rfl).append .absent).append
      (fill_leaf .action isAction rfl)).builtAt (.head _) rfl (.head _)
  | some colons =>
    refine Yields.identifier.bind fun inner innerKnown => ?_
    refine Yields.expect.returns fun action isAction => ?_
    have second : Fill known .anywhere [⟨.maybe, [.identifier]⟩]
        [.leaf .identifier inner] :=
      .present (shaped_leaf innerKnown rfl (by decide))
    exact (((fill_leaf .identifier isKnown rfl).append second).append
      (fill_leaf .action isAction rfl)).builtAt (.head _) rfl (.head _)

theorem shapes_prequels : Yields known prequels fun trees =>
    ∀ tree ∈ trees, tree.IsShaped known .anywhere innerSections := by
  refine Yields.many (.peek fun kind => ?_)
  split
  · exact shapes_options.mono fun _ isShaped => isShaped.mono (by decide)
  · exact shapes_namedAction.mono fun _ isShaped => isShaped.mono (by decide)

/-! ## Elements -/

theorem shapes_elementOptionValue :
    Yields known elementOptionValue (IsShaped known .anywhere values) := by
  refine .peek fun kind => ?_
  split
  · exact shapes_leaf rfl (by decide)
  · exact shapes_leaf rfl (by decide)
  · exact shapes_leaf rfl (by decide)
  · exact shapes_leaf rfl (by decide)
  · exact .fail

theorem shapes_elementOption :
    Yields known elementOption (IsShaped known .anywhere [.identifier, .assign]) := by
  refine Yields.identifier.bind fun name isKnown => ?_
  refine Yields.eat.bind fun found _ => ?_
  split
  · refine shapes_elementOptionValue.returns fun value isValue => ?_
    exact (fill_assign isKnown (isValue.mono (by decide))).builtAt
      (.head _) rfl (by decide)
  · exact .pure (shaped_leaf isKnown rfl (by decide))

theorem shapes_elementOptions? :
    Yields known elementOptions? (Fill known place [⟨.maybe, [.elementOptions]⟩]) := by
  have options :
      Yields known elementOptions (IsShaped known place [.elementOptions]) := by
    refine Yields.mark.bind fun opening _ => ?_
    refine shapes_elementOption.fill_separated.bind fun entries fill => ?_
    exact Yields.mark.bind fun _ _ => .pure (fill.builtAt (.head _) rfl (.head _))
  refine .peek fun kind => ?_
  split
  · exact options.returns fun _ isShaped => .present isShaped
  · exact .pure .absent

theorem shapes_characterRange :
    Yields known characterRange (IsShaped known place [.range]) := by
  refine Yields.expect.bind fun first firstKnown => ?_
  refine Yields.mark.bind fun dots _ => ?_
  refine Yields.expect.returns fun last lastKnown => ?_
  exact ((fill_leaf .literal firstKnown rfl).append
    (fill_leaf .literal lastKnown rfl)).builtAt (.head _) rfl (.head _)

theorem shapes_setElement : Yields known (setElement flavour)
    (IsShaped known .anywhere [.tokenRef, .literal, .range, .charSet]) := by
  refine .peek fun first => .peekSecond fun second => ?_
  split
  · exact shapes_leaf rfl (by decide)
  · exact shapes_characterRange.mono fun _ isShaped => isShaped.mono (by decide)
  · exact shapes_leaf rfl (by decide)
  · split
    · exact shapes_leaf rfl (by decide)
    · exact .fail
  · exact .fail

theorem shapes_complement :
    Yields known (complement flavour) (IsShaped known place [.complement]) := by
  have ofSet (tilde : Token) {elements : List Tree}
      (fill : Fill known .anywhere
        [⟨.some, [.tokenRef, .literal, .range, .charSet]⟩] elements) :
      (Tree.builtAt .complement tilde.span [.group .set elements]).IsShaped known place
        [.complement] := by
    have set : (Tree.group .set elements).IsShaped known .anywhere [.set] :=
      fill.builtAt (.head _) rfl (.head _)
    exact (Fill.one set).builtAt (.head _) rfl (by decide)
  refine Yields.mark.bind fun tilde _ => ?_
  refine Yields.eat.bind fun found _ => ?_
  cases found with
  | none =>
    refine shapes_setElement.returns fun element isElement => ofSet tilde ?_
    exact .some (cons_ne_nil _ _) (forall_mem_singleton.mpr isElement)
  | some opening =>
    refine shapes_setElement.fill_separated.bind fun elements fill => ?_
    exact Yields.mark.bind fun _ _ => .pure (ofSet tilde fill)

theorem shapes_arguments? :
    Yields known (arguments? flavour)
      (Fill known .anywhere [⟨.maybe, [.arguments]⟩]) := by
  unfold arguments?
  split
  · refine Yields.eat.bind fun found areKnown => ?_
    split
    · exact .pure (.present (shaped_leaf (areKnown _ rfl) rfl (by decide)))
    · exact .pure .absent
  · exact .pure .absent

theorem shapes_atom : Yields known (atom flavour) (IsShaped known place targets) := by
  refine .peek fun first => .peekSecond fun second => ?_
  split
  · refine Yields.expect.bind fun reference isKnown => ?_
    exact shapes_elementOptions?.returns fun options fill =>
      fill.leafWith isKnown (.head _) rfl (by decide)
  · refine Yields.expect.bind fun reference isKnown => ?_
    refine shapes_arguments?.bind fun arguments given => ?_
    exact shapes_elementOptions?.returns fun options fill =>
      (given.append fill).leafWith isKnown (.head _) rfl (by decide)
  · exact shapes_characterRange.mono fun _ isShaped => isShaped.mono (by decide)
  · refine Yields.expect.bind fun literal isKnown => ?_
    exact shapes_elementOptions?.returns fun options fill =>
      fill.leafWith isKnown (.head _) rfl (by decide)
  · split
    · exact shapes_leaf rfl (by decide)
    · exact .fail
  · refine Yields.mark.bind fun dot _ => ?_
    exact shapes_elementOptions?.returns fun options fill =>
      fill.builtAt (.head _) rfl (by decide)
  · exact shapes_complement.mono fun _ isShaped => isShaped.mono (by decide)
  · exact .fail

theorem shaped_block {span : Option Span} {sections alternatives : List Tree}
    (areSections : ∀ tree ∈ sections, tree.IsShaped known .anywhere innerSections)
    (fill : Fill known .inRule [⟨.some, NodeKind.alternatives⟩] alternatives) :
    (Tree.builtAt .block span (sections ++ alternatives)).IsShaped known
      .inRule [.block] :=
  ((Fill.any areSections).everywhere.append fill).block
    (fun _ inside => ⟨inside, .tail _ inside⟩) (.head _)

theorem shaped_suffixBlock {element : Tree}
    (isElement : element.IsShaped known .inRule elements) :
    (suffixBlock element).IsShaped known .inRule [.block] := by
  unfold suffixBlock
  split
  · next isBlock => exact ⟨by simp [isBlock], isElement.stands⟩
  · have some : Fill known .inRule [⟨.some, elements⟩] [element] :=
      .some (cons_ne_nil _ _) (forall_mem_singleton.mpr isElement)
    have alternative :
        (Tree.group .alternative [element]).IsShaped known .inRule
          NodeKind.alternatives :=
      (Fill.absent.append some).inRule (.tail _ (.head _)) rfl (by decide)
    exact shaped_block (forall_mem_nil _)
      (.some (cons_ne_nil _ _) (forall_mem_singleton.mpr alternative))

theorem isSuffix_of_suffixKind? {shown : TokenKind}
    (found : suffixKind? shown = some kind) : kind.isSuffix = true ∧ kind ∈ elements := by
  unfold suffixKind? at found
  split at found <;> cases found <;> decide

theorem shapes_suffixed {element : Tree}
    (isElement : element.IsShaped known .inRule elements) :
    Yields known (suffixed element) (IsShaped known .inRule elements) := by
  intro tokens tree rest areKnown outcome
  unfold suffixed at outcome
  split at outcome
  · cases outcome
    exact ⟨isElement, areKnown⟩
  · split at outcome
    · cases outcome
      exact ⟨isElement, areKnown⟩
    · next suffix behind _ kind isSuffix =>
      obtain ⟨isSuffix, ofKinds⟩ := isSuffix_of_suffixKind? isSuffix
      have holds : (Tree.builtAt kind suffix.span [suffixBlock element]).IsShaped
          known .inRule elements :=
        Fill.suffix isSuffix (shaped_suffixBlock isElement) ofKinds
      have yields : Yields known (do
          let _ ← eat (.punctuation .question)
          return Tree.builtAt kind suffix.span [suffixBlock element])
          (IsShaped known .inRule elements) :=
        Yields.eat.bind fun _ _ => .pure holds
      exact yields behind tree rest (forall_mem_cons.mp areKnown).2 outcome

section Blocks

variable {block : Parse Tree}
  (inner : Yields known block (IsShaped known .inRule [.block]))

include inner

theorem shapes_labelled : Yields known (labelled block flavour)
    (IsShaped known .inRule [.assign, .plusAssign]) := by
  have target : Yields known (labelTarget block flavour)
      (IsShaped known .inRule targets) := by
    refine .peek fun kind => ?_
    split
    · exact inner.mono fun _ isShaped => isShaped.mono (by decide)
    · exact shapes_atom
  refine Yields.identifier.bind fun label isKnown => ?_
  refine Yields.take.bind fun operator _ => ?_
  refine target.bind fun element isTarget => .pure ?_
  have fill := fill_assign isKnown (isTarget.mono (by decide))
  split
  · exact fill.inRule (.head _) rfl (by decide)
  · exact fill.inRule (.head _) rfl (by decide)

theorem shapes_element :
    Yields known (element block flavour) (IsShaped known .inRule elements) := by
  refine .peek fun first => .peekSecond fun second => ?_
  split
  · exact (shapes_labelled inner).bind fun _ isShaped =>
      shapes_suffixed (isShaped.mono (by decide))
  · split
    · exact inner.bind fun _ isShaped => shapes_suffixed (isShaped.mono (by decide))
    · exact shapes_leaf rfl (by decide)
    · exact shapes_leaf rfl (by decide)
    · exact shapes_atom.bind fun _ isShaped => shapes_suffixed (isShaped.mono (by decide))

end Blocks

theorem shapes_command :
    Yields known command (IsShaped known .inRule [.identifier, .commandCall]) := by
  have argument : Yields known commandArgument
      (IsShaped known .anywhere [.identifier, .int]) := by
    refine .peek fun kind => ?_
    split
    · exact shapes_leaf rfl (by decide)
    · exact shapes_leaf rfl (by decide)
    · exact shapes_leaf rfl (by decide)
    · exact .fail
  refine Yields.take.bind fun name isKnown => ?_
  refine Yields.eat.bind fun found _ => ?_
  split
  · exact .pure (shaped_leaf isKnown rfl (by decide))
  · refine argument.bind fun given isArgument => ?_
    refine Yields.mark.bind fun _ _ => .pure ?_
    exact ((fill_leaf .identifier isKnown rfl).append (.one isArgument)).builtAt
      (.head _) rfl (by decide)

/-- The alternatives of a rule: those of a parser rule are plain ones. -/
def alternativesOf : RuleFlavour → List NodeKind
  | .parser => [.alternative]
  | .lexer => NodeKind.alternatives

theorem shapes_alternative {block : Parse Tree}
    (inner : Yields known block (IsShaped known .inRule [.block])) :
    Yields known (alternative block flavour)
      (IsShaped known .inRule (alternativesOf flavour)) := by
  have options : Yields known (alternativeOptions? flavour)
      (Fill known .inRule [⟨.maybe, [.elementOptions]⟩]) := by
    unfold alternativeOptions?
    split
    · exact shapes_elementOptions?
    · exact .pure .absent
  refine options.bind fun options ofOptions => ?_
  refine (shapes_element inner).many.bind fun elements each => ?_
  have plain : (Tree.group .alternative (options ++
      if elements.isEmpty then [Tree.group .epsilon []]
      else elements)).IsShaped known .inRule
        [.alternative] := by
    split
    · have epsilon : (Tree.group .epsilon []).IsShaped known .inRule [.epsilon] :=
        Fill.nil.builtAt (.head _) rfl (by decide)
      exact (ofOptions.append (.one epsilon)).inRule (.head _) rfl (by decide)
    · next some =>
      have nonempty : elements ≠ [] := by simpa using some
      exact (ofOptions.append (.some nonempty each)).inRule (.tail _ (.head _))
        rfl (by decide)
  have isPlain : (Tree.group .alternative (options ++
      if elements.isEmpty then [Tree.group .epsilon []]
      else elements)).IsShaped known .inRule
        (alternativesOf flavour) := plain.mono (by cases flavour <;> decide)
  refine .peek fun kind => ?_
  split
  · split
    · next isLexer =>
      subst isLexer
      refine Yields.mark.bind fun _ _ => ?_
      refine shapes_command.fill_separated.returns fun commands fill => ?_
      exact ((Fill.one plain).append fill).inRule (.head _) rfl (by decide)
    · exact .pure isPlain
  · exact .pure isPlain

theorem alternativesOf_subset (ofFlavour : kind ∈ alternativesOf flavour) :
    kind ∈ NodeKind.alternatives := by
  cases flavour with
  | lexer => exact ofFlavour
  | parser =>
    cases mem_singleton.mp ofFlavour
    exact .head _

theorem shapes_blockOf {inner : Parse Tree}
    (yields : Yields known inner (IsShaped known .inRule [.block])) :
    Yields known (blockOf inner flavour) (IsShaped known .inRule [.block]) := by
  have prequels : Yields known blockPrequels fun trees =>
      ∀ tree ∈ trees, tree.IsShaped known .anywhere innerSections := by
    refine shapes_prequels.bind fun trees each => ?_
    split
    · exact .pure (forall_mem_nil _)
    · exact Yields.mark.bind fun _ _ => .pure each
  have alternative : Yields known (alternative inner flavour)
      (IsShaped known .inRule NodeKind.alternatives) :=
    (shapes_alternative yields).mono fun _ isShaped =>
      isShaped.mono fun _ => alternativesOf_subset
  refine Yields.mark.bind fun opening _ => ?_
  refine prequels.bind fun trees each => ?_
  refine alternative.fill_separated.bind fun alternatives fill => ?_
  exact Yields.mark.bind fun _ _ => .pure (shaped_block each fill)

theorem shapes_block : Yields known (block flavour) (IsShaped known .inRule [.block]) :=
  .block fun _ => shapes_blockOf

/-- An alternative gets no label of its own. -/
theorem label_of_alternative {rest : List Token} {tree : Tree}
    (outcome : alternative (block flavour) flavour tokens = .done tree rest) :
    tree.data.label = none := by
  have anyToken : ∀ token ∈ tokens, True := fun _ _ => trivial
  have isShaped := (shapes_alternative shapes_block tokens tree rest anyToken outcome).1
  cases label : tree.data.label with
  | none => rfl
  | some found =>
    have hasLabel : tree.data.label ≠ none := by simp [label]
    obtain ⟨_, _, equal⟩ := (isShaped.stands [.rule] (.head _)).allowed.labelled hasLabel
    cases equal

end Parse

end GrammarInspector
