import GrammarInspector.Proofs.Grammar.Language
import GrammarInspector.Proofs.Grammar.Shape.Element
import GrammarInspector.Proofs.Grammar.Sound.Reading

/-! # Grammars are shaped

A construct that fails yields no tree, so the trees of sources with faults are shaped too.
-/

namespace GrammarInspector

open List

open GrammarInspector.Tree (Fill IsShaped Place)

namespace Parse

variable {known : Token → Prop} {place : Place} {flavour : RuleFlavour}

/-! ## Rules -/

theorem shapes_modifiers :
    Yields known modifiers (Fill known .anywhere [⟨.maybe, [.ruleModifiers]⟩]) := by
  refine Yields.take.many.bind fun tokens areKnown => ?_
  split
  · exact .pure .absent
  · next some =>
    have nonempty : tokens.map (Tree.leaf .ruleModifier) ≠ [] := by simpa using some
    have fill : Fill known .anywhere [⟨.some, [.ruleModifier]⟩]
        (tokens.map (.leaf .ruleModifier)) :=
      .some nonempty (shaped_leaves areKnown rfl (by decide))
    exact .pure (.present (fill.builtAt (.head _) rfl (.head _)))

theorem shapes_ruleName :
    Yields known ruleName fun found =>
      found.1.IsShaped known .anywhere NodeKind.names := by
  refine Yields.take.bind fun name isKnown => ?_
  split
  · exact .pure (shaped_leaf isKnown rfl (by decide))
  · exact .pure (shaped_leaf isKnown rfl (by decide))

theorem shapes_bracketed? {word : Keyword} {kind : NodeKind}
    (isBracketed : kind.patterns = [[⟨.one, [.arguments]⟩]])
      (isFree : kind.isFree = true) :
    Yields known (bracketed? word kind) (Fill known .anywhere [⟨.maybe, [kind]⟩]) := by
  refine Yields.eat.bind fun found _ => ?_
  split
  · exact .pure .absent
  · refine Yields.expect.returns fun arguments isKnown => .present ?_
    exact (fill_leaf .arguments isKnown rfl).builtAt (isBracketed ▸ .head _)
      isFree (.head _)

theorem shapes_throws? :
    Yields known throws? (Fill known .anywhere [⟨.maybe, [.throws]⟩]) := by
  refine Yields.eat.bind fun found _ => ?_
  split
  · exact .pure .absent
  · refine Yields.identifier.separated_ne_nil.returns fun names ⟨nonempty, areKnown⟩ =>
      .present ?_
    have fill : Fill known .anywhere [⟨.some, [.identifier]⟩]
        (names.map (.leaf .identifier)) :=
      .some (by simpa using nonempty) (shaped_leaves areKnown rfl (by decide))
    exact fill.builtAt (.head _) rfl (by decide)

/-- What can stand between the modifiers of a rule and its sections. -/
def signatureParts : List Part :=
  [⟨.maybe, [.arguments]⟩, ⟨.maybe, [.returns]⟩, ⟨.maybe, [.throws]⟩, ⟨.maybe, [.locals]⟩]

theorem shapes_signature :
    Yields known (signature flavour) (Fill known .anywhere signatureParts) := by
  unfold signature
  split
  · refine shapes_arguments?.bind fun arguments ofArguments => ?_
    refine (shapes_bracketed? rfl rfl).bind fun returns ofReturns => ?_
    refine shapes_throws?.bind fun throws ofThrows => ?_
    refine (shapes_bracketed? rfl rfl).returns fun locals ofLocals => ?_
    exact ((ofArguments.append ofReturns).append ofThrows).append ofLocals
  · exact .pure (((Fill.absent.append .absent).append .absent).append .absent)

/-- An alternative of a rule may have a label, as it stands in the body. -/
theorem shapes_ruleAlternative : Yields known (ruleAlternative flavour)
    (IsShaped known (.below [.block, .rule]) (alternativesOf flavour)) := by
  refine (shapes_alternative shapes_block).bind fun alternative isShaped => ?_
  have inBody : alternative.IsShaped known (.below [.block, .rule])
      (alternativesOf flavour) := by
    refine ⟨isShaped.ofKinds, ?_⟩
    rintro _ ⟨further, rfl⟩
    exact isShaped.stands _ (.tail _ (.head _))
  split
  · next isParser =>
    subst isParser
    refine Yields.eat.bind fun found _ => ?_
    split
    · exact .pure inBody
    · exact Yields.identifier.returns fun label _ => inBody.withLabel
  · exact .pure inBody

theorem shapes_ruleBody : Yields known (ruleBody flavour) fun body =>
    body.IsShaped known (.below [.rule]) [.block] ∧
      ∀ child ∈ body.children, child.kind ∈ NodeKind.alternatives := by
  have alternative : Yields known (ruleAlternative flavour)
      (IsShaped known (.below [.block, .rule]) NodeKind.alternatives) :=
    shapes_ruleAlternative.mono fun _ isShaped => isShaped.mono fun _ =>
      alternativesOf_subset
  refine Yields.mark.bind fun colon _ => ?_
  refine alternative.separated_ne_nil.returns fun alternatives ⟨nonempty, each⟩ =>
    ⟨?_, ?_⟩
  · refine (Fill.none.append (.some nonempty each)).block ?_ (.head _)
    rintro _ ⟨further, rfl⟩
    exact ⟨.head _, further, rfl⟩
  · exact fun child member => (each child member).ofKinds

theorem shapes_handler : Yields known handler (IsShaped known place [.handler]) := by
  refine Yields.expect.bind fun keyword _ => ?_
  refine Yields.expect.bind fun arguments isArguments => ?_
  refine Yields.expect.returns fun body isBody => ?_
  exact ((fill_leaf .arguments isArguments rfl).append
    (fill_leaf .action isBody rfl)).builtAt (.head _) rfl (.head _)

theorem shapes_cleanup : Yields known cleanup (IsShaped known place [.cleanup]) := by
  refine Yields.expect.bind fun keyword _ => ?_
  exact Yields.expect.returns fun body isBody =>
    (fill_leaf .action isBody rfl).builtAt (.head _) rfl (.head _)

theorem shapes_handlers {tokens : List Token} (areKnown : ∀ token ∈ tokens, known token) :
    Fill known place [⟨.any, [.handler]⟩, ⟨.maybe, [.cleanup]⟩]
      (handlers tokens).trees := by
  have nothing : Fill known place [⟨.any, [.handler]⟩, ⟨.maybe, [.cleanup]⟩] [] :=
    Fill.none.append .absent
  fun_induction handlers tokens with
  | case1 => exact nothing
  | case2 tokens isCatch tree rest outcome shorter following induction =>
    obtain ⟨isHandler, restKnown⟩ := shapes_handler _ _ _ areKnown outcome
    exact (induction restKnown).cons isHandler
  | case3 tokens isCatch tree rest outcome longer =>
    exact nothing.cons (shapes_handler _ _ _ areKnown outcome).1
  | case4 => exact nothing
  | case5 tokens isFinally tree rest outcome =>
    exact Fill.none.append (.present (shapes_cleanup _ _ _ areKnown outcome).1)
  | case6 => exact nothing

/-- What stands in front of the body of a rule. -/
def ruleFront : List Part := [⟨.one, NodeKind.names⟩, ⟨.maybe, [.ruleModifiers]⟩] ++
  signatureParts ++ [⟨.any, NodeKind.innerSections⟩]

theorem shapes_ruleDeclaration : Yields known ruleDeclaration fun found =>
    ∃ front body, found.1 = .group .rule (front ++ [body]) ∧
      Fill known .anywhere ruleFront front ∧
      body.IsShaped known (.below [.rule]) [.block] ∧
      ∀ child ∈ body.children, child.kind ∈ NodeKind.alternatives := by
  refine shapes_modifiers.bind fun modifiers ofModifiers => ?_
  refine shapes_ruleName.bind fun ⟨name, flavour⟩ isName => ?_
  refine shapes_signature.bind fun signature ofSignature => ?_
  refine shapes_prequels.bind fun sections areSections => ?_
  refine shapes_ruleBody.bind fun body isBody => ?_
  refine Yields.mark.bind fun _ _ => .pure ⟨_, body, rfl, ?_, isBody⟩
  exact (((Fill.one isName).append ofModifiers).append ofSignature).append
    (.any areSections)

theorem shapes_rule :
    Yields known rule fun found => found.1.IsShaped known .outside [.rule] := by
  intro tokens found rest areKnown outcome
  cases RuleDone.of_rule outcome with
  | lexer declared =>
    obtain ⟨⟨front, body, rfl, fill, isBody, alternatives⟩, restKnown⟩ :=
      shapes_ruleDeclaration _ _ _ areKnown declared
    exact ⟨fill.rule isBody alternatives (Fill.none.append .absent) (.head _) (by decide),
      restKnown⟩
  | @parser _ left declared =>
    obtain ⟨⟨front, body, rfl, fill, isBody, alternatives⟩, leftKnown⟩ :=
      shapes_ruleDeclaration _ _ _ areKnown declared
    constructor
    · have opened : (Tree.group .rule (front ++ [body])).append (handlers left).trees =
          .group .rule (front ++ body :: (handlers left).trees) := by
        simp [Tree.group, Tree.builtAt, Tree.append]
      rw [opened]
      exact fill.rule isBody alternatives (shapes_handlers leftKnown)
        (.head _) (by decide)
    · obtain ⟨taken, equal, _⟩ := handlers_eq left
      rw [equal] at leftKnown
      exact (forall_mem_append.mp leftKnown).2

end Parse

namespace Reading

variable {known : Token → Prop} {tokens rest : List Token}
  {post : Tree → Prop} {modes : List ModeSection}

/-! ## Whole grammars -/

/-- What each step of a repetition keeps and ensures. -/
theorem repeated_keeps {α : Type} {step : List Token → Option (α × List Token)}
    {invariant : List Token → Prop} {post : α → Prop}
    (keeps : ∀ tokens value rest, invariant tokens → step tokens = some (value, rest) →
      post value ∧ invariant rest)
    (start : invariant tokens) :
    (∀ value ∈ (repeated step tokens).1, post value) ∧
    invariant (repeated step tokens).2 := by
  fun_induction repeated step tokens with
  | case1 tokens stops => exact ⟨by simp, start⟩
  | case2 tokens value rest applies shorter values left recursion induction =>
    obtain ⟨holds, kept⟩ := keeps tokens value rest start applies
    have further := induction kept
    rw [recursion] at further
    exact ⟨forall_mem_cons.mpr ⟨holds, further.1⟩, further.2⟩
  | case3 tokens value rest applies longer =>
    obtain ⟨holds, kept⟩ := keeps tokens value rest start applies
    exact ⟨forall_mem_singleton.mpr holds, kept⟩

theorem collect_keeps {step : List Token → Option (Harvest × List Token)}
    (keeps : ∀ tokens harvest rest, (∀ token ∈ tokens, known token) →
      step tokens = some (harvest, rest) → (∀ tree ∈ harvest.trees, post tree) ∧
    ∀ token ∈ rest, known token) (areKnown : ∀ token ∈ tokens, known token) :
    (∀ tree ∈ (collect step tokens).1.trees, post tree) ∧
    ∀ token ∈ (collect step tokens).2, known token := by
  have kept := repeated_keeps keeps areKnown
  refine ⟨fun tree member => ?_, kept.2⟩
  obtain ⟨harvest, harvested, inside⟩ := mem_flatMap.mp member
  exact kept.1 harvest harvested tree inside

theorem known_of_append {taken : List Token} (equal : tokens = taken ++ rest)
    (areKnown : ∀ token ∈ tokens, known token) : ∀ token ∈ rest, known token := by
  subst equal
  exact (forall_mem_append.mp areKnown).2

/-- What every section in front of the rules has if each construct for sections
yields it. -/
theorem sections_keep
    (yields : ∀ {kind construct recover}, IsSection kind construct recover →
      construct.Yields known post)
    (areKnown : ∀ token ∈ tokens, known token) :
    (∀ tree ∈ (collect prequelStep tokens).1.trees, post tree) ∧
      ∀ token ∈ (collect prequelStep tokens).2, known token := by
  refine collect_keeps (fun tokens harvest rest areKnown applies => ⟨?_, ?_⟩) areKnown
  · cases PrequelStep.of_applies applies with
    | found isSection _ outcome =>
      exact forall_mem_singleton.mpr (yields isSection _ _ _ areKnown outcome).1
    | failed => exact forall_mem_nil _
  · obtain ⟨taken, equal, _⟩ := prequelStep_spec applies
    exact known_of_append equal areKnown

/-- What every rule has if reading a rule yields it. -/
theorem rules_keep (yields : Parse.rule.Yields known fun found => post found.1)
    (areKnown : ∀ token ∈ tokens, known token) :
    (∀ tree ∈ (rules tokens).1.trees, post tree) ∧ ∀ token ∈ (rules tokens).2,
      known token := by
  refine collect_keeps (fun tokens harvest rest areKnown applies => ⟨?_, ?_⟩) areKnown
  · obtain ⟨token, behind, rfl, _, ends⟩ := exists_ruleStep applies
    cases ends with
    | found _ outcome => exact forall_mem_singleton.mpr (yields _ _ _ areKnown outcome).1
    | failed => exact forall_mem_nil _
    | unstarted => exact forall_mem_nil _
  · obtain ⟨taken, equal, _⟩ := ruleStep_spec applies
    exact known_of_append equal areKnown

theorem shapes_sections (areKnown : ∀ token ∈ tokens, known token) :
    (∀ tree ∈ (collect prequelStep tokens).1.trees,
      tree.IsShaped known .outside NodeKind.sections) ∧
      ∀ token ∈ (collect prequelStep tokens).2, known token := by
  have widened {construct : Parse Tree} {kinds : List NodeKind}
      (yields : construct.Yields known (IsShaped known .outside kinds))
      (included : ∀ kind ∈ kinds, kind ∈ NodeKind.sections) :
      construct.Yields known (IsShaped known .outside NodeKind.sections) :=
    yields.mono fun _ isShaped => isShaped.mono included
  refine sections_keep (fun isSection => ?_) areKnown
  cases isSection with
  | options => exact widened Parse.shapes_options (by decide)
  | tokenNames => exact widened (Parse.shapes_nameSection rfl rfl) (by decide)
  | channelNames => exact widened (Parse.shapes_nameSection rfl rfl) (by decide)
  | imports => exact widened Parse.shapes_imports (by decide)
  | action => exact widened Parse.shapes_namedAction (by decide)

theorem shapes_rules (areKnown : ∀ token ∈ tokens, known token) :
    (∀ tree ∈ (rules tokens).1.trees, tree.IsShaped known .outside [.rule]) ∧
      ∀ token ∈ (rules tokens).2, known token :=
  rules_keep Parse.shapes_rule areKnown

theorem yields_modeLine : modeLine.Yields known fun tree => ∃ span name, known name ∧
      tree = .builtAt .mode span [.leaf .identifier name] := by
  refine Parse.Yields.expect.bind fun keyword _ => ?_
  refine Parse.Yields.identifier.bind fun name isKnown => ?_
  exact Parse.Yields.mark.bind fun _ _ => .pure ⟨some keyword.span, name, isKnown, rfl⟩

/-- What one `mode` line brings: a mode, and rules. -/
structure ModeSection.IsShaped (known : Token → Prop) (found : ModeSection) : Prop where
  mode : ∀ tree ∈ found.mode, tree.IsShaped known .outside [.mode]
  strays : ∀ tree ∈ found.strays, tree.IsShaped known .outside [.rule]

theorem shapes_modeStep {found : ModeSection} (areKnown : ∀ token ∈ tokens, known token)
    (applies : modeStep tokens = some (found, rest)) :
    found.IsShaped known ∧ ∀ token ∈ rest, known token := by
  obtain ⟨_, ends⟩ := ModeStep.of_applies applies
  cases ends with
  | mode outcome =>
    obtain ⟨⟨span, name, nameKnown, rfl⟩, leftKnown⟩ :=
      yields_modeLine _ _ _ areKnown outcome
    obtain ⟨ofRules, restKnown⟩ := shapes_rules leftKnown
    refine ⟨⟨?_, nofun⟩, restKnown⟩
    rintro _ ⟨⟩
    exact ((Parse.fill_leaf .identifier nameKnown rfl).append (.any ofRules)).outside
      (.head _) rfl rfl (.head _)
  | strays outcome =>
    obtain ⟨skipped, equal⟩ :=
      (skipPast_suffix (.punctuation .semicolon) _).trans
        (ensures_modeLine.failed outcome)
    obtain ⟨ofRules, restKnown⟩ := shapes_rules (known_of_append equal.symm areKnown)
    exact ⟨⟨nofun, ofRules⟩, restKnown⟩

theorem shapes_modes (areKnown : ∀ token ∈ tokens, known token) :
    ∀ found ∈ (repeated modeStep tokens).1, found.IsShaped known := by
  have step (tokens : List Token) (found : ModeSection) (rest : List Token)
      (areKnown : ∀ token ∈ tokens, known token)
      (applies : modeStep tokens = some (found, rest)) :
      found.IsShaped known ∧ ∀ token ∈ rest, known token :=
        shapes_modeStep areKnown applies
  exact (repeated_keeps step areKnown).1

theorem shapes_strays (each : ∀ found ∈ modes, found.IsShaped known) :
    ∀ tree ∈ modes.flatMap (·.strays), tree.IsShaped known .outside [.rule] := by
  intro tree member
  obtain ⟨found, isFound, inside⟩ := mem_flatMap.mp member
  exact (each found isFound).strays tree inside

theorem shapes_found (each : ∀ found ∈ modes, found.IsShaped known) :
    ∀ tree ∈ modes.filterMap (·.mode), tree.IsShaped known .outside [.mode] := by
  intro tree member
  obtain ⟨found, isFound, isMode⟩ := mem_filterMap.mp member
  exact (each found isFound).mode tree isMode

theorem shapes_headerName (areKnown : ∀ token ∈ tokens, known token) :
    Fill known .outside [⟨.maybe, [.identifier]⟩] (header tokens).1.name.toList := by
  obtain ⟨front, equal, _⟩ := flavourOf_spec tokens
  have behindKnown := known_of_append equal areKnown
  unfold header
  generalize flavourOf tokens = result at behindKnown
  obtain ⟨flavour, behind⟩ := result
  dsimp only
  split
  · exact .absent
  · next outcome =>
    have nameKnown := (Parse.Yields.expect _ _ _ behindKnown outcome).2
    split
    · exact .absent
    · next found =>
      exact .present (Parse.shaped_leaf (Parse.Yields.identifier _ _ _ nameKnown found).1
        rfl (by decide))

theorem shaped_rules {trees : List Tree}
    (areRules : ∀ tree ∈ trees, tree.IsShaped known .outside [.rule]) :
    (Tree.group .rules trees).IsShaped known .outside [.rules] :=
  (Fill.any areRules).outside (.head _) rfl rfl (.head _)

theorem shaped_tree (tokens : List Token) :
    (ofTokens tokens).tree.IsShaped (· ∈ tokens) .outside [.grammar] := by
  have areKnown : ∀ token ∈ tokens, token ∈ tokens := fun _ => id
  obtain ⟨line, lineEqual, _⟩ := header_spec tokens
  obtain ⟨ofSections, behindSections⟩ :=
    shapes_sections (known_of_append lineEqual areKnown)
  obtain ⟨ofRules, behindRules⟩ := shapes_rules behindSections
  have ofModes := shapes_modes behindRules
  have rules := shaped_rules (forall_mem_append.mpr ⟨ofRules, shapes_strays ofModes⟩)
  have front :=
    ((shapes_headerName areKnown).append (.any ofSections)).append (.one rules)
  exact (front.append (.any (shapes_found ofModes))).outside (.head _) rfl rfl (.head _)

theorem stands_tree (tokens : List Token) :
    (ofTokens tokens).tree.Stands (· ∈ tokens) [] :=
  (shaped_tree tokens).stands [] nofun

theorem exists_name_of_faults_nil (noFaults : (ofTokens tokens).faults = []) :
    ∃ name, (ofTokens tokens).tree.children.head? = some (.leaf .identifier name) := by
  have ofHeader : (behindHeader (header tokens).2).1 = [] := by
    simp only [ofTokens, append_eq_nil_iff] at noFaults
    exact noFaults.1.1.1
  have found : ∃ name, (header tokens).1.name = some (.leaf .identifier name) := by
    revert ofHeader
    unfold header
    dsimp only
    split
    · exact fun isFault => by cases isFault
    · split
      · exact fun isFault => by cases isFault
      · next name _ _ => exact fun _ => ⟨name, rfl⟩
  obtain ⟨name, isName⟩ := found
  refine ⟨name, ?_⟩
  simp only [ofTokens, isName, Option.toList_some, cons_append]
  rfl

end Reading

namespace Grammar

/-- Whatever the source, with errors or without, the children of every node are of the
kinds and in the order that the table gives, and the body of a rule holds nothing but
alternatives. A grammar without errors has a name. -/
theorem nodes_follow_patterns (source : String) :
    (ofSource source).tree.root.kind = .grammar ∧
      (∀ node ∈ (ofSource source).tree.nodes,
        (∃ parts ∈ node.kind.patterns, Part.Match parts (node.children.map Node.kind)) ∧
          (node.kind = .rule → ∀ block ∈ node.children, block.kind = .block →
            ∀ child ∈ block.children, child.kind ∈ NodeKind.alternatives)) ∧
      ((ofSource source).errors = [] →
        (ofSource source).tree.root.firstChild?.map Node.kind = some .identifier) := by
  have shaped :=
    Reading.shaped_tree ((Token.ofText source.toList).filter (·.isSignificant))
  refine ⟨mem_singleton.mp shaped.ofKinds, fun node member => ?_, fun noErrors => ?_⟩
  · have allowed := ((Reading.stands_tree _).of_mem member).allowed
    have pattern := allowed.pattern
    rw [← Node.map_tree_children, map_map] at pattern
    refine ⟨pattern, fun isRule block isChild isBlock child inBlock => ?_⟩
    obtain ⟨_, body, only, alternatives⟩ := allowed.declared isRule
    have isBody : block.tree ∈ node.tree.children.filter (·.kind = .block) :=
      mem_filter.mpr ⟨Node.tree_mem_children isChild, decide_eq_true isBlock⟩
    rw [only, mem_singleton] at isBody
    exact alternatives child.tree (isBody ▸ Node.tree_mem_children inBlock)
  · obtain ⟨name, isFirst⟩ :=
      Reading.exists_name_of_faults_nil ((errors_eq_nil_iff source).mp noErrors).2
    have first : (ofSource source).tree.root.firstChild?.map (·.tree) =
        some (.leaf .identifier name) := by
      rw [Node.firstChild?, ← head?_map, Node.map_tree_children]
      exact isFirst
    have kinds := congrArg (Option.map Tree.kind) first
    rwa [Option.map_map] at kinds

/-- The second rule has a fault and is left out; the first one and the root keep
their shape. -/
theorem nodes_follow_patterns_faulty :
    (ofSource "grammar G; a : b=(C | D)* ~'x'? ; e : ( ;").errors ≠ [] ∧
      (∃ rule ∈ (ofSource "grammar G; a : b=(C | D)* ~'x'? ; e : ( ;").tree.nodes,
        rule.kind = .rule ∧
        (∃ parts ∈ NodeKind.rule.patterns,
          Part.Match parts (rule.children.map Node.kind)) ∧
        ∃ block ∈ rule.children, block.kind = .block ∧
          ∃ child ∈ block.children, child.kind ∈ NodeKind.alternatives) ∧
      (ofSource "grammar G; a : B ;").tree.root.firstChild?.map Node.kind =
        some .identifier := by
  refine ⟨by decide +kernel, ?_, (nodes_follow_patterns _).2.2 (by decide +kernel)⟩
  obtain ⟨rule, member, isRule, block, isChild, isBlock, child, inBlock⟩ :
      ∃ rule ∈ (ofSource "grammar G; a : b=(C | D)* ~'x'? ; e : ( ;").tree.nodes,
        rule.kind = .rule ∧
        ∃ block ∈ rule.children, block.kind = .block ∧
        ∃ child ∈ block.children, True := by
    decide +kernel
  obtain ⟨pattern, body⟩ := (nodes_follow_patterns _).2.1 rule member
  rw [isRule] at pattern
  exact ⟨rule, member, isRule, pattern, block, isChild, isBlock, child, inBlock.1,
    body isRule block isChild isBlock child inBlock.1⟩

end Grammar

end GrammarInspector
