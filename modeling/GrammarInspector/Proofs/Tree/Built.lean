import GrammarInspector.Grammar.Rule
import GrammarInspector.Proofs.Tree.Walk

/-! # Trees and the tokens they are built from

`Built passes inBody taken trees` says that the trees were built from the tokens `taken`,
each token being used for one node or passed over, and the trees standing side by side in
the order of their tokens. It leaves open which construct the tokens form; what it settles
is where each node comes from and in which order the nodes follow each other, whatever the
constructs are.
-/

namespace GrammarInspector

namespace NodeKind

variable {kind : NodeKind} {shown : TokenKind}

/-- The kinds of nodes that name a rule or a token. -/
def isName : NodeKind → Bool
  | .tokenRef | .ruleRef => true
  | _ => false

/-- The kinds of nodes that show the text of a token. Modifiers are left out: a rule lists
them behind its name, which they precede in the source. -/
def isText : NodeKind → Bool
  | .identifier | .tokenRef | .ruleRef | .literal | .charSet | .action | .predicate
  | .arguments | .int => true
  | _ => false

/-- The kinds of nodes for modifiers. -/
def isModifier : NodeKind → Bool
  | .ruleModifiers | .ruleModifier => true
  | _ => false

/-- Whether a leaf of this kind can show a token of a kind. -/
def fits : NodeKind → TokenKind → Bool
  | .identifier, .tokenRef | .identifier, .ruleRef | .identifier, .keyword .lexer
  | .identifier, .keyword .parser | .identifier, .keyword .mode | .tokenRef, .tokenRef
  | .ruleRef, .ruleRef | .literal, .literal | .charSet, .bracket | .action, .action
  | .predicate, .predicate | .arguments, .bracket | .int, .int => true
  | _, _ => false

/-- The kinds of nodes that only hold other nodes, apart from rules and whole grammars. -/
def isHolder (kind : NodeKind) : Bool :=
  kind.fixedText?.isSome && kind != .rule && kind != .grammar && kind != .epsilon

theorem isText_of_fits (fitting : kind.fits shown = true) : kind.isText = true := by
  unfold fits at fitting
  split at fitting <;> simp_all [isText]

theorem bodyBelow_of_isText (isText : kind.isText = true) (inBody : Bool) :
    Node.bodyBelow inBody kind = inBody := by
  cases kind <;> cases isText <;> rfl

theorem isName_of_eq_or_eq (ofKind : kind = .tokenRef ∨ kind = .ruleRef) :
    kind.isName = true := by
  rcases ofKind with rfl | rfl <;> rfl

theorem isText_of_isName (isName : kind.isName = true) : kind.isText = true := by
  cases kind <;> cases isName <;> rfl

/-- A token is shown by names of one kind only. -/
theorem eq_of_fits {left right : NodeKind} (leftName : left.isName = true)
    (rightName : right.isName = true) (leftFits : left.fits shown = true)
    (rightFits : right.fits shown = true) : left = right := by
  cases left <;> cases leftName <;> cases right <;> cases rightName <;> first
    | rfl
    | (unfold fits at leftFits rightFits
       split at leftFits <;> simp_all)

theorem fixedText?_of_isHolder (isHolder : kind.isHolder = true) :
    kind.fixedText? = some (kind.fixedText?.getD "") := by
  rw [NodeKind.isHolder, Bool.and_eq_true, Bool.and_eq_true, Bool.and_eq_true] at isHolder
  obtain ⟨text, equal⟩ := Option.isSome_iff_exists.mp isHolder.1.1.1
  rw [equal]
  rfl

theorem not_isText_of_isHolder (isHolder : kind.isHolder = true) :
    ¬kind.isText = true := by
  intro isText
  cases kind <;> cases isText <;> cases isHolder

end NodeKind

namespace Span

variable {tokens : List Token}

/-- Whether one of two spans ends before the other begins. -/
def Apart (left right : Span) : Prop := left.stop ≤ right.start ∨ right.stop ≤ left.start

/-- Whether a span begins where one of some tokens begins and ends where one
of them ends. -/
def From (tokens : List Token) (span : Span) : Prop :=
  (∃ token ∈ tokens, token.span.start = span.start) ∧
    ∃ token ∈ tokens, token.span.stop = span.stop

theorem From.mono {more : List Token} {span : Span} (origin : span.From tokens)
    (included : tokens ⊆ more) : span.From more := by
  obtain ⟨⟨first, firstMember, start⟩, last, lastMember, stop⟩ := origin
  exact ⟨⟨first, included firstMember, start⟩, last, included lastMember, stop⟩

theorem from_of_mem {token : Token} (member : token ∈ tokens) : token.span.From tokens :=
  ⟨⟨token, member, rfl⟩, token, member, rfl⟩

theorem From.merge {left right : Span} (leftFrom : left.From tokens)
    (rightFrom : right.From tokens) : (left.merge right).From tokens := by
  constructor
  · rcases Nat.le_total left.start right.start with less | greater
    · rw [Span.merge, Nat.min_eq_left less]
      exact leftFrom.1
    · rw [Span.merge, Nat.min_eq_right greater]
      exact rightFrom.1
  · rcases Nat.le_total left.stop right.stop with less | greater
    · rw [Span.merge, Nat.max_eq_right less]
      exact rightFrom.2
    · rw [Span.merge, Nat.max_eq_left greater]
      exact leftFrom.2

end Span

/-! ## The relation -/

namespace Tree

/-- The leaf of several names with dots between them. -/
def dotted (first : Token) (rest : List Token) : Tree :=
  .node ⟨.identifier, rest.foldl (fun text name => text ++ "." ++ name.text) first.text,
    some (rest.foldl (fun span name => span.merge name.span) first.span), none⟩ []

/-- The node of a rule's modifiers, if it has some. -/
def ofModifiers (modifiers : List Token) : List Tree :=
  if modifiers.isEmpty then []
  else [group .ruleModifiers (modifiers.map (leaf .ruleModifier))]

/-- The tree of a rule with its modifiers. -/
def ofRule (kind : NodeKind) (name : Token) (modifiers : List Token)
    (children : List Tree) : Tree :=
  group .rule (leaf kind name :: ofModifiers modifiers ++ children)

/-- How trees come from tokens. Tokens may be left without a node if they satisfy
`passes`. The flag says whether the trees stand in a rule body, where alone names occur
other than the names of rules. -/
inductive Built (passes : Token → Prop) : Bool → List Token → List Tree → Prop
  | nothing {inBody : Bool} : Built passes inBody [] []
  | passed {inBody : Bool} {token : Token} (allowed : passes token) :
      Built passes inBody [token] []
  | append {inBody : Bool} {first second : List Token} {trees others : List Tree}
      (left : Built passes inBody first trees)
        (right : Built passes inBody second others) :
      Built passes inBody (first ++ second) (trees ++ others)
  | leaf {inBody : Bool} {kind : NodeKind} {token : Token} {behind : List Token}
      {children : List Tree} (fitting : kind.fits token.kind = true)
      (place : (!kind.isName || inBody) = true)
        (below : Built passes inBody behind children) :
      Built passes inBody (token :: behind) [(Tree.leaf kind token).append children]
  | dotted {inBody : Bool} {first : Token} {rest : List (Token × Token)}
      (isName : first.kind.isIdentifier = true)
      (areNames : ∀ pair ∈ rest, pair.1.kind = .punctuation .dot ∧
        pair.2.kind.isIdentifier = true) :
      Built passes inBody (first :: rest.flatMap fun pair => [pair.1, pair.2])
        [Tree.dotted first (rest.map (·.2))]
  | epsilon {inBody : Bool} : Built passes inBody [] [group .epsilon []]
  | holder {inBody : Bool} {kind : NodeKind} {span : Option Span} {taken : List Token}
      {children : List Tree} (isHolder : kind.isHolder = true)
      (origin : ∀ own, span = some own → own.From taken)
      (below : Built passes (Node.bodyBelow inBody kind) taken children) :
      Built passes inBody taken [builtAt kind span children]
  | labelled {taken : List Token} {children : List Tree} {hash label : Token}
      (allowed : passes hash) (isName : label.kind.isIdentifier = true)
      (below : Built passes true taken children) :
      Built passes true (taken ++ [hash, label])
        [(group .alternative children).withLabel ⟨label.text, label.span⟩]
  | rule {kind : NodeKind} {modifiers behind : List Token} {name : Token}
      {children : List Tree}
      (areModifiers : ∀ modifier ∈ modifiers, Parse.isModifier modifier.kind = true)
      (isName : kind.isName = true) (fitting : kind.fits name.kind = true)
      (below : Built passes false behind children) :
      Built passes false (modifiers ++ name :: behind)
        [ofRule kind name modifiers children]

namespace Built

variable {passes : Token → Prop} {inBody : Bool} {taken : List Token} {trees : List Tree}
  {kind : NodeKind}

theorem mono {more : Token → Prop} (included : ∀ token, passes token → more token)
    (built : Built passes inBody taken trees) : Built more inBody taken trees := by
  induction built with
  | nothing => exact .nothing
  | passed allowed => exact .passed (included _ allowed)
  | append _ _ left right => exact .append left right
  | leaf fitting place _ below => exact .leaf fitting place below
  | dotted isName areNames => exact .dotted isName areNames
  | epsilon => exact .epsilon
  | holder isHolder origin _ below => exact .holder isHolder origin below
  | labelled allowed isName _ below => exact .labelled (included _ allowed) isName below
  | rule areModifiers isName fitting _ below =>
      exact .rule areModifiers isName fitting below

/-- Tokens that may be passed over can all be left out together. -/
theorem of_forall (allowed : ∀ token ∈ taken, passes token) :
    Built passes inBody taken [] := by
  induction taken with
  | nil => exact .nothing
  | cons token rest induction =>
    have head : Built passes inBody [token] [] :=
      .passed (allowed token (List.mem_cons_self ..))
    have tail : Built passes inBody rest [] :=
      induction fun other member => allowed other (List.mem_cons_of_mem _ member)
    exact head.append tail

theorem single {token : Token} (fitting : kind.fits token.kind = true)
    (place : (!kind.isName || inBody) = true) :
    Built passes inBody [token] [Tree.leaf kind token] :=
  .leaf fitting place .nothing

theorem group (isHolder : kind.isHolder = true)
    (below : Built passes (Node.bodyBelow inBody kind) taken trees) :
    Built passes inBody taken [Tree.group kind trees] :=
  .holder isHolder (fun own begins => by cases begins) below

end Built

end Tree

end GrammarInspector
