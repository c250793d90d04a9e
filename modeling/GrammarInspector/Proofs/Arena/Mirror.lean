import GrammarInspector.Proofs.Arena.Branches
import GrammarInspector.Proofs.Arena.Building

/-! # Building as reading does

Building a construct follows reading it: both end in the same way and at the same token,
and all steps in the arena are legal. It mirrors reading if what is built are branches
with the trees that are read. What is said of a construct is said of some branches that it
works on; any others are left alone.
-/

namespace GrammarInspector

open List

open GrammarInspector.Arena (Branch Trunk AreLegal)

/-- Two ways to end that go together: done with values that fit, or failed at
the same place. -/
inductive Outcome.Agree {α β : Type} (fits : α → β → Prop) (otherwise : Prop) :
    Outcome α → Outcome β → Prop
  | done {value : α} {result : β} {rest : List Token} (holds : fits value result) :
      Agree fits otherwise (.done value rest) (.done result rest)
  | failed {expected : Expected} {rest : List Token} (holds : otherwise) :
      Agree fits otherwise (.failed expected rest) (.failed expected rest)

/-- What building comes to where reading has some outcome, and what is known of
the arena then. -/
structure Built.Fits {α β : Type} (built : Built β) (lines : LineIndex) (arena : Arena)
    (outcome : Outcome α) (post : α → β → Arena → Prop) (otherwise : Arena → Prop) :
    Prop where
  legal : AreLegal lines arena built.steps
  agree : Outcome.Agree (fun value result => post value result (arena.after built.steps))
    (otherwise (arena.after built.steps)) outcome built.outcome

namespace Built.Fits

variable {α β : Type} {lines : LineIndex} {arena : Arena} {outcome : Outcome α}
  {post : α → β → Arena → Prop} {otherwise : Arena → Prop} {built : Built β}

/-- Steps that were made before are legal together with those made later. -/
theorem prepend {steps : List Arena.Step} (legal : AreLegal lines arena steps)
    (fits : built.Fits lines (arena.after steps) outcome post otherwise) :
    Built.Fits ⟨steps ++ built.steps, built.outcome⟩ lines arena outcome post
      otherwise := by
  refine ⟨legal.append fits.legal, ?_⟩
  rw [Arena.after_append]
  exact fits.agree

/-- What is said of the end may be weakened by what reading came to. -/
theorem imp {weaker : α → β → Arena → Prop} {less : Arena → Prop}
    (fits : built.Fits lines arena outcome post otherwise)
    (implies : ∀ value result rest, outcome = .done value rest →
      post value result (arena.after built.steps) →
    weaker value result (arena.after built.steps))
    (fails : otherwise (arena.after built.steps) → less (arena.after built.steps)) :
    built.Fits lines arena outcome weaker less := by
  obtain ⟨steps, ending⟩ := built
  obtain ⟨legal, agree⟩ := fits
  refine ⟨legal, ?_⟩
  cases agree with
  | done holds => exact .done (implies _ _ _ rfl holds)
  | failed holds => exact .failed (fails holds)

end Built.Fits

namespace Build

variable {α β γ δ : Type} {parse : Parse α} {build : Build β}
  {parent : Nat} {data : NodeData} {trees : List Tree} {holder : Option Nat}
  {next : Tree → Parse γ} {final : γ → δ → List Branch → Prop}

/-- Whether building a construct ends as reading it does, and what is then known
of the arena. -/
def Follows (parse : Parse α) (build : Build β) (pre : Arena → Prop)
    (post : α → β → Arena → Prop) (otherwise : Arena → Prop) : Prop :=
  ∀ lines arena tokens, arena.IsForest → pre arena →
    (build lines arena tokens).Fits lines arena (parse tokens) post otherwise

/-- Whether a construct is built as it is read. A construct that fails leaves only the
branches it does not work on. -/
def Mirrors (parse : Parse α) (build : Build β) (before : List Branch)
    (after : α → β → List Branch → Prop) : Prop :=
  ∀ trunk others, Follows parse build (·.Bears trunk (before ++ others))
    (fun value result arena => ∃ branches, after value result branches ∧
      arena.Bears trunk (branches ++ others))
    (·.Bears trunk others)

namespace Follows

variable {pre otherwise : Arena → Prop} {post : α → β → Arena → Prop}
  {next : α → Parse γ} {further : β → Build δ} {final : γ → δ → Arena → Prop}

theorem mono {weaker : α → β → Arena → Prop} {less : Arena → Prop}
    (follows : Follows parse build pre post otherwise)
    (implies : ∀ value result arena, post value result arena → weaker value result arena)
    (fails : ∀ arena, otherwise arena → less arena) :
    Follows parse build pre weaker less :=
  fun lines arena tokens forest holds =>
    (follows lines arena tokens forest holds).imp (fun value result _ _ =>
      implies value result _)
      (fails _)

theorem pure {value : α} {result : β}
    (holds : ∀ arena, pre arena → post value result arena) :
    Follows (Pure.pure value) (Pure.pure result) pre post otherwise :=
  fun _ arena _ _ isPre => ⟨.nil, .done (holds arena isPre)⟩

theorem bind (first : Follows parse build pre post otherwise)
    (second : ∀ value result, Follows (next value) (further result) (post value result)
      final otherwise) :
    Follows (parse >>= next) (build >>= further) pre final otherwise := by
  intro lines arena tokens forest holds
  obtain ⟨legal, agree⟩ := first lines arena tokens forest holds
  have later := forest.after legal
  rw [Parse.bind_apply, Build.bind_apply]
  revert agree
  generalize parse tokens = read
  generalize (build lines arena tokens).outcome = built
  intro agree
  cases agree with
  | @done value result rest holds =>
    exact (second value result lines _ rest later holds).prepend legal
  | failed holds => exact ⟨legal, .failed holds⟩

/-- A step that reads nothing. -/
theorem act {known : β → Arena → Prop} {final : α → δ → Arena → Prop}
    (first : Follows (Pure.pure ()) build pre (fun _ => known) otherwise)
    (second : ∀ result, Follows parse (further result) (known result) final otherwise) :
    Follows parse (build >>= further) pre final otherwise :=
  first.bind fun _ result => second result

theorem read {further : α → Build δ}
    (fails : ∀ arena, arena.IsForest → pre arena → otherwise arena)
    (second : ∀ value, Follows (next value) (further value) pre final otherwise) :
    Follows (parse >>= next) (Build.read parse >>= further) pre final otherwise := by
  have first : Follows parse (Build.read parse) pre
      (fun value result arena => value = result ∧ pre arena) otherwise := by
    intro lines arena tokens forest holds
    refine ⟨.nil, ?_⟩
    change Outcome.Agree _ _ (parse tokens) (parse tokens)
    cases parse tokens with
    | done value rest => exact .done ⟨rfl, holds⟩
    | failed expected rest => exact .failed (fails arena forest holds)
  refine first.bind fun value result lines arena tokens forest ⟨same, holds⟩ => ?_
  subst same
  exact second value lines arena tokens forest holds

/-- What legal steps keep is known in the end, too. -/
theorem keeping {known : Arena → Prop} (follows : Follows parse build pre post otherwise)
    (stable : Arena.IsStable known) :
    Follows parse build (fun arena => pre arena ∧ known arena)
      (fun value result arena => post value result arena ∧ known arena)
      (fun arena => otherwise arena ∧ arena.IsForest ∧ known arena) := by
  intro lines arena tokens forest ⟨holds, isKnown⟩
  have fits := follows lines arena tokens forest holds
  have still := fits.legal.keeps (stable lines) isKnown prefix_rfl
  exact fits.imp (fun _ _ _ _ holds => ⟨holds, still⟩)
    fun holds => ⟨holds, forest.after fits.legal, still⟩

/-- What reading ensures of a value. -/
theorem knowing {good : α → Prop} (follows : Follows parse build pre post otherwise)
    (each : ∀ tokens value rest, parse tokens = .done value rest → good value) :
    Follows parse build pre (fun value result arena =>
      post value result arena ∧ good value)
      otherwise :=
  fun lines arena tokens forest holds => (follows lines arena tokens forest holds).imp
    (fun _ _ _ isDone holds => ⟨holds, each _ _ _ isDone⟩) id

/-- The value given at the end may be made from what was read. -/
theorem returns {make : α → γ} {final : γ → β → Arena → Prop}
    (follows : Follows parse build pre (fun value => final (make value)) otherwise) :
    Follows (do return make (← parse)) build pre final otherwise := by
  intro lines arena tokens forest holds
  obtain ⟨legal, agree⟩ := follows lines arena tokens forest holds
  refine ⟨legal, ?_⟩
  rw [Parse.bind_apply]
  revert agree
  generalize parse tokens = read
  generalize (build lines arena tokens).outcome = built
  intro agree
  cases agree with
  | done holds => exact .done holds
  | failed holds => exact .failed holds

/-- Giving back what was read changes nothing. -/
theorem ofReturn (follows : Follows (parse >>= Pure.pure) build pre post otherwise) :
    Follows parse build pre post otherwise := by
  have same : parse >>= Pure.pure = parse := by
    funext tokens
    rw [Parse.bind_apply]
    cases parse tokens <;> rfl
  rwa [same] at follows

end Follows

namespace Mirrors

open GrammarInspector.Arena

variable {before more : List Branch} {post : α → β → List Branch → Prop}
  {kind : NodeKind} {token : Token} {span : Option Span} {content : Content}
  {child : Nat} {tree : Tree} {value : α} {next : α → Parse γ}
  {final : α → δ → List Branch → Prop} {further : Unit → Build δ}

/-! ## Sequences -/

theorem pure {result : β} (holds : post value result before) :
    Mirrors (pure value) (pure result) before post :=
  fun _ _ _ _ _ _ bears => ⟨.nil, .done ⟨before, holds, bears⟩⟩

theorem mono {weaker : α → β → List Branch → Prop}
    (mirrors : Mirrors parse build before post)
    (implies : ∀ value result branches, post value result branches →
      weaker value result branches) :
    Mirrors parse build before weaker := by
  intro trunk others
  refine (mirrors trunk others).mono ?_ fun _ bears => bears
  rintro value result arena ⟨branches, isPost, bears⟩
  exact ⟨branches, implies _ _ _ isPost, bears⟩

theorem knowing {good : α → Prop} (mirrors : Mirrors parse build before post)
    (each : ∀ tokens value rest, parse tokens = .done value rest → good value) :
    Mirrors parse build before fun value result branches =>
      post value result branches ∧ good value := by
  intro trunk others
  refine ((mirrors trunk others).knowing each).mono ?_ fun _ bears => bears
  rintro value result arena ⟨⟨branches, isPost, bears⟩, isGood⟩
  exact ⟨branches, ⟨isPost, isGood⟩, bears⟩

theorem returns {make : α → γ} {final : γ → β → List Branch → Prop}
    (mirrors : Mirrors parse build before post)
    (holds : ∀ value result branches, post value result branches →
      final (make value) result branches) :
    Mirrors (do return make (← parse)) build before final :=
  fun trunk others => (mirrors.mono holds trunk others).returns

theorem ofReturn (mirrors : Mirrors (parse >>= Pure.pure) build before post) :
    Mirrors parse build before post :=
  fun trunk others => (mirrors trunk others).ofReturn

theorem bind {further : β → Build δ} {final : γ → δ → List Branch → Prop}
    (first : Mirrors parse build before post)
    (second : ∀ value result branches, post value result branches →
      Mirrors (next value) (further result) branches final) :
    Mirrors (parse >>= next) (build >>= further) before final := by
  intro trunk others
  refine (first trunk others).bind fun value result lines arena tokens forest => ?_
  rintro ⟨branches, isPost, bears⟩
  exact second value result branches isPost trunk others lines arena tokens forest bears

theorem assoc {last : γ → Parse δ} {final : δ → β → List Branch → Prop}
    (mirrors : Mirrors (parse >>= fun value => next value >>= last) build before final) :
    Mirrors (parse >>= next >>= last) build before final := by
  have same : (parse >>= next >>= last : Parse δ) =
      parse >>= fun value => next value >>= last := by
    funext tokens
    rw [Parse.bind_apply, Parse.bind_apply, Parse.bind_apply]
    cases parse tokens <;> rfl
  rwa [same]

theorem act {further : β → Build δ} {post : Unit → β → List Branch → Prop}
    (first : Mirrors (Pure.pure ()) build before post)
    (second : ∀ result branches, post () result branches →
      Mirrors parse (further result) branches final) :
    Mirrors parse (build >>= further) before final :=
  first.bind fun _ result branches isPost => second result branches isPost

/-- Other branches are left alone. -/
theorem frame (mirrors : Mirrors parse build before post) (more : List Branch) :
    Mirrors parse build (before ++ more) fun value result branches =>
      ∃ own, post value result own ∧ branches = own ++ more := by
  intro trunk others lines arena tokens forest bears
  rw [append_assoc] at bears
  refine ((mirrors trunk (more ++ others)).mono ?_ ?_) lines arena tokens forest bears
  · rintro value result arena ⟨own, isPost, bears⟩
    refine ⟨own ++ more, ⟨own, isPost, rfl⟩, ?_⟩
    rwa [append_assoc]
  · exact fun arena bears => bears.sublist (sublist_append_right _ _)

theorem perm {same : List Branch} (mirrors : Mirrors parse build same post)
    (isPerm : before.Perm same) : Mirrors parse build before post :=
  fun trunk others lines arena tokens forest bears =>
    mirrors trunk others lines arena tokens forest
      (bears.perm (isPerm.append_right others))

/-- A branch may be taken from further behind. -/
theorem toFront {branch : Branch} (front : List Branch)
    (mirrors : Mirrors parse build (branch :: (front ++ before)) post) :
    Mirrors parse build (front ++ branch :: before) post :=
  mirrors.perm perm_middle

/-! ## Single steps -/

theorem fail {expected : Expected} :
    Mirrors (Parse.fail expected) (Build.read (Parse.fail expected)) before post :=
  fun _ _ _ _ _ _ bears =>
    ⟨.nil, .failed (bears.sublist (sublist_append_right _ _))⟩

theorem read {further : α → Build δ} {final : γ → δ → List Branch → Prop}
    (second : ∀ value, Mirrors (next value) (further value) before final) :
    Mirrors (parse >>= next) (Build.read parse >>= further) before final :=
  fun trunk others => .read (fun _ _ bears => bears.sublist (sublist_append_right _ _))
    fun value => second value trunk others

theorem look {question : Arena → β} (answer : β) {further : β → Build δ}
    (known : ∀ arena trunk others, arena.IsForest → arena.Bears trunk (before ++ others) →
      question arena = answer)
    (second : Mirrors parse (further answer) before final) :
    Mirrors parse (Build.look question >>= further) before final := by
  have first : Mirrors (Pure.pure ()) (Build.look question) before
      fun _ result branches =>
      result = answer ∧ branches = before := by
    intro trunk others lines arena tokens forest bears
    exact ⟨.nil, .done ⟨before, ⟨known arena trunk others forest bears, rfl⟩, bears⟩⟩
  refine first.act ?_
  rintro _ _ ⟨rfl, rfl⟩
  exact second

/-- Whether a node is made that shows something, with its position. -/
def Sites (build : Build Nat) (content : Content) : Prop :=
  ∀ lines arena tokens, build lines arena tokens =
    ⟨[.alloc content (content.span.map fun span => lines.position span.start)],
      .done arena.size tokens⟩

theorem sites_leaf : Sites (Build.leaf kind token) ⟨kind, token.text, some token.span⟩ :=
  fun _ _ _ => rfl

theorem sites_nodeAt :
    Sites (Build.nodeAt kind span) ⟨kind, kind.fixedText?.getD "", span⟩ :=
  fun _ _ _ => rfl

theorem sites_nodeWithText {text : String} {span : Span} :
    Sites (Build.nodeWithText kind text span) ⟨kind, text, some span⟩ :=
  fun _ _ _ => rfl

theorem allocs {build : Build Nat} {post : α → Nat → List Branch → Prop}
    (sites : Sites build content)
    (holds : ∀ id, post value id (⟨id, .node (content.data none) [], none⟩ :: before)) :
    Mirrors (Pure.pure value) build before post := by
  intro trunk others lines arena tokens forest bears
  rw [sites]
  exact ⟨.cons rfl .nil, .done ⟨_, holds arena.size, bears.alloc forest _ _⟩⟩

theorem alloc {build : Build Nat} {further : Nat → Build δ} (sites : Sites build content)
    (second : ∀ id, Mirrors parse (further id)
      (⟨id, .node (content.data none) [], none⟩ :: before) final) :
    Mirrors parse (build >>= further) before final := by
  have first : Mirrors (Pure.pure ()) build before fun _ id branches =>
      branches = ⟨id, .node (content.data none) [], none⟩ :: before :=
    allocs sites fun _ => rfl
  refine first.act ?_
  rintro id _ rfl
  exact second id

theorem leaf {further : Nat → Build δ}
    (second : ∀ id, Mirrors parse (further id)
      (⟨id, .leaf kind token, none⟩ :: before) final) :
    Mirrors parse (Build.leaf kind token >>= further) before final :=
  alloc sites_leaf second

theorem node {further : Nat → Build δ}
    (second : ∀ id, Mirrors parse (further id)
      (⟨id, .builtAt kind span [], none⟩ :: before) final) :
    Mirrors parse (Build.nodeAt kind span >>= further) before final :=
  alloc sites_nodeAt second

theorem attaches {post : α → Unit → List Branch → Prop}
    (holds : post value () (⟨parent, .node data (trees ++ [tree]), holder⟩ :: before)) :
    Mirrors (Pure.pure value) (Build.attach parent child)
      (⟨child, tree, none⟩ :: ⟨parent, .node data trees, holder⟩ :: before) post := by
  intro trunk others lines arena tokens forest bears
  exact ⟨.cons bears.isLegal_attach .nil, .done ⟨_, holds, bears.attach forest⟩⟩

theorem attach
    (second : Mirrors parse (further ())
      (⟨parent, .node data (trees ++ [tree]), holder⟩ :: before) final) :
    Mirrors parse (Build.attach parent child >>= further)
      (⟨child, tree, none⟩ :: ⟨parent, .node data trees, holder⟩ :: before) final := by
  have first : Mirrors (Pure.pure ()) (Build.attach parent child)
      (⟨child, tree, none⟩ :: ⟨parent, .node data trees, holder⟩ :: before)
        fun _ _ branches =>
        branches = ⟨parent, .node data (trees ++ [tree]), holder⟩ :: before :=
          attaches rfl
  refine first.act ?_
  rintro _ _ rfl
  exact second

theorem adoptNew {build : Build Nat} (sites : Sites build content)
    (second : Mirrors parse (further ())
      (⟨parent, .node data (trees ++ [.node (content.data none) []]), holder⟩ :: before)
      final) :
    Mirrors parse (adopt parent build >>= further)
      (⟨parent, .node data trees, holder⟩ :: before) final := by
  have first : Mirrors (Pure.pure ()) (adopt parent build)
      (⟨parent, .node data trees, holder⟩ :: before) fun _ _ branches =>
        branches =
          ⟨parent, .node data (trees ++ [.node (content.data none) []]),
            holder⟩ :: before :=
    alloc sites fun _ => attaches rfl
  refine first.act ?_
  rintro _ _ rfl
  exact second

theorem adoptLeaf
    (second : Mirrors parse (further ())
      (⟨parent, .node data (trees ++ [.leaf kind token]), holder⟩ :: before) final) :
    Mirrors parse (adopt parent (Build.leaf kind token) >>= further)
      (⟨parent, .node data trees, holder⟩ :: before) final :=
  adoptNew sites_leaf second

/-- The child may be older than its parent. -/
theorem attachOlder
    (second : Mirrors parse (further ())
      (⟨parent, .node data (trees ++ [tree]), holder⟩ :: before) final) :
    Mirrors parse (Build.attach parent child >>= further)
      (⟨parent, .node data trees, holder⟩ :: ⟨child, tree, none⟩ :: before) final :=
  toFront [_] second.attach

theorem attachBoth {first second : Nat} {one two : Tree}
    (last : Mirrors parse (further ())
      (⟨parent, .node data (trees ++ [one] ++ [two]), holder⟩ :: before) final) :
    Mirrors parse (Build.attach parent first >>= fun _ =>
      Build.attach parent second >>= further)
      (⟨second, two, none⟩ :: ⟨first, one, none⟩ :: ⟨parent, .node data trees, holder⟩ ::
        before) final :=
  (attach (attachOlder last)).perm
    ((List.Perm.swap ..).trans ((List.Perm.swap ..).cons _))

/-- What comes next need not leave the labels alone. -/
theorem bindFollows {trunk : Trunk} {others : List Branch} {known : Arena → Prop}
    {further : β → Build δ} {final : γ → δ → Arena → Prop} {otherwise : Arena → Prop}
    (stable : IsStable known) (first : Mirrors parse build before post)
    (fails : ∀ arena, arena.IsForest → arena.Bears trunk others → known arena →
      otherwise arena)
    (second : ∀ value result branches, post value result branches →
      Follows (next value) (further result) (fun arena =>
      arena.Bears trunk (branches ++ others) ∧ known arena) final otherwise) :
    Follows (parse >>= next) (build >>= further)
      (fun arena => arena.Bears trunk (before ++ others) ∧ known arena) final
        otherwise := by
  have kept := ((first trunk others).keeping stable).mono (fun _ _ _ holds => holds)
    fun arena ⟨bears, forest, isKnown⟩ => fails arena forest bears isKnown
  refine kept.bind ?_
  rintro value result lines arena tokens forest ⟨⟨branches, isPost, bears⟩, isKnown⟩
  exact second value result branches isPost lines arena tokens forest ⟨bears, isKnown⟩

end Mirrors

/-! ## Nodes and their children -/

open GrammarInspector.Arena

variable {before : List Branch}

/-- Whether building a construct gives a branch with the tree that is read. -/
def Makes (parse : Parse Tree) (build : Build Nat) : Prop :=
  Mirrors parse build [] fun tree id branches => branches = [⟨id, tree, none⟩]

/-- Whether building a construct gives a node one more child. -/
def Grows (parse : Parse Tree) (build : Nat → Build Unit) : Prop :=
  ∀ parent data trees holder,
    Mirrors parse (build parent) [⟨parent, .node data trees, holder⟩]
      fun tree _ branches => branches = [⟨parent, .node data (trees ++ [tree]), holder⟩]

/-- Whether building a construct gives a node more children. -/
def Adds (parse : Parse (List Tree)) (build : Nat → Build α) : Prop :=
  ∀ parent data trees holder,
    Mirrors parse (build parent) [⟨parent, .node data trees, holder⟩]
      fun more _ branches => branches = [⟨parent, .node data (trees ++ more), holder⟩]

theorem Makes.bind {parse : Parse Tree} {build : Build Nat} {further : Nat → Build δ}
    (makes : Makes parse build) (second : ∀ tree id, Mirrors (next tree) (further id)
      (⟨id, tree, none⟩ :: before) final) :
    Mirrors (parse >>= next) (build >>= further) before final := by
  refine (makes.frame before).bind ?_
  rintro tree id _ ⟨_, rfl, rfl⟩
  exact second tree id

theorem Grows.bind {parse : Parse Tree} {build : Nat → Build Unit}
    {further : Unit → Build δ} (grows : Grows parse build)
    (second : ∀ tree, Mirrors (next tree) (further ())
      (⟨parent, .node data (trees ++ [tree]), holder⟩ :: before) final) :
    Mirrors (parse >>= next) (build parent >>= further)
      (⟨parent, .node data trees, holder⟩ :: before) final := by
  refine ((grows parent data trees holder).frame before).bind ?_
  rintro tree _ _ ⟨_, rfl, rfl⟩
  exact second tree

theorem Adds.bind {parse : Parse (List Tree)} {build : Nat → Build α}
    {next : List Tree → Parse γ} {further : α → Build δ} (adds : Adds parse build)
    (second : ∀ more result, Mirrors (next more) (further result)
      (⟨parent, .node data (trees ++ more), holder⟩ :: before) final) :
    Mirrors (parse >>= next) (build parent >>= further)
      (⟨parent, .node data trees, holder⟩ :: before) final := by
  refine ((adds parent data trees holder).frame before).bind ?_
  rintro more result _ ⟨_, rfl, rfl⟩
  exact second more result

theorem Makes.adopt {parse : Parse Tree} {build : Build Nat} (makes : Makes parse build) :
    Grows parse fun parent => adopt parent build := by
  intro parent data trees holder
  exact .ofReturn (makes.bind fun tree id => .attaches rfl)

/-! ## Repetition -/

/-- The rest of a repetition, if no more tokens are left than `bound`. -/
def furtherReads (goesOn : TokenKind → Bool) (item : Parse α) (bound : Nat) :
    Parse (List α) := fun left =>
  if left.length ≤ bound then Parse.many goesOn item left else .done [] left

def furtherBuilds (goesOn : TokenKind → Bool) (item : Build Unit) (bound : Nat) :
    Build Bool := fun lines arena left =>
  if left.length ≤ bound then many goesOn item lines arena left
  else ⟨[], .done false left⟩

theorem many_cons {goesOn : TokenKind → Bool} {item : Parse α} {token : Token}
    {rest : List Token} (applies : goesOn token.kind = true) :
    Parse.many goesOn item (token :: rest) =
      (do let value ← item
          let values ← furtherReads goesOn item rest.length
          return value :: values : Parse (List α)) (token :: rest) := by
  rw [Parse.many, if_pos applies, Parse.bind_apply]
  cases item (token :: rest) with
  | failed expected left => rfl
  | done value left =>
    dsimp only
    rw [Parse.bind_apply, furtherReads]
    split
    · cases Parse.many goesOn item left <;> rfl
    · rfl

section Repetition

variable {item : Build Unit} {make : α → Tree} {known : List Tree → Arena → Prop}
  {otherwise : Arena → Prop}

/-- What one item of a repetition adds a tree to, all items add their trees to. -/
theorem follows_many {goesOn : TokenKind → Bool}
    (each : ∀ trees, Follows parse item (known trees) (fun value _ =>
      known (trees ++ [make value])) otherwise)
    (trees : List Tree) :
    Follows (Parse.many goesOn parse) (many goesOn item) (known trees)
      (fun values found arena =>
        found = !values.isEmpty ∧ known (trees ++ values.map make) arena) otherwise := by
  intro lines arena tokens forest holds
  induction bound : tokens.length using Nat.strongRecOn
    generalizing lines arena trees tokens with
  | ind length induction =>
    have ending {tokens : List Token} : Built.Fits ⟨[], .done false tokens⟩ lines arena
        (.done [] tokens) (fun values found arena =>
          found = !values.isEmpty ∧ known (trees ++ values.map make) arena) otherwise :=
      ⟨.nil, .done ⟨rfl, by rwa [map_nil, append_nil]⟩⟩
    cases tokens with
    | nil =>
      unfold Parse.many many
      exact ending
    | cons token rest =>
      by_cases applies : goesOn token.kind = true
      · have later (trees : List Tree) : Follows (furtherReads goesOn parse rest.length)
            (furtherBuilds goesOn item rest.length) (known trees)
            (fun values _ => known (trees ++ values.map make)) otherwise := by
          intro lines arena left forest holds
          unfold furtherReads furtherBuilds
          by_cases shorter : left.length ≤ rest.length
          · rw [if_pos shorter, if_pos shorter]
            exact (induction left.length (by simp at bound; omega) trees lines arena left
              forest holds rfl).imp (fun _ _ _ _ holds => holds.2) id
          · rw [if_neg shorter, if_neg shorter]
            exact ⟨.nil, .done (by rwa [map_nil, append_nil])⟩
        have round : Follows
            (do let value ← parse
                let values ← furtherReads goesOn parse rest.length
                return value :: values)
            (do item
                let _ ← furtherBuilds goesOn item rest.length
                return true) (known trees)
            (fun values found arena =>
              found = !values.isEmpty ∧
                known (trees ++ values.map make) arena) otherwise := by
          refine (each trees).bind fun value _ => (later _).bind fun values _ => ?_
          exact .pure fun arena holds => ⟨rfl, by simpa using holds⟩
        unfold many
        rw [many_cons applies]
        simp only [if_pos applies]
        exact round lines arena (token :: rest) forest holds
      · unfold Parse.many many
        simp only [if_neg applies]
        exact ending

theorem follows_separated {separator : Mark}
    (fails : ∀ trees arena, arena.IsForest → known trees arena → otherwise arena)
    (each : ∀ trees, Follows parse item (known trees) (fun value _ =>
      known (trees ++ [make value])) otherwise)
    (trees : List Tree) :
    Follows (Parse.separated separator parse) (separated separator item) (known trees)
      (fun values _ => known (trees ++ values.map make)) otherwise := by
  have behind (trees : List Tree) : Follows (do let _ ← Parse.mark separator; parse)
      (do let _ ← read (Parse.mark separator); item) (known trees)
      (fun value _ => known (trees ++ [make value])) otherwise :=
    .read (fails trees) fun _ => each trees
  refine (each trees).bind fun first _ => (follows_many behind _).bind fun rest _ => ?_
  exact .pure fun arena holds => by simpa using holds.2

end Repetition

section Branches

variable {item : Build Unit} {make : α → Tree} {branch : List Tree → Branch}
  (each : ∀ trees, Mirrors parse item [branch trees] fun value _ branches =>
    branches = [branch (trees ++ [make value])])

include each in
theorem Mirrors.follows (trunk : Trunk) (others : List Branch) (trees : List Tree) :
    Follows parse item (·.Bears trunk (branch trees :: others))
      (fun value _ => (·.Bears trunk (branch (trees ++ [make value]) :: others)))
      (·.Bears trunk others) := by
  refine (each trees trunk others).mono ?_ fun _ bears => bears
  rintro _ _ _ ⟨_, rfl, bears⟩
  exact bears

include each in
theorem mirrors_many {goesOn : TokenKind → Bool} (trees : List Tree) :
    Mirrors (Parse.many goesOn parse) (many goesOn item) [branch trees]
      fun values found branches =>
        found = !values.isEmpty ∧ branches = [branch (trees ++ values.map make)] := by
  intro trunk others
  refine (follows_many (Mirrors.follows each trunk others) trees).mono ?_ fun _ bears =>
    bears
  exact fun _ _ _ ⟨found, bears⟩ => ⟨_, ⟨found, rfl⟩, bears⟩

include each in
theorem mirrors_separated {separator : Mark} (trees : List Tree) :
    Mirrors (Parse.separated separator parse) (separated separator item) [branch trees]
      fun values _ branches => branches = [branch (trees ++ values.map make)] := by
  intro trunk others
  have fails (trees : List Tree) (arena : Arena) (_ : arena.IsForest)
      (bears : arena.Bears trunk (branch trees :: others)) : arena.Bears trunk others :=
    bears.sublist (sublist_cons_self ..)
  refine (follows_separated fails (Mirrors.follows each trunk others) trees).mono ?_
    fun _ bears => bears
  exact fun _ _ _ bears => ⟨_, rfl, bears⟩

end Branches

section Children

variable {parse : Parse Tree} {build : Nat → Build Unit} {goesOn : TokenKind → Bool}

theorem Grows.many (grows : Grows parse build) (parent : Nat) (data : NodeData)
    (trees : List Tree) (holder : Option Nat) :
    Mirrors (Parse.many goesOn parse) (Build.many goesOn (build parent))
      [⟨parent, .node data trees, holder⟩] fun more found branches =>
        found = !more.isEmpty ∧
          branches = [⟨parent, .node data (trees ++ more), holder⟩] := by
  refine (mirrors_many (fun trees => grows parent data trees holder) trees).mono ?_
  intro more _ _ holds
  rwa [map_id'] at holds

theorem Grows.adds_many (grows : Grows parse build) :
    Adds (Parse.many goesOn parse) fun parent => Build.many goesOn (build parent) :=
  fun parent data trees holder =>
    (grows.many parent data trees holder).mono fun _ _ _ holds => holds.2

theorem Grows.separated {separator : Mark} (grows : Grows parse build) :
    Adds (Parse.separated separator parse) fun parent =>
      Build.separated separator (build parent) := by
  intro parent data trees holder
  refine (mirrors_separated (fun trees => grows parent data trees holder) trees).mono ?_
  intro more _ _ holds
  rwa [map_id'] at holds

end Children

end Build

end GrammarInspector
