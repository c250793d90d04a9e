import GrammarInspector.Grammar.Reading
import GrammarInspector.Proofs.Arena.Traversal

/-! # Building a grammar in an arena

Every construct can be built in an arena while it is read. A node gets its place when the
construct begins, or when it turns out to be needed, and is attached when it is complete.
Where reading fails, what was built up to there stays behind unattached.

`Build.grammar` builds a whole grammar. It takes the same tokens as `Reading.ofTokens` and
goes on after a fault in the same way; what it adds is the order in which nodes are made
and attached.
-/

namespace GrammarInspector

/-- What building a construct comes to: the steps made in the arena, and how
reading ends. -/
structure Built (α : Type) where
  steps : List Arena.Step
  outcome : Outcome α

/-- A way to read a construct and to build it in an arena. The lines of the source tell
where nodes begin. -/
def Build (α : Type) := LineIndex → Arena → List Token → Built α

namespace Build

open GrammarInspector.Parse
  (peek peekSecond take expect mark identifier eat isModifier namesAction
  namesCommand startsPrequel startsElement startsLabelled startsRule suffixKind?)

instance : Monad Build where
  pure value := fun _ _ tokens => ⟨[], .done value tokens⟩
  bind first next := fun lines arena tokens =>
    let built := first lines arena tokens
    match built.outcome with
    | .done value rest =>
      let further := next value lines (arena.after built.steps) rest
      ⟨built.steps ++ further.steps, further.outcome⟩
    | .failed expected rest => ⟨built.steps, .failed expected rest⟩

variable {α β : Type} (lines : LineIndex) (arena : Arena) (tokens : List Token)

theorem pure_apply (value : α) :
    (pure value : Build α) lines arena tokens = ⟨[], .done value tokens⟩ := rfl

theorem bind_apply (first : Build α) (next : α → Build β) :
    (first >>= next) lines arena tokens =
      match (first lines arena tokens).outcome with
      | .done value rest =>
        let further :=
          next value lines (arena.after (first lines arena tokens).steps) rest
        ⟨(first lines arena tokens).steps ++ further.steps, further.outcome⟩
      | .failed expected rest =>
        ⟨(first lines arena tokens).steps, .failed expected rest⟩ := rfl

/-! ## Single steps -/

/-- Reads something that has no nodes. -/
def read (parse : Parse α) : Build α := fun _ _ tokens => ⟨[], parse tokens⟩

/-- Looks something up in the arena. -/
def look (question : Arena → α) : Build α := fun _ arena tokens =>
  ⟨[], .done (question arena) tokens⟩

def alloc (content : Arena.Content) (position : LineIndex → Option Position) :
    Build Nat :=
  fun lines arena tokens => ⟨[.alloc content (position lines)], .done arena.size tokens⟩

def attach (parent child : Nat) : Build Unit := fun _ _ tokens =>
  ⟨[.attach parent child], .done () tokens⟩

/-- A node with the text of a token. -/
def leaf (kind : NodeKind) (token : Token) : Build Nat :=
  alloc ⟨kind, token.text, some token.span⟩ fun lines =>
    some (lines.position token.span.start)

/-- A node whose text is fixed by its kind. It need not have a place of its own. -/
def nodeAt (kind : NodeKind) (span : Option Span) : Build Nat :=
  alloc ⟨kind, kind.fixedText?.getD "", span⟩ fun lines =>
    span.map fun span => lines.position span.start

/-- A node with a text that was put together. -/
def nodeWithText (kind : NodeKind) (text : String) (span : Span) : Build Nat :=
  alloc ⟨kind, text, some span⟩ fun lines => some (lines.position span.start)

/-- Builds a node and attaches it. -/
def adopt (parent : Nat) (item : Build Nat) : Build Unit := do
  let child ← item
  attach parent child

/-! ## Repetition -/

/-- Builds items as long as the next token is one that an item goes on with, and tells
whether there was one. An item that takes nothing is the last one. -/
def many (goesOn : TokenKind → Bool) (item : Build Unit) : Build Bool :=
  fun lines arena tokens =>
    match tokens with
    | [] => ⟨[], .done false []⟩
    | token :: rest =>
      if goesOn token.kind then
        (do item
            let _ ← fun lines arena left =>
              if left.length ≤ rest.length then many goesOn item lines arena left
              else ⟨[], .done false left⟩
            return true : Build Bool) lines arena (token :: rest)
      else ⟨[], .done false (token :: rest)⟩
termination_by _ _ tokens => tokens.length

/-- Builds one item or more with a mark between neighbours. -/
def separated (separator : Mark) (item : Build Unit) : Build Unit := do
  item
  let _ ← many (· = .punctuation separator) (do let _ ← read (mark separator); item)

/-! ## Sections -/

def dottedName : Build Nat := do
  match ← read (Parse.separated .dot identifier) with
  | [] => read (Parse.fail .identifier)
  | first :: rest =>
    let text := rest.foldl (fun text name => text ++ "." ++ name.text) first.text
    nodeWithText .identifier text
      (rest.foldl (fun span name => span.merge name.span) first.span)

def optionValueAt : Option TokenKind → Build Nat
  | some .literal => do leaf .literal (← read (expect .literal))
  | some .action => do leaf .action (← read (expect .action))
  | some .int => do leaf .int (← read (expect .int))
  | some .tokenRef | some .ruleRef => dottedName
  | _ => read (Parse.fail .optionValue)

def option : Build Nat := do
  let name ← read identifier
  let assign ← read (mark .equals)
  let value ← optionValueAt (← read peek)
  let _ ← read (mark .semicolon)
  let node ← nodeAt .assign assign.span
  adopt node (leaf .identifier name)
  attach node value
  return node

def options : Build Nat := do
  let opening ← read (expect (.opener .options))
  let node ← nodeAt .options opening.span
  let _ ← many (· != .punctuation .rightBrace) (adopt node option)
  let _ ← read (mark .rightBrace)
  return node

/-- The names among some tokens that have a comma behind each but perhaps the last one. -/
def nameTokens : List Token → List Token × List Token
  | [] => ([], [])
  | name :: rest =>
    if name.kind.isIdentifier then
      match rest with
      | [] => ([name], [])
      | comma :: rest =>
        if comma.kind = .punctuation .comma then
          let (names, left) := nameTokens rest
          (name :: names, left)
        else ([name], comma :: rest)
    else ([], name :: rest)

/-- Makes leaves of a node. -/
def leaves (parent : Nat) : List Token → Build Unit
  | [] => return ()
  | name :: rest => do
    adopt parent (leaf .identifier name)
    leaves parent rest

def nameSection (opener : Opener) (kind : NodeKind) : Build Nat := do
  let opening ← read (expect (.opener opener))
  let node ← nodeAt kind opening.span
  leaves node (← read fun tokens => .done (nameTokens tokens).1 (nameTokens tokens).2)
  let _ ← read (mark .rightBrace)
  return node

def delegate : Build Nat := do
  let name ← read identifier
  match ← read (eat (.punctuation .equals)) with
  | some assign =>
    let target ← read identifier
    let node ← nodeAt .assign assign.span
    let given ← leaf .identifier name
    let grammar ← leaf .identifier target
    attach node given
    attach node grammar
    return node
  | none => leaf .identifier name

def imports : Build Nat := do
  let keyword ← read (expect (.keyword .importWord))
  let node ← nodeAt .imports keyword.span
  separated .comma (adopt node delegate)
  let _ ← read (mark .semicolon)
  return node

def namedAction : Build Nat := do
  let start ← read (mark .at)
  let node ← nodeAt .namedAction start.span
  let first ← read (take namesAction .identifier)
  adopt node (leaf .identifier first)
  match ← read (eat (.punctuation .doubleColon)) with
  | some _ =>
    let name ← read identifier
    adopt node (leaf .identifier name)
  | none => pure ()
  let body ← read (expect .action)
  adopt node (leaf .action body)
  return node

/-- Options or a named action, as the next token tells. -/
def prequelAt : Option TokenKind → Build Nat
  | some (.opener .options) => options
  | _ => namedAction

/-- Builds the options and named actions in front of a body, and tells whether
there are some. -/
def prequels (parent : Nat) : Build Bool :=
  many startsPrequel (adopt parent do prequelAt (← read peek))

/-! ## Elements -/

def elementOptionValueAt : Option TokenKind → Build Nat
  | some .tokenRef | some .ruleRef => do leaf .identifier (← read identifier)
  | some .literal => do leaf .literal (← read (expect .literal))
  | some .int => do leaf .int (← read (expect .int))
  | _ => read (Parse.fail .optionValue)

def elementOption : Build Nat := do
  let name ← read identifier
  match ← read (eat (.punctuation .equals)) with
  | some assign =>
    let value ← elementOptionValueAt (← read peek)
    let node ← nodeAt .assign assign.span
    adopt node (leaf .identifier name)
    attach node value
    return node
  | none => leaf .identifier name

def elementOptions : Build Nat := do
  let opening ← read (mark .less)
  let node ← nodeAt .elementOptions opening.span
  separated .comma (adopt node elementOption)
  let _ ← read (mark .greater)
  return node

def elementOptionsAt (parent : Nat) : Option TokenKind → Build Unit
  | some (.punctuation .less) => adopt parent elementOptions
  | _ => return ()

def elementOptions? (parent : Nat) : Build Unit := do
  elementOptionsAt parent (← read peek)

def characterRange : Build Nat := do
  let first ← read (expect .literal)
  let dots ← read (mark .dots)
  let last ← read (expect .literal)
  let node ← nodeAt .range dots.span
  let start ← leaf .literal first
  let stop ← leaf .literal last
  attach node start
  attach node stop
  return node

def setElementAt (flavour : RuleFlavour) : Option TokenKind → Option TokenKind → Build Nat
  | some .tokenRef, _ => do leaf .tokenRef (← read (expect .tokenRef))
  | some .literal, some (.punctuation .dots) => characterRange
  | some .literal, _ => do leaf .literal (← read (expect .literal))
  | some .bracket, _ => do
    if flavour = .lexer then leaf .charSet (← read (expect .bracket))
    else read (Parse.fail .setElement)
  | _, _ => read (Parse.fail .setElement)

def setElement (flavour : RuleFlavour) : Build Nat := do
  setElementAt flavour (← read peek) (← read peekSecond)

def complement (flavour : RuleFlavour) : Build Nat := do
  let tilde ← read (mark .tilde)
  let node ← nodeAt .complement tilde.span
  let set ← nodeAt .set none
  match ← read (eat (.punctuation .leftParen)) with
  | some _ =>
    separated .bar (adopt set (setElement flavour))
    let _ ← read (mark .rightParen)
  | none => adopt set (setElement flavour)
  attach node set
  return node

def arguments? (flavour : RuleFlavour) (parent : Nat) : Build Unit := do
  if flavour = .parser then
    match ← read (eat .bracket) with
    | some token => adopt parent (leaf .arguments token)
    | none => return ()
  else return ()

def atomAt (flavour : RuleFlavour) : Option TokenKind → Option TokenKind → Build Nat
  | some .tokenRef, _ => do
    let node ← leaf .tokenRef (← read (expect .tokenRef))
    elementOptions? node
    return node
  | some .ruleRef, _ => do
    let node ← leaf .ruleRef (← read (expect .ruleRef))
    arguments? flavour node
    elementOptions? node
    return node
  | some .literal, some (.punctuation .dots) => characterRange
  | some .literal, _ => do
    let node ← leaf .literal (← read (expect .literal))
    elementOptions? node
    return node
  | some .bracket, _ => do
    if flavour = .lexer then leaf .charSet (← read (expect .bracket))
    else read (Parse.fail .element)
  | some (.punctuation .dot), _ => do
    let dot ← read (mark .dot)
    let node ← nodeAt .wildcard dot.span
    elementOptions? node
    return node
  | some (.punctuation .tilde), _ => complement flavour
  | _, _ => read (Parse.fail .element)

def atom (flavour : RuleFlavour) : Build Nat := do
  atomAt flavour (← read peek) (← read peekSecond)

/-- Where an element of an arena begins. -/
def elementStart (element : Nat) (arena : Arena) : Option Span :=
  if (arena.data? element).any fun data => data.kind = .assign ||
      data.kind = .plusAssign then
    (arena.children element).head?.bind fun label => (arena.anchor label).join
  else (arena.anchor element).join

def isBlock (element : Nat) (arena : Arena) : Bool :=
  (arena.data? element).any (·.kind = .block)

/-- The block that a suffix applies to. -/
def suffixBlock (element : Nat) : Build Nat := do
  if ← look (isBlock element) then return element
  else
    let start ← look (elementStart element)
    let block ← nodeAt .block start
    let alternative ← nodeAt .alternative none
    attach alternative element
    attach block alternative
    return block

def suffixed (element : Nat) : Build Nat := fun lines arena tokens =>
  match tokens with
  | [] => ⟨[], .done element []⟩
  | suffix :: rest =>
    match suffixKind? suffix.kind with
    | none => ⟨[], .done element (suffix :: rest)⟩
    | some kind =>
      (do let _ ← read (eat (.punctuation .question))
          let node ← nodeAt kind suffix.span
          let block ← suffixBlock element
          attach node block
          return node : Build Nat) lines arena rest

def labelTargetAt (block : Build Nat) (flavour : RuleFlavour) :
    Option TokenKind → Build Nat
  | some (.punctuation .leftParen) => block
  | _ => atom flavour

def labelTarget (block : Build Nat) (flavour : RuleFlavour) : Build Nat := do
  labelTargetAt block flavour (← read peek)

def labelled (block : Build Nat) (flavour : RuleFlavour) : Build Nat := do
  let label ← read identifier
  let operator ← read (take (fun kind => kind = .punctuation .equals ||
      kind = .punctuation .plusEquals) (.token (.punctuation .equals)))
  let kind := if operator.kind = .punctuation .plusEquals then .plusAssign else .assign
  let node ← nodeAt kind operator.span
  let name ← leaf .identifier label
  let target ← labelTarget block flavour
  attach node name
  attach node target
  return node

def plainElementAt (block : Build Nat) (flavour : RuleFlavour) :
    Option TokenKind → Build Nat
  | some (.punctuation .leftParen) => do suffixed (← block)
  | some .predicate => do leaf .predicate (← read (expect .predicate))
  | some .action => do leaf .action (← read (expect .action))
  | _ => do suffixed (← atom flavour)

def element (block : Build Nat) (flavour : RuleFlavour) : Build Nat := do
  let first ← read peek
  let second ← read peekSecond
  if startsLabelled first second then suffixed (← labelled block flavour)
  else plainElementAt block flavour first

def commandArgumentAt : Option TokenKind → Build Nat
  | some .tokenRef | some .ruleRef => do leaf .identifier (← read identifier)
  | some .int => do leaf .int (← read (expect .int))
  | _ => read (Parse.fail .commandArgument)

def command : Build Nat := do
  let name ← leaf .identifier (← read (take namesCommand .command))
  match ← read (eat (.punctuation .leftParen)) with
  | none => return name
  | some _ =>
    let argument ← commandArgumentAt (← read peek)
    let _ ← read (mark .rightParen)
    let node ← nodeAt .commandCall none
    attach node name
    attach node argument
    return node

/-! ## Alternatives and blocks -/

def alternativeOptions? (flavour : RuleFlavour) (parent : Nat) : Build Unit :=
  if flavour = .parser then elementOptions? parent else return ()

def commandsAt (flavour : RuleFlavour) (alternative : Nat) : Option TokenKind → Build Nat
  | some (.punctuation .arrow) => do
    if flavour = .lexer then
      let node ← nodeAt .lexerAlternative none
      attach node alternative
      let _ ← read (mark .arrow)
      separated .comma (adopt node command)
      return node
    else return alternative
  | _ => return alternative

/-- An alternative with the commands behind it, if there are some. -/
def commands? (flavour : RuleFlavour) (alternative : Nat) : Build Nat := do
  commandsAt flavour alternative (← read peek)

def alternative (block : Build Nat) (flavour : RuleFlavour) : Build Nat := do
  let node ← nodeAt .alternative none
  alternativeOptions? flavour node
  let hasElements ← many (startsElement flavour) (adopt node (element block flavour))
  if hasElements then pure () else adopt node (nodeAt .epsilon none)
  commands? flavour node

def blockPrequels (parent : Nat) : Build Unit := do
  if ← prequels parent then
    let _ ← read (mark .colon)
  else return ()

def blockOf (inner : Build Nat) (flavour : RuleFlavour) : Build Nat := do
  let opening ← read (mark .leftParen)
  let node ← nodeAt .block opening.span
  blockPrequels node
  separated .bar (adopt node (alternative inner flavour))
  let _ ← read (mark .rightParen)
  return node

def block (flavour : RuleFlavour) : Build Nat := fun lines arena tokens =>
  blockOf (fun lines arena inner =>
    if inner.length < tokens.length then block flavour lines arena inner
    else ⟨[], .failed .element inner⟩) flavour lines arena tokens
termination_by _ _ tokens => tokens.length

/-! ## Rules -/

def bracketed? (keyword : Keyword) (kind : NodeKind) (parent : Nat) : Build Unit := do
  match ← read (eat (.keyword keyword)) with
  | none => return ()
  | some word =>
    let node ← nodeAt kind word.span
    let arguments ← read (expect .bracket)
    adopt node (leaf .arguments arguments)
    attach parent node

def throws? (parent : Nat) : Build Unit := do
  match ← read (eat (.keyword .throws)) with
  | none => return ()
  | some word =>
    let node ← nodeAt .throws word.span
    separated .comma do
      let name ← read identifier
      adopt node (leaf .identifier name)
    attach parent node

def signature (flavour : RuleFlavour) (parent : Nat) : Build Unit := do
  if flavour = .parser then
    arguments? flavour parent
    bracketed? .returns .returns parent
    throws? parent
    bracketed? .locals .locals parent
  else return ()

def push (tag : Arena.Tag) : Build Unit := fun _ _ tokens =>
  ⟨[.push tag], .done () tokens⟩

/-- Builds an alternative of a rule and attaches it, then reads its label. -/
def ruleAlternative (flavour : RuleFlavour) (rule body : Nat) : Build Unit := do
  let node ← alternative (block flavour) flavour
  attach body node
  if flavour = .parser then
    match ← read (eat (.punctuation .hash)) with
    | none => return ()
    | some _ =>
      let name ← read identifier
      push ⟨⟨name.text, name.span⟩, rule, node⟩
  else return ()

def ruleBody (flavour : RuleFlavour) (rule : Nat) : Build Nat := do
  let colon ← read (mark .colon)
  let node ← nodeAt .block colon.span
  separated .bar (ruleAlternative flavour rule node)
  return node

def handler : Build Nat := do
  let keyword ← read (expect (.keyword .catchWord))
  let node ← nodeAt .handler keyword.span
  let arguments ← leaf .arguments (← read (expect .bracket))
  let body ← leaf .action (← read (expect .action))
  attach node arguments
  attach node body
  return node

def cleanup : Build Nat := do
  let keyword ← read (expect (.keyword .finallyWord))
  let node ← nodeAt .cleanup keyword.span
  let body ← read (expect .action)
  adopt node (leaf .action body)
  return node

/-- Builds the handlers of a rule. The first fault ends them. -/
def handlers (rule : Nat) : Build Unit := fun lines arena tokens =>
  match headKind? tokens with
  | some (.keyword .catchWord) =>
    let built := adopt rule handler lines arena tokens
    match built.outcome with
    | .failed _ rest => ⟨built.steps, .done () rest⟩
    | .done _ rest =>
      if rest.length < tokens.length then
        let further := handlers rule lines (arena.after built.steps) rest
        ⟨built.steps ++ further.steps, further.outcome⟩
      else ⟨built.steps, .done () rest⟩
  | some (.keyword .finallyWord) =>
    let built := adopt rule cleanup lines arena tokens
    match built.outcome with
    | .failed _ rest => ⟨built.steps, .done () rest⟩
    | .done _ rest => ⟨built.steps, .done () rest⟩
  | _ => ⟨[], .done () tokens⟩
termination_by _ _ tokens => tokens.length

/-- Makes nodes for the modifiers of a rule. -/
def modifierLeaves : List Token → Build (List Nat)
  | [] => return []
  | token :: rest => do
    let first ← leaf .ruleModifier token
    return first :: (← modifierLeaves rest)

def attachAll (parent : Nat) : List Nat → Build Unit
  | [] => return ()
  | child :: rest => do
    attach parent child
    attachAll parent rest

/-- The modifiers and the name of a rule. -/
def ruleHead : Build (Nat × RuleFlavour) := do
  let modifiers ← modifierLeaves
      (← read (Parse.many isModifier (take isModifier .ruleName)))
  let name ← read (take (·.isIdentifier) .ruleName)
  let flavour := if name.kind = .tokenRef then RuleFlavour.lexer else .parser
  let node ← nodeAt .rule none
  adopt node (leaf (if name.kind = .tokenRef then .tokenRef else .ruleRef) name)
  if modifiers.isEmpty then pure ()
  else
    let group ← nodeAt .ruleModifiers none
    attachAll group modifiers
    attach node group
  return (node, flavour)

def ruleDeclaration : Build (Nat × RuleFlavour) := do
  let (node, flavour) ← ruleHead
  signature flavour node
  let _ ← prequels node
  adopt node (ruleBody flavour node)
  let _ ← read (mark .semicolon)
  return (node, flavour)

def rule : Build Nat := do
  let (node, flavour) ← ruleDeclaration
  if flavour = .parser then handlers node else pure ()
  return node

/-! ## Whole grammars -/

/-- Builds something. If that fails, `recover` says where to go on. -/
def attempt (item : Build Unit) (recover : List Token → List Token) : Build Unit :=
  fun lines arena tokens =>
    let built := item lines arena tokens
    match built.outcome with
    | .done _ rest => ⟨built.steps, .done () rest⟩
    | .failed _ rest => ⟨built.steps, .done () (recover rest)⟩

/-- Repeats a step as long as it applies. -/
def repeated (step : List Token → Option (Build Unit)) : Build Unit :=
  fun lines arena tokens =>
    match step tokens with
    | none => ⟨[], .done () tokens⟩
    | some item =>
      let built := item lines arena tokens
      match built.outcome with
      | .failed expected rest => ⟨built.steps, .failed expected rest⟩
      | .done _ rest =>
        if rest.length < tokens.length then
          let further := repeated step lines (arena.after built.steps) rest
          ⟨built.steps ++ further.steps, further.outcome⟩
        else ⟨built.steps, .done () rest⟩
termination_by _ _ tokens => tokens.length

/-- The root shows the keyword of a grammar. -/
def rootAt (flavour : GrammarFlavour) (span : Span) : Build Unit := fun lines _ tokens =>
  ⟨[.header flavour.rootText span (lines.position span.start)], .done () tokens⟩

def header : Build Unit := do
  let flavour ← read fun tokens =>
    .done (Reading.flavourOf tokens).1 (Reading.flavourOf tokens).2
  let keyword ← read (expect (.keyword .grammar))
  rootAt flavour keyword.span
  let name ← read identifier
  adopt Arena.root (leaf .identifier name)
  let _ ← read (mark .semicolon)

def prequelStep (tokens : List Token) : Option (Build Unit) :=
  let part (item : Build Nat) (recover : List Token → List Token) :=
    some (attempt (adopt Arena.root item) recover)
  let behindBrace := Reading.skipPast (.punctuation .rightBrace)
  match headKind? tokens with
  | some (.opener .options) => part options behindBrace
  | some (.opener .tokens) => part (nameSection .tokens .tokens) behindBrace
  | some (.opener .channels) => part (nameSection .channels .channels) behindBrace
  | some (.keyword .importWord) =>
      part imports (Reading.skipPast (.punctuation .semicolon))
  | some (.punctuation .at) => part namedAction id
  | _ => none

def keep : Build Unit := fun _ _ tokens => ⟨[.keep], .done () tokens⟩

/-- Builds a rule and keeps its labels. If that fails, they are dropped. -/
def declare (parent : Nat) : Build Unit := fun lines arena tokens =>
  let built := (do adopt parent rule; keep : Build Unit) lines arena tokens
  match built.outcome with
  | .done _ rest => ⟨built.steps, .done () rest⟩
  | .failed _ rest =>
    ⟨built.steps ++ [.drop], .done () (Reading.skipPast (.punctuation .semicolon) rest)⟩

def ruleStep (parent : Nat) (tokens : List Token) : Option (Build Unit) :=
  match tokens with
  | [] => none
  | token :: _ =>
    if token.kind = .keyword .mode then none
    else if startsRule token.kind then some (declare parent)
    else some (attempt (read (Parse.fail .ruleDeclaration))
      (Reading.skipPast (.punctuation .semicolon)))

def rules (parent : Nat) : Build Unit := repeated (ruleStep parent)

def modeLine : Build Nat := do
  let keyword ← read (expect (.keyword .mode))
  let node ← nodeAt .mode keyword.span
  let name ← read identifier
  adopt node (leaf .identifier name)
  let _ ← read (mark .semicolon)
  return node

/-- Builds a mode with its rules. If its line is faulty, the rules behind it are
attached elsewhere. -/
def mode (strays : Nat) : Build Unit := fun lines arena tokens =>
  let built := modeLine lines arena tokens
  let reached := arena.after built.steps
  match built.outcome with
  | .done node rest =>
    let further := (do rules node; attach Arena.root node : Build Unit) lines reached rest
    ⟨built.steps ++ further.steps, further.outcome⟩
  | .failed _ rest =>
    let behind := Reading.skipPast (.punctuation .semicolon) rest
    let further := rules strays lines reached behind
    ⟨built.steps ++ further.steps, further.outcome⟩

def modeStep (strays : Nat) (tokens : List Token) : Option (Build Unit) :=
  if tokens.isEmpty then none else some (mode strays)

/-- Builds the header, the sections, the rules and the lexer modes of a grammar. -/
def grammar : Build Unit := do
  attempt header (Reading.skipPast (.punctuation .semicolon))
  repeated prequelStep
  let node ← nodeAt .rules none
  attach Arena.root node
  rules node
  repeated (modeStep node)

end Build

end GrammarInspector
