import GrammarInspector.Grammar.Prequel

/-!
Alternatives and their elements.

Rules of the parser and of the lexer share these constructs and differ in a few: only
lexer rules have character sets and commands, and only parser rules pass arguments and
give options to alternatives.

An element can hold a block, and a block holds alternatives with elements again. The
functions for what lies between take the way to read a block as a parameter, and
`Parse.block` at the end supplies itself.
-/

namespace GrammarInspector

/-- Whether a rule belongs to the parser or to the lexer. -/
inductive RuleFlavour where
  | parser
  | lexer
deriving DecidableEq, Repr

namespace Parse

/-! ## Options of elements -/

def elementOptionValue : Parse Tree := do
  match ← peek with
  | some .tokenRef | some .ruleRef => return .leaf .identifier (← identifier)
  | some .literal => return .leaf .literal (← expect .literal)
  | some .int => return .leaf .int (← expect .int)
  | _ => fail .optionValue

/-- `name` or `name = value` -/
def elementOption : Parse Tree := do
  let name ← identifier
  match ← eat (.punctuation .equals) with
  | some assign =>
    let value ← elementOptionValue
    return .builtAt .assign assign.span [.leaf .identifier name, value]
  | none => return .leaf .identifier name

/-- `< option, … >` -/
def elementOptions : Parse Tree := do
  let opening ← mark .less
  let entries ← separated .comma elementOption
  let _ ← mark .greater
  return .builtAt .elementOptions opening.span entries

/-- Options of an element, if there are some. -/
def elementOptions? : Parse (List Tree) := do
  match ← peek with
  | some (.punctuation .less) => return [← elementOptions]
  | _ => return []

/-! ## Atoms -/

/-- `'a'..'z'` -/
def characterRange : Parse Tree := do
  let first ← expect .literal
  let dots ← mark .dots
  let last ← expect .literal
  return .builtAt .range dots.span [.leaf .literal first, .leaf .literal last]

/-- An element of a set: a token, a range of characters, a literal or, in the lexer, a
character set. -/
def setElement (flavour : RuleFlavour) : Parse Tree := do
  match ← peek, ← peekSecond with
  | some .tokenRef, _ => return .leaf .tokenRef (← expect .tokenRef)
  | some .literal, some (.punctuation .dots) => characterRange
  | some .literal, _ => return .leaf .literal (← expect .literal)
  | some .bracket, _ =>
    if flavour = .lexer then return .leaf .charSet (← expect .bracket)
    else fail .setElement
  | _, _ => fail .setElement

/-- `~x` or `~(x | y | …)` -/
def complement (flavour : RuleFlavour) : Parse Tree := do
  let tilde ← mark .tilde
  let elements ← do
    match ← eat (.punctuation .leftParen) with
    | some _ =>
      let elements ← separated .bar (setElement flavour)
      let _ ← mark .rightParen
      pure elements
    | none => pure [← setElement flavour]
  return .builtAt .complement tilde.span [.group .set elements]

/-- The arguments of a reference to a parser rule, if there are some. -/
def arguments? (flavour : RuleFlavour) : Parse (List Tree) := do
  if flavour = .parser then
    match ← eat .bracket with
    | some token => return [.leaf .arguments token]
    | none => return []
  else return []

/-- A reference, a literal, a range, a set or the wildcard. -/
def atom (flavour : RuleFlavour) : Parse Tree := do
  match ← peek, ← peekSecond with
  | some .tokenRef, _ =>
    let reference ← expect .tokenRef
    return (Tree.leaf .tokenRef reference).append (← elementOptions?)
  | some .ruleRef, _ =>
    let reference ← expect .ruleRef
    let arguments ← arguments? flavour
    return (Tree.leaf .ruleRef reference).append (arguments ++ (← elementOptions?))
  | some .literal, some (.punctuation .dots) => characterRange
  | some .literal, _ =>
    let literal ← expect .literal
    return (Tree.leaf .literal literal).append (← elementOptions?)
  | some .bracket, _ =>
    if flavour = .lexer then return .leaf .charSet (← expect .bracket) else fail .element
  | some (.punctuation .dot), _ =>
    let dot ← mark .dot
    return .builtAt .wildcard dot.span (← elementOptions?)
  | some (.punctuation .tilde), _ => complement flavour
  | _, _ => fail .element

/-! ## Elements -/

def suffixKind? : TokenKind → Option NodeKind
  | .punctuation .question => some .optional
  | .punctuation .star => some .closure
  | .punctuation .plus => some .positiveClosure
  | _ => none

/-- Where an element begins: at its label if it has one. -/
def elementStart (element : Tree) : Option Span :=
  match element.kind with
  | .assign | .plusAssign => element.firstChild?.bind (·.anchor)
  | _ => element.anchor

/-- The block that a suffix applies to. A subrule is such a block already; any other
element becomes the only element of a block of its own. -/
def suffixBlock (element : Tree) : Tree :=
  if element.kind = .block then element
  else .builtAt .block (elementStart element) [.group .alternative [element]]

/-- An element with the suffix that follows it, if one does. A question mark behind the
suffix makes it prefer fewer repetitions, which leaves no trace in the tree. -/
def suffixed (element : Tree) : Parse Tree := fun tokens =>
  match tokens with
  | [] => .done element []
  | suffix :: rest =>
    match suffixKind? suffix.kind with
    | none => .done element (suffix :: rest)
    | some kind =>
      (do let _ ← eat (.punctuation .question)
          return .builtAt kind suffix.span [suffixBlock element] : Parse Tree) rest

/-- What a label stands in front of. -/
def labelTarget (block : Parse Tree) (flavour : RuleFlavour) : Parse Tree := do
  match ← peek with
  | some (.punctuation .leftParen) => block
  | _ => atom flavour

/-- `label = x` or `label += x` -/
def labelled (block : Parse Tree) (flavour : RuleFlavour) : Parse Tree := do
  let label ← identifier
  let operator ← take (fun kind => kind = .punctuation .equals ||
      kind = .punctuation .plusEquals) (.token (.punctuation .equals))
  let kind := if operator.kind = .punctuation .plusEquals then .plusAssign else .assign
  let target ← labelTarget block flavour
  return .builtAt kind operator.span [.leaf .identifier label, target]

/-- Whether two tokens begin an element with a label. -/
def startsLabelled (first second : Option TokenKind) : Bool :=
  first.any (·.isIdentifier) &&
    (second = some (.punctuation .equals) || second = some (.punctuation .plusEquals))

def element (block : Parse Tree) (flavour : RuleFlavour) : Parse Tree := do
  let first ← peek
  let second ← peekSecond
  if startsLabelled first second then suffixed (← labelled block flavour)
  else
    match first with
    | some (.punctuation .leftParen) => suffixed (← block)
    | some .predicate => return .leaf .predicate (← expect .predicate)
    | some .action => return .leaf .action (← expect .action)
    | _ => suffixed (← atom flavour)

def startsElement (flavour : RuleFlavour) : TokenKind → Bool
  | .tokenRef | .ruleRef | .literal | .action | .predicate | .punctuation
      .dot | .punctuation .tilde
  | .punctuation .leftParen => true
  | .bracket => flavour = .lexer
  | _ => false

/-! ## Commands -/

/-- The kinds of tokens that can name a lexer command. -/
def namesCommand : TokenKind → Bool
  | .tokenRef | .ruleRef | .keyword .mode => true
  | _ => false

def commandArgument : Parse Tree := do
  match ← peek with
  | some .tokenRef | some .ruleRef => return .leaf .identifier (← identifier)
  | some .int => return .leaf .int (← expect .int)
  | _ => fail .commandArgument

/-- `name` or `name(argument)` -/
def command : Parse Tree := do
  let name ← take namesCommand .command
  match ← eat (.punctuation .leftParen) with
  | none => return .leaf .identifier name
  | some _ =>
    let argument ← commandArgument
    let _ ← mark .rightParen
    return .group .commandCall [.leaf .identifier name, argument]

/-! ## Alternatives and blocks -/

/-- The options of an alternative, which only parser rules have. -/
def alternativeOptions? (flavour : RuleFlavour) : Parse (List Tree) :=
  if flavour = .parser then elementOptions? else pure []

/-- An alternative: elements and, in lexer rules, perhaps commands. -/
def alternative (block : Parse Tree) (flavour : RuleFlavour) : Parse Tree := do
  let options ← alternativeOptions? flavour
  let elements ← many (startsElement flavour) (element block flavour)
  let body := if elements.isEmpty then [Tree.group .epsilon []] else elements
  let alternative := Tree.group .alternative (options ++ body)
  match ← peek with
  | some (.punctuation .arrow) =>
    if flavour = .lexer then
      let _ ← mark .arrow
      let commands ← separated .comma command
      return .group .lexerAlternative (alternative :: commands)
    else return alternative
  | _ => return alternative

/-- The prequels of a block, which a colon ends if there are some. -/
def blockPrequels : Parse (List Tree) := do
  let sections ← prequels
  if sections.isEmpty then return []
  else
    let _ ← mark .colon
    return sections

/-- A block in parentheses, given how to read the blocks inside it. -/
def blockOf (inner : Parse Tree) (flavour : RuleFlavour) : Parse Tree := do
  let opening ← mark .leftParen
  let sections ← blockPrequels
  let alternatives ← separated .bar (alternative inner flavour)
  let _ ← mark .rightParen
  return .builtAt .block opening.span (sections ++ alternatives)

/-- A block in parentheses. The blocks inside it are read from fewer tokens. -/
def block (flavour : RuleFlavour) : Parse Tree := fun tokens =>
  blockOf (fun inner =>
    if inner.length < tokens.length then block flavour inner else .failed .element inner)
    flavour tokens
termination_by tokens => tokens.length

end Parse

end GrammarInspector
