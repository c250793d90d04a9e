import GrammarInspector.Grammar.Element

/-!
Rules: modifiers, name, signature, body and exception handlers.

A fault in a handler is reported and ends the rule there, but the rule itself is kept, so
reading a rule gives a tree together with such faults.
-/

namespace GrammarInspector

/-- What was found where a construct was expected. -/
structure SyntaxFault where
  /-- Whether the construct could not even begin with what was found. -/
  extraneous : Bool
  expected : Expected
  /-- The token found, or nothing at the end of the input. -/
  found : Option Token
deriving DecidableEq, Repr

namespace SyntaxFault

/-- The fault of a construct that failed in front of `rest`. -/
def mismatched (expected : Expected) (rest : List Token) : SyntaxFault :=
  ⟨false, expected, rest.head?⟩

end SyntaxFault

namespace Parse

/-! ## Head of a rule -/

def isModifier : TokenKind → Bool
  | .keyword .fragment | .keyword .publicWord | .keyword .privateWord
  | .keyword .protectedWord => true
  | _ => false

/-- The modifiers in front of a rule, as one node if there are some. -/
def modifiers : Parse (List Tree) := do
  let tokens ← many isModifier (take isModifier .ruleName)
  if tokens.isEmpty then return []
  else return [.group .ruleModifiers (tokens.map (.leaf .ruleModifier))]

/-- The name of a rule, which tells its flavour. -/
def ruleName : Parse (Tree × RuleFlavour) := do
  let name ← take (·.isIdentifier) .ruleName
  if name.kind = .tokenRef then return (.leaf .tokenRef name, .lexer)
  else return (.leaf .ruleRef name, .parser)

/-- A keyword with text in brackets behind it, if the keyword comes next. -/
def bracketed? (keyword : Keyword) (kind : NodeKind) : Parse (List Tree) := do
  match ← eat (.keyword keyword) with
  | none => return []
  | some word =>
    let arguments ← expect .bracket
    return [.builtAt kind word.span [.leaf .arguments arguments]]

/-- The exceptions that a rule declares. -/
def throws? : Parse (List Tree) := do
  match ← eat (.keyword .throws) with
  | none => return []
  | some word =>
    let names ← separated .comma identifier
    return [.builtAt .throws word.span (names.map (.leaf .identifier))]

/-- Arguments, results, exceptions and local variables, which only parser rules have. -/
def signature (flavour : RuleFlavour) : Parse (List Tree) := do
  if flavour = .parser then
    let arguments ← arguments? flavour
    let returns ← bracketed? .returns .returns
    let throws ← throws?
    let locals ← bracketed? .locals .locals
    return arguments ++ returns ++ throws ++ locals
  else return []

/-! ## Body of a rule -/

/-- An alternative of a rule. Those of parser rules may have a label behind them. -/
def ruleAlternative (flavour : RuleFlavour) : Parse Tree := do
  let alternative ← alternative (block flavour) flavour
  if flavour = .parser then
    match ← eat (.punctuation .hash) with
    | none => return alternative
    | some _ =>
      let label ← identifier
      return alternative.withLabel ⟨label.text, label.span⟩
  else return alternative

/-- The alternatives of a rule behind its colon. -/
def ruleBody (flavour : RuleFlavour) : Parse Tree := do
  let colon ← mark .colon
  let alternatives ← separated .bar (ruleAlternative flavour)
  return .builtAt .block colon.span alternatives

/-! ## Exception handlers -/

/-- `catch […] {…}` -/
def handler : Parse Tree := do
  let keyword ← expect (.keyword .catchWord)
  let arguments ← expect .bracket
  let body ← expect .action
  return .builtAt .handler keyword.span [.leaf .arguments arguments, .leaf .action body]

/-- `finally {…}` -/
def cleanup : Parse Tree := do
  let keyword ← expect (.keyword .finallyWord)
  let body ← expect .action
  return .builtAt .cleanup keyword.span [.leaf .action body]

/-- What follows the body of a rule, and the fault that ended it early if
there was one. -/
structure Handlers where
  trees : List Tree
  faults : List SyntaxFault
  rest : List Token

/-- The handlers of a rule. The first fault ends them. -/
def handlers (tokens : List Token) : Handlers :=
  match headKind? tokens with
  | some (.keyword .catchWord) =>
    match handler tokens with
    | .failed expected rest => ⟨[], [.mismatched expected rest], rest⟩
    | .done tree rest =>
      if rest.length < tokens.length then
        let following := handlers rest
        { following with trees := tree :: following.trees }
      else ⟨[tree], [], rest⟩
  | some (.keyword .finallyWord) =>
    match cleanup tokens with
    | .failed expected rest => ⟨[], [.mismatched expected rest], rest⟩
    | .done tree rest => ⟨[tree], [], rest⟩
  | _ => ⟨[], [], tokens⟩
termination_by tokens.length

/-! ## Whole rules -/

/-- A rule up to the semicolon that ends its body. -/
def ruleDeclaration : Parse (Tree × RuleFlavour) := do
  let modifiers ← modifiers
  let (name, flavour) ← ruleName
  let signature ← signature flavour
  let sections ← prequels
  let body ← ruleBody flavour
  let _ ← mark .semicolon
  return (.group .rule (name :: modifiers ++ signature ++ sections ++ [body]), flavour)

/-- A rule, with the fault that its handlers may have. -/
def rule : Parse (Tree × List SyntaxFault) := fun tokens =>
  match ruleDeclaration tokens with
  | .failed expected rest => .failed expected rest
  | .done (tree, .lexer) rest => .done (tree, []) rest
  | .done (tree, .parser) rest =>
    let following := handlers rest
    .done (tree.append following.trees, following.faults) following.rest

def startsRule (kind : TokenKind) : Bool := kind.isIdentifier || isModifier kind

end Parse

end GrammarInspector
