import GrammarInspector.Grammar.Parse
import GrammarInspector.Tree.Basic

/-!
The sections that precede rules, or the body of a rule: options, token and channel names,
imports and named actions.
-/

namespace GrammarInspector.Parse

/-! ## Options -/

/-- A name made of several names with dots between them, as one leaf. -/
def dottedName : Parse Tree := do
  let names ← separated .dot identifier
  match names with
  | [] => fail .identifier
  | first :: rest =>
    let text := rest.foldl (fun text name => text ++ "." ++ name.text) first.text
    let span := rest.foldl (fun span name => span.merge name.span) first.span
    return .node ⟨.identifier, text, some span, none⟩ []

/-- The value of an option: a literal, an action, a number or a dotted name. -/
def optionValue : Parse Tree := do
  match ← peek with
  | some .literal => return .leaf .literal (← expect .literal)
  | some .action => return .leaf .action (← expect .action)
  | some .int => return .leaf .int (← expect .int)
  | some .tokenRef | some .ruleRef => dottedName
  | _ => fail .optionValue

/-- `name = value ;` -/
def option : Parse Tree := do
  let name ← identifier
  let assign ← mark .equals
  let value ← optionValue
  let _ ← mark .semicolon
  return .builtAt .assign assign.span [.leaf .identifier name, value]

/-- `options { … }` -/
def options : Parse Tree := do
  let opening ← expect (.opener .options)
  let entries ← many (· != .punctuation .rightBrace) option
  let _ ← mark .rightBrace
  return .builtAt .options opening.span entries

/-! ## Names -/

/-- Names with a comma behind each but perhaps the last one. -/
def namesFrom : List Token → List Tree × List Token
  | [] => ([], [])
  | name :: rest =>
    if name.kind.isIdentifier then
      match rest with
      | [] => ([.leaf .identifier name], [])
      | comma :: rest =>
        if comma.kind = .punctuation .comma then
          let (names, left) := namesFrom rest
          (.leaf .identifier name :: names, left)
        else ([.leaf .identifier name], comma :: rest)
    else ([], name :: rest)

def names : Parse (List Tree) := fun tokens =>
  let (names, rest) := namesFrom tokens
  .done names rest

/-- `tokens { … }` or `channels { … }` -/
def nameSection (opener : Opener) (kind : NodeKind) : Parse Tree := do
  let opening ← expect (.opener opener)
  let names ← names
  let _ ← mark .rightBrace
  return .builtAt kind opening.span names

/-! ## Imports -/

/-- A grammar to import, perhaps under another name. -/
def delegate : Parse Tree := do
  let name ← identifier
  match ← eat (.punctuation .equals) with
  | some assign =>
    let target ← identifier
    return .builtAt .assign assign.span [.leaf .identifier name, .leaf .identifier target]
  | none => return .leaf .identifier name

/-- `import A, B = C ;` -/
def imports : Parse Tree := do
  let keyword ← expect (.keyword .importWord)
  let delegates ← separated .comma delegate
  let _ ← mark .semicolon
  return .builtAt .imports keyword.span delegates

/-! ## Named actions -/

/-- The kinds of tokens that can name an action or its scope. -/
def namesAction : TokenKind → Bool
  | .keyword .lexer | .keyword .parser | .tokenRef | .ruleRef => true
  | _ => false

/-- `@name {…}` or `@scope::name {…}` -/
def namedAction : Parse Tree := do
  let start ← mark .at
  let first ← take namesAction .identifier
  let names ← do
    match ← eat (.punctuation .doubleColon) with
    | some _ => pure [first, ← identifier]
    | none => pure [first]
  let body ← expect .action
  return .builtAt .namedAction start.span
    (names.map (.leaf .identifier) ++ [.leaf .action body])

/-! ## Sections of a rule or block -/

def startsPrequel : TokenKind → Bool
  | .opener .options | .punctuation .at => true
  | _ => false

/-- The options and named actions in front of a body. -/
def prequels : Parse (List Tree) :=
  many startsPrequel do
    match ← peek with
    | some (.opener .options) => options
    | _ => namedAction

end GrammarInspector.Parse
