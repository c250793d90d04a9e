import GrammarInspector.Token.Scan

/-!
Reading constructs from a list of tokens.

A `Parse α` takes tokens from the front of a list. It either is done, with a value and the
tokens that are left, or has failed in front of some token where it expected something
else. The end of the input is the end of the list, so nothing can be taken there.
-/

namespace GrammarInspector

/-- What was expected at a place where something else was found. -/
inductive Expected where
  | token (kind : TokenKind)
  | identifier
  | optionValue
  | ruleName
  | ruleDeclaration
  | element
  | setElement
  | command
  | commandArgument
deriving DecidableEq, Repr

namespace Expected

def describe : Expected → String
  | .token kind => kind.describe
  | .identifier => "an identifier"
  | .optionValue => "an option value"
  | .ruleName => "a rule name"
  | .ruleDeclaration => "a rule declaration"
  | .element => "an element"
  | .setElement => "a set element"
  | .command => "a lexer command"
  | .commandArgument => "a command argument"

end Expected

def headKind? (tokens : List Token) : Option TokenKind := tokens.head?.map Token.kind

/-- How reading a construct ends. Either way `rest` are the tokens not taken. -/
inductive Outcome (α : Type) where
  | done (value : α) (rest : List Token)
  | failed (expected : Expected) (rest : List Token)

/-- A way to read a construct from the front of a list of tokens. -/
def Parse (α : Type) := List Token → Outcome α

namespace Parse

instance : Monad Parse where
  pure value := fun tokens => .done value tokens
  bind first next := fun tokens =>
    match first tokens with
    | .done value rest => next value rest
    | .failed expected rest => .failed expected rest

@[simp] theorem pure_apply {α : Type} (value : α) (tokens : List Token) :
    (pure value : Parse α) tokens = .done value tokens := rfl

theorem bind_apply {α β : Type} (first : Parse α) (next : α → Parse β)
    (tokens : List Token) :
    (first >>= next) tokens =
      match first tokens with
      | .done value rest => next value rest
      | .failed expected rest => .failed expected rest := rfl

/-! ## Single tokens -/

def fail {α : Type} (expected : Expected) : Parse α :=
  fun tokens => .failed expected tokens

/-- The kind of the next token, which stays where it is. -/
def peek : Parse (Option TokenKind) := fun tokens => .done (headKind? tokens) tokens

/-- The kind of the token behind the next one; both stay where they are. -/
def peekSecond : Parse (Option TokenKind) :=
  fun tokens => .done (headKind? tokens.tail) tokens

/-- Takes a token of a kind that is accepted. -/
def take (accepts : TokenKind → Bool) (expected : Expected) : Parse Token
  | [] => .failed expected []
  | token :: rest =>
    if accepts token.kind then .done token rest else .failed expected (token :: rest)

def expect (kind : TokenKind) : Parse Token := take (· = kind) (.token kind)

def mark (mark : Mark) : Parse Token := expect (.punctuation mark)

def identifier : Parse Token := take (·.isIdentifier) .identifier

/-- Takes the next token if it is of one kind. -/
def eat (kind : TokenKind) : Parse (Option Token)
  | [] => .done none []
  | token :: rest =>
    if token.kind = kind then .done (some token) rest else .done none (token :: rest)

/-! ## Repetition -/

/-- Reads items as long as the next token is one that an item goes on with. An item that
takes nothing would be read forever, so it ends the repetition. -/
def many {α : Type} (goesOn : TokenKind → Bool) (item : Parse α) : Parse (List α)
  | [] => .done [] []
  | token :: rest =>
    if goesOn token.kind then
      match item (token :: rest) with
      | .failed expected left => .failed expected left
      | .done value left =>
        if left.length ≤ rest.length then
          match many goesOn item left with
          | .done values left => .done (value :: values) left
          | .failed expected left => .failed expected left
        else .done [value] left
    else .done [] (token :: rest)
termination_by tokens => tokens.length

/-- Reads one item or more with a mark between neighbours. -/
def separated {α : Type} (separator : Mark) (item : Parse α) : Parse (List α) := do
  let first ← item
  let rest ← many (· = .punctuation separator) (do let _ ← mark separator; item)
  return first :: rest

end Parse

end GrammarInspector
