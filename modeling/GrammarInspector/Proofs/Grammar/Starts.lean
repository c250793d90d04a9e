import GrammarInspector.Proofs.Grammar.Productions

/-! # How phrases begin

For each expression, whether it has an empty phrase and which kinds of tokens its phrases
begin with. The sets for constructs are given in a table; that the table agrees with the
productions is checked by evaluation.
-/

namespace GrammarInspector

open List

namespace Construct

/-- Whether a construct can be made of no tokens. -/
def nullable : Construct → Bool
  | .alternative _ => true
  | _ => false

/-- The kinds of tokens that are modifiers of a rule. -/
def modifierStarts : List TokenKind :=
  [.keyword .fragment, .keyword .publicWord, .keyword .privateWord,
    .keyword .protectedWord]

def setElementStarts : RuleFlavour → List TokenKind
  | .parser => [.tokenRef, .literal]
  | .lexer => [.tokenRef, .literal, .bracket]

def atomStarts (flavour : RuleFlavour) : List TokenKind :=
  [.ruleRef, .punctuation .dot, .punctuation .tilde] ++ setElementStarts flavour

def elementStarts (flavour : RuleFlavour) : List TokenKind :=
  [.action, .predicate, .punctuation .leftParen] ++ atomStarts flavour

/-- The kinds of tokens that a construct can begin with. -/
def starts : Construct → List TokenKind
  | .grammarSpec => [.keyword .lexer, .keyword .parser, .keyword .grammar]
  | .prequel =>
    [.opener .options, .opener .tokens, .opener .channels, .keyword .importWord,
      .punctuation .at]
  | .options => [.opener .options]
  | .namedAction => [.punctuation .at]
  | .rule => .ruleRef :: .tokenRef :: modifierStarts
  | .parserRule => .ruleRef :: modifierStarts
  | .lexerRule => .tokenRef :: modifierStarts
  | .alternative .parser => .punctuation .less :: elementStarts .parser
  | .alternative .lexer => .punctuation .arrow :: elementStarts .lexer
  | .element flavour => elementStarts flavour
  | .atom flavour => atomStarts flavour
  | .setElement flavour => setElementStarts flavour
  | .block _ => [.punctuation .leftParen]
  | .elementOptions => [.punctuation .less]
  | .command => [.tokenRef, .ruleRef, .keyword .mode]

end Construct

namespace Ebnf

mutual

/-- Whether an expression has the empty phrase. -/
def nullable : Ebnf → Bool
  | .terminal _ => false
  | .construct named => named.nullable
  | .sequence parts => allNullable parts
  | .oneOf alternatives => anyNullable alternatives
  | .many _ => true

def allNullable : List Ebnf → Bool
  | [] => true
  | part :: parts => part.nullable && allNullable parts

def anyNullable : List Ebnf → Bool
  | [] => false
  | part :: parts => part.nullable || anyNullable parts

end

mutual

/-- The kinds of tokens that the phrases of an expression begin with. -/
def starts : Ebnf → List TokenKind
  | .terminal kind => [kind]
  | .construct named => named.starts
  | .sequence parts => sequenceStarts parts
  | .oneOf alternatives => anyStarts alternatives
  | .many body => body.starts

def sequenceStarts : List Ebnf → List TokenKind
  | [] => []
  | part :: parts => part.starts ++ if part.nullable then sequenceStarts parts else []

def anyStarts : List Ebnf → List TokenKind
  | [] => []
  | part :: parts => part.starts ++ anyStarts parts

end

theorem nullable_of_mem {chosen : Ebnf} {alternatives : List Ebnf}
    (member : chosen ∈ alternatives) (isNullable : chosen.nullable = true) :
    anyNullable alternatives = true := by
  induction alternatives with
  | nil => cases member
  | cons first rest induction =>
    rw [anyNullable, Bool.or_eq_true]
    rcases mem_cons.mp member with equal | later
    · rw [← equal]
      exact Or.inl isNullable
    · exact Or.inr (induction later)

theorem mem_anyStarts {chosen : Ebnf} {alternatives : List Ebnf}
    (member : chosen ∈ alternatives) {kind : TokenKind} (isStart : kind ∈ chosen.starts) :
    kind ∈ anyStarts alternatives := by
  induction alternatives with
  | nil => cases member
  | cons first rest induction =>
    rw [anyStarts, mem_append]
    rcases mem_cons.mp member with equal | later
    · rw [← equal]
      exact Or.inl isStart
    · exact Or.inr (induction later)

/-- The table agrees with the productions. -/
theorem production_nullable (construct : Construct)
    (isNullable : construct.production.nullable = true) : construct.nullable = true := by
  cases construct with
  | alternative flavour => rfl
  | element flavour => cases flavour <;> cases isNullable
  | atom flavour => cases flavour <;> cases isNullable
  | setElement flavour => cases flavour <;> cases isNullable
  | _ => cases isNullable

theorem production_starts (construct : Construct) :
    ∀ kind ∈ construct.production.starts, kind ∈ construct.starts := by
  cases construct with
  | alternative flavour => cases flavour <;> decide
  | element flavour => cases flavour <;> decide
  | atom flavour => cases flavour <;> decide
  | setElement flavour => cases flavour <;> decide
  | block flavour => cases flavour <;> decide
  | _ => decide

/-- A phrase is empty, which the expression must allow, or it begins with one of the
kinds listed. -/
theorem starts_of_derives {expression : Ebnf} {kinds : List TokenKind}
    (derivation : expression.Derives kinds) :
    (kinds = [] ∧ expression.nullable = true) ∨ ∃ kind rest, kinds = kind :: rest ∧
    kind ∈ expression.starts := by
  induction derivation with
  | terminal kind => exact Or.inr ⟨kind, [], rfl, mem_singleton_self kind⟩
  | construct _ body =>
    rcases body with ⟨rfl, isNullable⟩ | ⟨kind, rest, rfl, isStart⟩
    · exact Or.inl ⟨rfl, production_nullable _ isNullable⟩
    · exact Or.inr ⟨kind, rest, rfl, production_starts _ kind isStart⟩
  | nil => exact Or.inl ⟨rfl, rfl⟩
  | cons _ _ head tail =>
    rw [nullable, allNullable, starts, sequenceStarts]
    rcases head with ⟨rfl, isNullable⟩ | ⟨kind, rest, rfl, isStart⟩
    · rw [isNullable, if_pos rfl, Bool.true_and]
      rcases tail with ⟨rfl, tailNullable⟩ | ⟨kind, rest, rfl, isStart⟩
      · exact Or.inl ⟨rfl, tailNullable⟩
      · exact Or.inr ⟨kind, rest, rfl, mem_append_right _ isStart⟩
    · exact Or.inr ⟨kind, _, rfl, mem_append_left _ isStart⟩
  | oneOf member _ body =>
    rcases body with ⟨rfl, isNullable⟩ | ⟨kind, rest, rfl, isStart⟩
    · exact Or.inl ⟨rfl, nullable_of_mem member isNullable⟩
    · exact Or.inr ⟨kind, rest, rfl, mem_anyStarts member isStart⟩
  | none => exact Or.inl ⟨rfl, rfl⟩
  | more _ _ head tail =>
    rcases head with ⟨rfl, isNullable⟩ | ⟨kind, rest, rfl, isStart⟩
    · exact tail
    · exact Or.inr ⟨kind, _, rfl, isStart⟩

end Ebnf

end GrammarInspector
