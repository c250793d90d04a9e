import GrammarInspector.Grammar.Element

/-! # The grammar of grammars

The productions of the grammar language in extended Backus-Naur form, and the lists of
token kinds that can be derived from them. Nothing here refers to how tokens are read: the
reader is compared with these productions later.
-/

namespace GrammarInspector

/-- The constructs of the grammar language that have a production. -/
inductive Construct where
  | grammarSpec
  | prequel
  | options
  | namedAction
  | rule
  | parserRule
  | lexerRule
  | alternative (flavour : RuleFlavour)
  | element (flavour : RuleFlavour)
  | atom (flavour : RuleFlavour)
  | setElement (flavour : RuleFlavour)
  | block (flavour : RuleFlavour)
  | elementOptions
  | command

/-- An expression of extended Backus-Naur form. -/
inductive Ebnf where
  | terminal (kind : TokenKind)
  | construct (construct : Construct)
  | sequence (parts : List Ebnf)
  | oneOf (alternatives : List Ebnf)
  | many (body : Ebnf)

namespace Ebnf

/-! ## Abbreviations -/

def mark (mark : Mark) : Ebnf := terminal (.punctuation mark)

def keyword (word : Keyword) : Ebnf := terminal (.keyword word)

def opener (word : Opener) : Ebnf := terminal (.opener word)

def optional (body : Ebnf) : Ebnf := oneOf [body, sequence []]

/-- One item or more with a mark between neighbours. -/
def separated (separator : Mark) (item : Ebnf) : Ebnf :=
  sequence [item, many (sequence [mark separator, item])]

def identifier : Ebnf := oneOf [terminal .tokenRef, terminal .ruleRef]

/-! ## Parts of sections -/

def dottedName : Ebnf := separated .dot identifier

def optionValue : Ebnf :=
  oneOf [terminal .literal, terminal .action, terminal .int, dottedName]

def option : Ebnf := sequence [identifier, mark .equals, optionValue, mark .semicolon]

/-- Names with a comma behind each but perhaps the last one, and the brace
that ends them. -/
def nameList : Ebnf :=
  sequence [many (sequence [identifier, mark .comma]), optional identifier,
    mark .rightBrace]

def delegate : Ebnf :=
  sequence [identifier, optional (sequence [mark .equals, identifier])]

def imports : Ebnf :=
  sequence [keyword .importWord, separated .comma delegate, mark .semicolon]

/-- What can name an action or its scope. -/
def actionName : Ebnf := oneOf [identifier, keyword .lexer, keyword .parser]

/-- A section in front of the body of a rule or block. -/
def rulePrequel : Ebnf := oneOf [construct .options, construct .namedAction]

/-! ## Parts of rules -/

def modifier : Ebnf :=
  oneOf [keyword .fragment, keyword .publicWord, keyword .privateWord,
    keyword .protectedWord]

/-- A keyword with text in brackets behind it, or nothing. -/
def bracketed (word : Keyword) : Ebnf :=
  optional (sequence [keyword word, terminal .bracket])

def throws : Ebnf := optional (sequence [keyword .throws, separated .comma identifier])

/-- Arguments, results, exceptions and local variables of a parser rule. -/
def signature : Ebnf :=
  sequence [optional (terminal .bracket), bracketed .returns, throws, bracketed .locals]

/-- An alternative of a parser rule with the label it may have. -/
def labelledAlternative : Ebnf :=
  sequence [construct (.alternative .parser),
    optional (sequence [mark .hash, identifier])]

def handler : Ebnf := sequence [keyword .catchWord, terminal .bracket, terminal .action]

def cleanup : Ebnf := sequence [keyword .finallyWord, terminal .action]

/-! ## Parts of alternatives -/

/-- The options of an alternative, which only parser rules have. -/
def alternativeOptions : RuleFlavour → Ebnf
  | .parser => optional (construct .elementOptions)
  | .lexer => sequence []

/-- The commands of an alternative, which only lexer rules have. -/
def commands : RuleFlavour → Ebnf
  | .parser => sequence []
  | .lexer => optional (sequence [mark .arrow, separated .comma (construct .command)])

def label : Ebnf := sequence [identifier, oneOf [mark .equals, mark .plusEquals]]

def suffix : Ebnf :=
  sequence [oneOf [mark .question, mark .star, mark .plus], optional (mark .question)]

def range : Ebnf := sequence [terminal .literal, mark .dots, terminal .literal]

/-- The arguments of a reference to a rule, which only parser rules pass. -/
def arguments : RuleFlavour → Ebnf
  | .parser => optional (terminal .bracket)
  | .lexer => sequence []

/-- A character set, which only lexer rules have. -/
def charSet : RuleFlavour → List Ebnf
  | .parser => []
  | .lexer => [terminal .bracket]

/-- A set of what an element is none of. -/
def complement (flavour : RuleFlavour) : Ebnf :=
  sequence [mark .tilde, oneOf [construct (.setElement flavour),
    sequence [mark .leftParen, separated .bar (construct (.setElement flavour)),
      mark .rightParen]]]

def elementOption : Ebnf := sequence [identifier, optional (sequence [mark .equals,
    oneOf [identifier, terminal .literal, terminal .int]])]

/-- The argument of a lexer command in parentheses. -/
def commandArgument : Ebnf :=
  sequence [mark .leftParen, oneOf [identifier, terminal .int], mark .rightParen]

end Ebnf

namespace Construct

open Ebnf

/-- The productions of the grammar language. -/
def production : Construct → Ebnf
  | .grammarSpec =>
    sequence [optional (oneOf [keyword .lexer, keyword .parser]),
      keyword .grammar, identifier,
      mark .semicolon, many (construct .prequel), many (construct .rule),
      many (sequence [keyword .mode, identifier, mark .semicolon,
        many (construct .rule)]),
      terminal .eof]
  | .prequel =>
    oneOf [construct .options,
      sequence [oneOf [opener .tokens, opener .channels], nameList],
      imports, construct .namedAction]
  | .options => sequence [opener .options, many option, mark .rightBrace]
  | .namedAction =>
    sequence [mark .at, actionName, optional (sequence [mark .doubleColon, identifier]),
      terminal .action]
  | .rule => oneOf [construct .parserRule, construct .lexerRule]
  | .parserRule =>
    sequence [many modifier, terminal .ruleRef, signature, many rulePrequel, mark .colon,
      separated .bar labelledAlternative, mark .semicolon, many handler, optional cleanup]
  | .lexerRule =>
    sequence [many modifier, terminal .tokenRef, many rulePrequel, mark .colon,
      separated .bar (construct (.alternative .lexer)), mark .semicolon]
  | .alternative flavour =>
    sequence [alternativeOptions flavour, many (construct (.element flavour)),
      commands flavour]
  | .element flavour =>
    oneOf [terminal .action, terminal .predicate,
      sequence [optional label,
        oneOf [construct (.atom flavour), construct (.block flavour)], optional suffix]]
  | .atom flavour =>
    oneOf ([sequence [terminal .tokenRef, optional (construct .elementOptions)],
      sequence [terminal .ruleRef, arguments flavour,
        optional (construct .elementOptions)],
      range,
      sequence [terminal .literal, optional (construct .elementOptions)],
      sequence [mark .dot, optional (construct .elementOptions)],
      complement flavour] ++ charSet flavour)
  | .setElement flavour =>
    oneOf ([terminal .tokenRef, range, terminal .literal] ++ charSet flavour)
  | .block flavour =>
    sequence [mark .leftParen,
      optional (sequence [rulePrequel, many rulePrequel, mark .colon]),
      separated .bar (construct (.alternative flavour)), mark .rightParen]
  | .elementOptions => sequence [mark .less, separated .comma elementOption,
      mark .greater]
  | .command =>
    sequence [oneOf [identifier, keyword .mode], optional commandArgument]

end Construct

/-! ## Derivations -/

namespace Ebnf

variable {kinds : List TokenKind} {parts others : List Ebnf} {body : Ebnf}

/-- The kinds of tokens that an expression describes. -/
inductive Derives : Ebnf → List TokenKind → Prop
  | terminal (kind : TokenKind) : Derives (.terminal kind) [kind]
  | construct {construct : Construct} {kinds : List TokenKind}
      (body : Derives construct.production kinds) : Derives (.construct construct) kinds
  | nil : Derives (.sequence []) []
  | cons {part : Ebnf} {parts : List Ebnf} {first rest : List TokenKind}
      (head : Derives part first) (tail : Derives (.sequence parts) rest) :
      Derives (.sequence (part :: parts)) (first ++ rest)
  | oneOf {alternatives : List Ebnf} {chosen : Ebnf} {kinds : List TokenKind}
      (member : chosen ∈ alternatives) (body : Derives chosen kinds) :
      Derives (.oneOf alternatives) kinds
  | none {body : Ebnf} : Derives (.many body) []
  | more {body : Ebnf} {first rest : List TokenKind}
      (head : Derives body first) (tail : Derives (.many body) rest) :
      Derives (.many body) (first ++ rest)

@[simp] theorem derives_terminal {kind : TokenKind} :
    Derives (.terminal kind) kinds ↔ kinds = [kind] := by
  constructor
  · intro derivation
    cases derivation
    rfl
  · rintro rfl
    exact .terminal kind

theorem derives_construct {construct : Construct} :
    Derives (.construct construct) kinds ↔ Derives construct.production kinds := by
  constructor
  · intro derivation
    cases derivation with
    | construct body => exact body
  · exact .construct

@[simp] theorem derives_nil : Derives (.sequence []) kinds ↔ kinds = [] := by
  constructor
  · intro derivation
    cases derivation
    rfl
  · rintro rfl
    exact .nil

theorem derives_cons {part : Ebnf} :
    Derives (.sequence (part :: parts)) kinds ↔ ∃ first rest, kinds = first ++ rest ∧
        Derives part first ∧
        Derives (.sequence parts) rest := by
  constructor
  · intro derivation
    cases derivation with
    | cons head tail => exact ⟨_, _, rfl, head, tail⟩
  · rintro ⟨first, rest, rfl, head, tail⟩
    exact .cons head tail

theorem Derives.append {first rest : List TokenKind}
    (left : Derives (.sequence parts) first) (right : Derives (.sequence others) rest) :
    Derives (.sequence (parts ++ others)) (first ++ rest) := by
  induction parts generalizing first with
  | nil =>
    rw [derives_nil.mp left]
    exact right
  | cons part parts induction =>
    obtain ⟨head, tail, rfl, headDerives, tailDerives⟩ := derives_cons.mp left
    rw [List.append_assoc]
    exact .cons headDerives (induction tailDerives)

theorem derives_append :
    Derives (.sequence (parts ++ others)) kinds ↔
      ∃ first rest, kinds = first ++ rest ∧ Derives (.sequence parts) first ∧
      Derives (.sequence others) rest := by
  constructor
  · induction parts generalizing kinds with
    | nil => exact fun derivation => ⟨[], kinds, rfl, .nil, derivation⟩
    | cons part parts induction =>
      intro derivation
      obtain ⟨head, tail, rfl, headDerives, tailDerives⟩ := derives_cons.mp derivation
      obtain ⟨first, rest, rfl, firstDerives, restDerives⟩ := induction tailDerives
      exact ⟨head ++ first, rest, (List.append_assoc ..).symm,
        .cons headDerives firstDerives, restDerives⟩
  · rintro ⟨first, rest, rfl, left, right⟩
    exact left.append right

theorem derives_single {part : Ebnf} :
    Derives (.sequence [part]) kinds ↔ Derives part kinds := by
  constructor
  · intro derivation
    obtain ⟨first, rest, rfl, head, tail⟩ := derives_cons.mp derivation
    rwa [derives_nil.mp tail, List.append_nil]
  · intro derivation
    rw [← List.append_nil kinds]
    exact .cons derivation .nil

theorem derives_oneOf {alternatives : List Ebnf} :
    Derives (.oneOf alternatives) kinds ↔ ∃ chosen ∈ alternatives,
      Derives chosen kinds := by
  constructor
  · intro derivation
    cases derivation with
    | oneOf member body => exact ⟨_, member, body⟩
  · rintro ⟨chosen, member, body⟩
    exact .oneOf member body

/-- What holds of all tokens of an item holds of all tokens of a repetition. -/
theorem forall_of_derives_many {holds : TokenKind → Prop}
    (each : ∀ phrase, Derives body phrase → ∀ kind ∈ phrase, holds kind)
    (derivation : Derives (.many body) kinds) : ∀ kind ∈ kinds, holds kind := by
  generalize whole : Ebnf.many body = expression at derivation
  induction derivation with
  | none => exact fun kind member => by cases member
  | more head _ _ tail =>
    cases whole
    intro kind member
    rcases List.mem_append.mp member with first | later
    · exact each _ head kind first
    · exact tail rfl kind later
  | _ => cases whole

theorem derives_optional :
    Derives (optional body) kinds ↔ kinds = [] ∨ Derives body kinds := by
  simp [optional, derives_oneOf, or_comm]

end Ebnf

end GrammarInspector
