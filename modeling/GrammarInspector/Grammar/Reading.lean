import GrammarInspector.Grammar.Rule

/-!
Reading a whole grammar.

A construct that fails is left out of the tree, its fault is noted, and reading goes on
behind the mark that would have ended it. So every list of tokens gives a tree.
-/

namespace GrammarInspector

/-- The flavours of grammars. A combined grammar has rules for both parser and lexer. -/
inductive GrammarFlavour where
  | combined
  | lexer
  | parser
deriving DecidableEq, Repr

namespace GrammarFlavour

def name : GrammarFlavour → String
  | .combined => "combined"
  | .lexer => "lexer"
  | .parser => "parser"

def rootText : GrammarFlavour → String
  | .combined => "COMBINED_GRAMMAR"
  | .lexer => "LEXER_GRAMMAR"
  | .parser => "PARSER_GRAMMAR"

end GrammarFlavour

/-- What the tokens of a grammar say. -/
structure Reading where
  flavour : GrammarFlavour
  tree : Tree
  /-- The faults in the order in which they were met. -/
  faults : List SyntaxFault

namespace Reading

/-! ## Going on after a fault -/

/-- The tokens behind the first one of a kind. -/
def skipPast (kind : TokenKind) (tokens : List Token) : List Token :=
  (tokens.dropWhile (·.kind != kind)).drop 1

/-- Trees that were read and the faults met on the way. -/
structure Harvest where
  trees : List Tree
  faults : List SyntaxFault

/-- Reads one construct. If it fails, `recover` says where to go on. -/
def attempt (construct : Parse Tree) (recover : List Token → List Token)
    (tokens : List Token) : Harvest × List Token :=
  match construct tokens with
  | .done tree rest => (⟨[tree], []⟩, rest)
  | .failed expected rest => (⟨[], [.mismatched expected rest]⟩, recover rest)

/-- Repeats a step as long as it applies. A step that takes nothing would be repeated
forever, so it is the last one. -/
def repeated {α : Type} (step : List Token → Option (α × List Token))
    (tokens : List Token) : List α × List Token :=
  match step tokens with
  | none => ([], tokens)
  | some (value, rest) =>
    if rest.length < tokens.length then
      let (values, left) := repeated step rest
      (value :: values, left)
    else ([value], rest)
termination_by tokens.length

/-- Repeats a step and collects what it gives. -/
def collect (step : List Token → Option (Harvest × List Token)) (tokens : List Token) :
    Harvest × List Token :=
  let (harvests, rest) := repeated step tokens
  (⟨harvests.flatMap (·.trees), harvests.flatMap (·.faults)⟩, rest)

/-! ## Header -/

/-- What is known of a grammar's first line. -/
structure Header where
  flavour : GrammarFlavour
  /-- Where the word `grammar` stands. -/
  keyword : Option Span
  name : Option Tree

/-- The flavour that the first token announces, and what follows. -/
def flavourOf : List Token → GrammarFlavour × List Token
  | [] => (.combined, [])
  | token :: rest =>
    if token.kind = .keyword .lexer then (.lexer, rest)
    else if token.kind = .keyword .parser then (.parser, rest)
    else (.combined, token :: rest)

/-- Reads `grammar name ;` with the flavour in front. A header that fails half-way
still tells what it told before, except that the flavour counts only together with the
word `grammar`. -/
def header (tokens : List Token) : Header × Outcome Token :=
  let (flavour, rest) := flavourOf tokens
  match Parse.expect (.keyword .grammar) rest with
  | .failed expected rest => (⟨.combined, none, none⟩, .failed expected rest)
  | .done keyword rest =>
    match Parse.identifier rest with
    | .failed expected rest => (⟨flavour, some keyword.span, none⟩, .failed expected rest)
    | .done name rest =>
      (⟨flavour, some keyword.span, some (.leaf .identifier name)⟩,
        Parse.mark .semicolon rest)

/-! ## Sections and rules -/

/-- One of the sections in front of the rules. -/
def prequelStep (tokens : List Token) : Option (Harvest × List Token) :=
  let behindBrace := skipPast (.punctuation .rightBrace)
  match headKind? tokens with
  | some (.opener .options) => some (attempt Parse.options behindBrace tokens)
  | some (.opener .tokens) =>
      some (attempt (Parse.nameSection .tokens .tokens) behindBrace tokens)
  | some (.opener .channels) =>
    some (attempt (Parse.nameSection .channels .channels) behindBrace tokens)
  | some (.keyword .importWord) =>
    some (attempt Parse.imports (skipPast (.punctuation .semicolon)) tokens)
  | some (.punctuation .at) => some (attempt Parse.namedAction id tokens)
  | _ => none

/-- One rule, or one stretch of tokens that begins no rule. Rules end at a mode or at the
end of the input. -/
def ruleStep (tokens : List Token) : Option (Harvest × List Token) :=
  match tokens with
  | [] => none
  | token :: _ =>
    if token.kind = .keyword .mode then none
    else if Parse.startsRule token.kind then
      match Parse.rule tokens with
      | .done (tree, faults) rest => some (⟨[tree], faults⟩, rest)
      | .failed expected rest =>
        some (⟨[], [.mismatched expected rest]⟩, skipPast (.punctuation .semicolon) rest)
    else
      some (⟨[], [⟨true, .ruleDeclaration, some token⟩]⟩,
        skipPast (.punctuation .semicolon) tokens)

def rules (tokens : List Token) : Harvest × List Token := collect ruleStep tokens

/-! ## Modes -/

/-- What one `mode` line brings: the mode with its rules, or, if the line is faulty, rules
that belong to no mode. -/
structure ModeSection where
  mode : Option Tree
  strays : List Tree
  faults : List SyntaxFault

/-- `mode name ;`, as a node without its rules. -/
def modeLine : Parse Tree := do
  let keyword ← Parse.expect (.keyword .mode)
  let name ← Parse.identifier
  let _ ← Parse.mark .semicolon
  return .builtAt .mode keyword.span [.leaf .identifier name]

def modeStep (tokens : List Token) : Option (ModeSection × List Token) :=
  if tokens.isEmpty then none
  else
    match modeLine tokens with
    | .done mode rest =>
      let (harvest, rest) := rules rest
      some (⟨some (mode.append harvest.trees), [], harvest.faults⟩, rest)
    | .failed expected rest =>
      let (harvest, left) := rules (skipPast (.punctuation .semicolon) rest)
      some (⟨none, harvest.trees, .mismatched expected rest :: harvest.faults⟩, left)

/-! ## Whole grammars -/

/-- The faults of a header and the tokens behind it. -/
def behindHeader : Outcome Token → List SyntaxFault × List Token
  | .done _ rest => ([], rest)
  | .failed expected rest =>
    ([.mismatched expected rest], skipPast (.punctuation .semicolon) rest)

/-- Reads the tokens of a grammar: its header, its sections, its rules and its
lexer modes. -/
def ofTokens (tokens : List Token) : Reading :=
  let (header, outcome) := header tokens
  let (headerFaults, rest) := behindHeader outcome
  let (sections, rest) := collect prequelStep rest
  let (declared, rest) := rules rest
  let (modes, _) := repeated modeStep rest
  let ruleTrees := declared.trees ++ modes.flatMap (·.strays)
  let children :=
    header.name.toList ++ sections.trees ++ [.group .rules ruleTrees] ++
      modes.filterMap (·.mode)
  { flavour := header.flavour
    tree := .node ⟨.grammar, header.flavour.rootText, header.keyword, none⟩ children
    faults :=
      headerFaults ++ sections.faults ++ declared.faults ++ modes.flatMap (·.faults) }

end Reading

end GrammarInspector
