import GrammarInspector.Check.Scope

/-!
Checks that tokens and repeated blocks do not match the empty string.
-/

namespace GrammarInspector.Check

open Nullability (Progress)

/-- The messages of a check, and how far the answers are then. -/
abbrev WithProgress := List Message × Progress

/-- A lexer rule that is a token of its own matches some text. -/
def tokenNotEmpty (scope : Scope) (progress : Progress) (rule : Node) : WithProgress :=
  if rule.tree.isLexerRule && !rule.tree.isFragment then
    let reply := Nullability.rule scope.rules progress rule
    let name := rule.firstChild?.getD rule
    (if reply.answer then
      [scope.file.messageAtNode .epsilonToken name [rule.tree.ruleName?.getD ""]]
    else [], reply.after)
  else ([], progress)

/-- The block under a suffix has no alternative that matches the empty string. -/
def suffixNotEmpty (scope : Scope) (ruleName : String) (progress : Progress)
    (suffix : Node) : WithProgress :=
  match suffix.firstChild? with
  | none => ([], progress)
  | some block =>
    let reply := Nullability.anyAlternative scope.rules progress block.tree.children
    let kind := if suffix.kind = .optional then .epsilonOptional else .epsilonClosure
    (if reply.answer then [scope.file.messageAtNode kind block [ruleName]] else [],
      reply.after)

/-- Applies a check to one node after the other, handing on the progress. -/
def inTurn (check : Progress → Node → WithProgress) (progress : Progress) :
    List Node → WithProgress
  | [] => ([], progress)
  | node :: rest =>
    let (messages, progress) := check progress node
    let (following, progress) := inTurn check progress rest
    (messages ++ following, progress)

/-- The checks of one rule: first the rule itself, then its suffixes in pre-order. -/
def ruleNotEmpty (scope : Scope) (progress : Progress) (rule : Node) : WithProgress :=
  let (ofToken, progress) := tokenNotEmpty scope progress rule
  let suffixes := rule.descendants.filter (·.kind.isSuffix)
  let (ofSuffixes, progress) :=
    inTurn (suffixNotEmpty scope (rule.tree.ruleName?.getD "")) progress suffixes
  (ofToken ++ ofSuffixes, progress)

def emptyMatches (scope : Scope) : List Message :=
  (inTurn (ruleNotEmpty scope) .start scope.rules).1

end GrammarInspector.Check
