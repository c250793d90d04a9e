import GrammarInspector.Proofs.Check.Kinds
import GrammarInspector.Proofs.Check.Positions
import GrammarInspector.Proofs.Grammar.Shape.Reading
import GrammarInspector.Proofs.Token.Symbols

/-! # Escapes of literals and sets

The check of escapes splits the text of a literal or set into the symbols that scanning
has read, so the closing delimiter is never taken for an escaped character, and every
escape that is not allowed is reported where it stands.
-/

namespace GrammarInspector

open List

/-! ## Elements stand in rules -/

theorem Walk.block_mem_of_inBodyOf {above : List (Nat × Tree)}
    (inBody : inBodyOf above = true) : .block ∈ above.map (·.2.kind) := by
  induction above with
  | nil => cases inBody
  | cons holder further induction =>
    unfold inBodyOf Node.bodyBelow at inBody
    split at inBody
    · next isBlock => exact mem_cons.mpr (.inl isBlock.symm)
    · cases inBody
    · cases inBody
    · cases inBody
    · exact .tail _ (induction inBody)

namespace Node

theorem exists_enclosingRule {node : Node} (inRule : .rule ∈ node.above.map (·.2.kind)) :
    ∃ rule, node.enclosingRule? = some rule := by
  have among (above : List (Nat × Tree)) (inRule : .rule ∈ above.map (·.2.kind)) :
      ∃ holder ∈ ancestorsOf above, holder.isRule = true := by
    induction above with
    | nil => cases inRule
    | cons holder further induction =>
      rcases mem_cons.mp inRule with here | above
      · exact ⟨_, .head _, decide_eq_true here.symm⟩
      · obtain ⟨rule, member, isRule⟩ := induction above
        exact ⟨rule, .tail _ member, isRule⟩
  obtain ⟨rule, member, isRule⟩ := among node.above inRule
  exact Option.isSome_iff_exists.mp (find?_isSome.mpr ⟨rule, .tail _ member, isRule⟩)

end Node

namespace NodeKind

variable {kind : NodeKind}

theorem isOneLine_of_validEscapes? (written : (Check.validEscapes? kind).isSome = true) :
    kind.isOneLine = true ∧ kind.isText = true ∧ kind ≠ .identifier := by
  cases kind <;> first | exact ⟨rfl, rfl, NodeKind.noConfusion⟩ | cases written

theorem delimited_of_fits {shown : TokenKind}
    (written : (Check.validEscapes? kind).isSome = true)
    (fitting : kind.fits shown = true) : shown.delimiters?.isSome = true := by
  unfold fits at fitting
  split at fitting <;> first
    | rfl
    | cases written
    | cases fitting

end NodeKind

namespace Grammar

variable {source : String} {node : Node}

theorem exists_rule_of_element (isElement : node ∈ (ofSource source).tree.elements) :
    ∃ rule, node.enclosingRule? = some rule := by
  obtain ⟨member, category⟩ := Walk.mem_elements_iff.mp isElement
  by_cases isRule : node.kind = .rule
  · exact Option.isSome_iff_exists.mp
      (find?_isSome.mpr ⟨node, .head _, decide_eq_true isRule⟩)
  · have inBody : Walk.inBodyOf node.above = true := by
      rw [Node.category?, if_neg isRule] at category
      split at category
      · next inside => exact (Bool.and_eq_true_iff.mp inside).1
      · cases category
    obtain ⟨⟨index, block⟩, inside, isBlock⟩ :=
      mem_map.mp (Walk.block_mem_of_inBodyOf inBody)
    obtain ⟨front, behind, equal⟩ := append_of_mem inside
    have holder : Node.mk index block behind ∈ (ofSource source).tree.nodes :=
      (Tree.holder_mem_nodes member ⟨front, equal.symm⟩).1
    have inRule :=
      ((Reading.stands_tree (significantTokens source)).of_mem holder).allowed.blocked
        isBlock
    apply Node.exists_enclosingRule
    rw [equal, map_append, map_cons]
    exact mem_append_right _ (.tail _ inRule)

theorem exists_delimited (member : node ∈ (ofSource source).tree.nodes)
    (written : (Check.validEscapes? node.kind).isSome = true) :
    ∃ token ∈ Token.ofText source.toList, token.kind.delimiters?.isSome = true ∧
      node.tree.span = some token.span ∧ node.text = token.text := by
  obtain ⟨_, isText, other⟩ := NodeKind.isOneLine_of_validEscapes? written
  obtain ⟨token, isToken, fitting, shown⟩ := Reading.shown_of_mem member isText other
  exact ⟨token, mem_ofText isToken, NodeKind.delimited_of_fits written fitting, shown⟩

end Grammar

/-! ## Messages about escapes -/

namespace Symbol.Occurrence

def symbol (occurrence : Occurrence) : Symbol := .escape occurrence.escaped

/-- The bytes of an escape in a text that begins at `start`. -/
def spanFrom (start : Nat) (occurrence : Occurrence) : Span :=
  let first := start + Text.utf8Length occurrence.before
  ⟨first, first + Text.utf8Length occurrence.symbol.text⟩

/-- The escape as it is counted, with some bytes and units in front of the text. -/
def counted (bytes units : Nat) (occurrence : Occurrence) : Check.Escape :=
  ⟨bytes + Text.utf8Length occurrence.before, units + Text.utf16Length occurrence.before,
    occurrence.escaped⟩

theorem counted_behind (bytes units : Nat) (symbol : Symbol) (occurrence : Occurrence) :
    (occurrence.behind symbol).counted bytes units =
      occurrence.counted (bytes + Text.utf8Length symbol.text)
        (units + Text.utf16Length symbol.text) := by
  simp only [counted, before_behind, Text.utf8Length_append, Text.utf16Length_append,
    Nat.add_assoc]
  rfl

end Symbol.Occurrence

namespace Check

open GrammarInspector.Symbol (Occurrence)

theorem map_counted_escapes (bytes units : Nat) (symbol : Symbol) (rest : List Symbol) :
    (Symbol.escapes (symbol :: rest)).map (Occurrence.counted bytes units) =
      (symbol.occurrence? []).toList.map (Occurrence.counted bytes units) ++
        (Symbol.escapes rest).map
        (Occurrence.counted (bytes + Text.utf8Length symbol.text)
          (units + Text.utf16Length symbol.text)) := by
  rw [Symbol.escapes_cons, map_append, map_map]
  exact congrArg (_ ++ List.map · _)
    (funext (Occurrence.counted_behind bytes units symbol))

theorem escapesFrom_eq (bytes units : Nat) (text : List Char) :
    escapesFrom bytes units text =
      (Symbol.escapes (Symbol.ofText text)).map (Occurrence.counted bytes units) := by
  fun_induction escapesFrom bytes units text with
  | case1 => rfl
  | case2 => rfl
  | case3 bytes units escaped rest induction =>
    rw [Symbol.ofText, map_counted_escapes, induction, Nat.add_assoc, Nat.add_assoc]
    rfl
  | case4 bytes units character rest noEnd noEscape induction =>
    rw [Symbol.ofText, map_counted_escapes, induction]
    · rfl
    · exact noEnd
    · exact noEscape

/-- The messages about the escapes of a text, in their order, of which only those of
`valid` are allowed. The text begins at the offset `start`. -/
def escapeMessages (file : GrammarFile) (valid : List Char) (start : Nat)
    (text : String) : List Message :=
  let faulty := (Symbol.escapes (Symbol.ofText text.toList)).filter (·.escaped ∉ valid)
  faulty.map fun escape =>
    file.messageAtSpan .invalidEscapeSequence (escape.spanFrom start)
      [String.ofList escape.symbol.text]

/-- The messages about the escapes of an element. -/
def elementEscapes (file : GrammarFile) (node : Node) : List Message :=
  match validEscapes? node.kind, node.tree.span with
  | some valid, some span => escapeMessages file valid span.start node.text
  | _, _ => []

variable {source : String} {file : GrammarFile} {node : Node}

/-- Where the source has an escape of a text on one line. -/
theorem shows_occurrence {text : String} {span : Span} {occurrence : Occurrence}
    (shows : span.Shows source text) (oneLine : '\n' ∉ text.toList)
      (isEscape : occurrence ∈ Symbol.escapes (Symbol.ofText text.toList)) :
    let lines := LineIndex.ofText source.toList
    let escape := occurrence.counted 0 0
    (occurrence.spanFrom span.start).Shows source (String.ofList occurrence.symbol.text) ∧
      occurrence.spanFrom span.start = ⟨span.start + escape.bytes,
        span.start + escape.bytes + 1 + escape.escaped.utf8Size⟩ ∧
      lines.position (occurrence.spanFrom span.start).start =
        ⟨(lines.position span.start).line,
        (lines.position span.start).column + escape.units⟩ := by
  have counted : occurrence.counted 0 0 ∈ escapesFrom 0 0 text.toList := by
    rw [escapesFrom_eq]
    exact mem_map_of_mem isEscape
  obtain ⟨shown, _, position⟩ := shows_escape shows oneLine counted
  have place : occurrence.spanFrom span.start =
      ⟨span.start + (occurrence.counted 0 0).bytes,
      span.start + (occurrence.counted 0 0).bytes + 1 +
        (occurrence.counted 0 0).escaped.utf8Size⟩ := by
    simp only [Occurrence.spanFrom, Occurrence.counted, Nat.zero_add, Nat.add_assoc]
    rfl
  rw [place]
  exact ⟨shown, rfl, position⟩

/-- The escapes that are reported for a literal or set. -/
theorem escapes_eq (opened : file.grammar = .ofSource source)
    (quoted : node.Quoted source) {valid : List Char}
    (ofKind : validEscapes? node.kind = some valid) :
      escapes file valid node = elementEscapes file node := by
  obtain ⟨span, own, shows⟩ := quoted.shows
  have accepts (escape : Escape) :
      (!valid.contains escape.escaped) = decide (escape.escaped ∉ valid) := by simp
  unfold escapes elementEscapes escapeMessages
  rw [ofKind, own, Tree.anchor_of_span own, Grammar.position?, Tree.anchor_of_span own]
  simp only [Option.map_some, accepts]
  rw [escapesFrom_eq, filter_map, map_map]
  refine map_congr_left fun escape isFaulty => ?_
  obtain ⟨_, place, position⟩ :=
    shows_occurrence shows quoted.oneLine (mem_filter.mp isFaulty).1
  rw [GrammarFile.messageAtSpan, opened]
  change file.messageAt _ _ _ _ = file.messageAt _
    ((LineIndex.ofText source.toList).position _) _ _
  rw [position, place]
  rfl

theorem elementEscapes_of_empty (isEmpty : emptyText? node.kind = some node.text) :
    elementEscapes file node = [] := by
  have none : Symbol.escapes (Symbol.ofText node.text.toList) = [] := by
    unfold emptyText? at isEmpty
    split at isEmpty
    · rw [← Option.some.inj isEmpty]
      rfl
    · rw [← Option.some.inj isEmpty]
      rfl
    · cases isEmpty
  unfold elementEscapes
  split
  · rw [escapeMessages, none]
    rfl
  · rfl

theorem elementEscapes_of_none (unwritten : validEscapes? node.kind = none) :
    elementEscapes file node = [] := by
  rw [elementEscapes, unwritten]

/-- Of the messages about an element, these are about its escapes. -/
theorem filter_element {scope : Scope} {rule : Node}
    (opened : scope.file.grammar = .ofSource source)
    (member : node ∈ (Grammar.ofSource source).tree.nodes)
      (inRule : node.enclosingRule? = some rule) :
    (element scope node).filter (·.kind = .invalidEscapeSequence) =
      elementEscapes scope.file node := by
  have noReference : (if rule.tree.isLexerRule then lexerElement scope rule node
      else parserElement scope node).filter (·.kind = .invalidEscapeSequence) = [] :=
    (Reports.choose (reports_lexerElement scope rule node)
      (reports_parserElement scope node)).filter_eq_nil
      (by decide)
  unfold element
  rw [inRule]
  dsimp only
  split
  · next isEmpty => exact (elementEscapes_of_empty isEmpty).symm
  · rw [filter_append, noReference, append_nil]
    split
    · next valid ofKind =>
      have written : (validEscapes? node.kind).isSome = true := by rw [ofKind]; rfl
      obtain ⟨isOneLine, _, other⟩ := NodeKind.isOneLine_of_validEscapes? written
      have quoted := Grammar.quoted_of_isOneLine member isOneLine fun isName =>
          absurd isName other
      rw [← escapes_eq opened quoted ofKind, filter_eq_self]
      intro message isMessage
      exact decide_eq_true (mem_singleton.mp (reports_escapes _ _ _ message isMessage))
    · next unwritten => exact (elementEscapes_of_none unwritten).symm

end Check

namespace GrammarFile

open Check

variable {source : String} {file : GrammarFile}

theorem filter_inspect_escapes (isFile : file.grammar = .ofSource source)
    (noErrors : file.grammar.errors = [])
    (files : Files) (library : Option String) :
    (file.inspect files library).messages.filter (·.kind = .invalidEscapeSequence) =
      file.grammar.tree.elements.flatMap (elementEscapes file) := by
  obtain ⟨external, messages⟩ := filter_inspect noErrors files library
  rw [messages _ (by decide), filter_append, filter_append,
    (reports_declarations _).filter_eq_nil (by decide),
      (reports_labels _).filter_eq_nil (by decide),
    nil_append, append_nil, references, filter_flatMap]
  refine flatMap_congr fun node isElement => ?_
  change node ∈ file.grammar.tree.elements at isElement
  rw [isFile] at isElement
  obtain ⟨rule, inRule⟩ := Grammar.exists_rule_of_element isElement
  exact filter_element isFile (Walk.mem_elements_iff.mp isElement).1 inRule

/-- Scanning and the check of escapes read literals and bracket blocks alike. In the
symbols of such a token every backslash is part of an escape, and behind the opening
delimiter the closing one stands for itself once, at the end. So without syntax errors the
messages about escapes are those about the escapes of literals and sets that are not
allowed, in their order, each at the two characters of the escape. -/
theorem escapes_read_alike (source : String) :
    (∀ token ∈ Token.ofText source.toList,
      ∀ opening close, token.kind.delimiters? = some (opening, close) →
      (Symbol.ofText token.text.toList).flatMap Symbol.text = token.text.toList ∧
        '\n' ∉ token.text.toList ∧
        ∃ inner, Symbol.ofText token.text.toList =
          .plain opening :: (inner ++ [.plain close]) ∧
          .plain '\\' ∉ inner ∧ .plain close ∉ inner) ∧
    ∀ file : GrammarFile, file.grammar = .ofSource source → file.grammar.errors = [] →
      (∀ files library, (file.inspect files library).messages.filter
          (·.kind = .invalidEscapeSequence) =
        file.grammar.tree.elements.flatMap (elementEscapes file)) ∧
      ∀ node ∈ file.grammar.tree.elements, ∀ valid, validEscapes? node.kind = some valid →
        ∃ token ∈ Token.ofText source.toList, token.kind.delimiters?.isSome = true ∧
          node.tree.span = some token.span ∧ node.text = token.text ∧
          elementEscapes file node =
            escapeMessages file valid token.span.start token.text ∧
          ∀ escape ∈ Symbol.escapes (Symbol.ofText token.text.toList),
            (escape.spanFrom token.span.start).Shows source
              (String.ofList ['\\', escape.escaped]) := by
  refine ⟨fun token member opening close delimiters => ?_, fun file isFile noErrors => ?_⟩
  · refine ⟨Symbol.flatMap_text_ofText _, ?_,
      Token.symbols_of_delimited member delimiters⟩
    exact Token.not_break_of_isOneLine member
      (TokenKind.isOneLine_of_delimiters? delimiters)
  · refine ⟨filter_inspect_escapes isFile noErrors, fun node isElement valid ofKind => ?_⟩
    rw [isFile] at isElement
    obtain ⟨token, member, delimited, span, text⟩ := Grammar.exists_delimited
      (Walk.mem_elements_iff.mp isElement).1 (by rw [ofKind]; rfl)
    refine ⟨token, member, delimited, span, text, ?_, fun escape isEscape => ?_⟩
    · rw [elementEscapes, ofKind, span, text]
    · obtain ⟨delimiters, isDelimiters⟩ := Option.isSome_iff_exists.mp delimited
      have oneLine :=
        Token.not_break_of_isOneLine member
          (TokenKind.isOneLine_of_delimiters? isDelimiters)
      exact (shows_occurrence (Token.shows_of_mem member) oneLine isEscape).1

/-- A source whose literal and set both end behind an escaped delimiter. -/
def delimitersEscaped : String := "lexer grammar L;\nA : '𝄞\\q\\'' [\\z\\]] ;"

/-- The escaped delimiters end nothing, and the two escapes that are not allowed
are reported. -/
theorem escapes_read_alike_delimiters :
    (∃ token ∈ Token.ofText delimitersEscaped.toList, token.span = ⟨32, 38⟩ ∧
      ∃ inner, Symbol.ofText token.text.toList = .plain '[' :: (inner ++ [.plain ']']) ∧
      .plain ']' ∉ inner) ∧
    (ofSource "L.g4" delimitersEscaped).grammar.errors = [] ∧
    ∀ files library,
      (((ofSource "L.g4" delimitersEscaped).inspect files library).messages.filter
          (·.kind = .invalidEscapeSequence)).map
        (fun message => (message.span, message.position, message.arguments)) =
        [(⟨26, 28⟩, ⟨2, 7⟩, ["\\q"]), (⟨33, 35⟩, ⟨2, 14⟩, ["\\z"])] := by
  obtain ⟨tokens, messages⟩ := escapes_read_alike delimitersEscaped
  have noErrors : (ofSource "L.g4" delimitersEscaped).grammar.errors =
      [] := by decide +kernel
  have bracket : ⟨.bracket, ⟨32, 38⟩, "[\\z\\]]"⟩ ∈
      Token.ofText delimitersEscaped.toList := by decide +kernel
  refine ⟨⟨_, bracket, rfl, ?_⟩, noErrors, fun files library => ?_⟩
  · obtain ⟨_, _, inner, symbols, _, noClose⟩ := tokens _ bracket '[' ']' rfl
    exact ⟨inner, symbols, noClose⟩
  · rw [(messages _ rfl noErrors).1 files library]
    decide +kernel

end GrammarFile

end GrammarInspector
