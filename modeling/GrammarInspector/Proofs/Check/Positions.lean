import GrammarInspector.Editor.Diagnostic
import GrammarInspector.Proofs.Check.Kinds
import GrammarInspector.Proofs.Check.Pointing
import GrammarInspector.Proofs.Grammar.Faults

/-! # Positions and first arguments of messages

The span of every message lies in the source, and its position is where the span begins.
Where a message has arguments, the first one is the text that the source has there, but
for a few kinds of messages.
-/

namespace GrammarInspector

open List

/-- Whether the places that a message gives lie in a source and agree. -/
structure Message.Placed (source : String) (message : Message) : Prop where
  within : message.span.Within source
  position : message.position =
      (LineIndex.ofText source.toList).position message.span.start

/-- Whether a source has a text of one line where a message points at. -/
structure Message.Quotes (source : String) (message : Message)
    (text : String) : Prop where
  shows : (Span.mk message.span.start
      (message.span.start + text.utf8ByteSize)).Shows source text
  oneLine : '\n' ∉ text.toList

namespace Check

variable {escape : Escape}

/-! ## Escapes -/

theorem exists_split_of_mem_escapesFrom {bytes units : Nat} {text : List Char}
    (member : escape ∈ escapesFrom bytes units text) :
    ∃ front behind, text = front ++ '\\' :: escape.escaped :: behind ∧
      escape.bytes = bytes + Text.utf8Length front ∧
      escape.units = units + Text.utf16Length front := by
  fun_induction escapesFrom bytes units text with
  | case1 => cases member
  | case2 => cases member
  | case3 bytes units escaped rest induction =>
    rcases mem_cons.mp member with rfl | later
    · exact ⟨[], rest, rfl, rfl, rfl⟩
    · obtain ⟨front, behind, equal, atBytes, atUnits⟩ := induction later
      refine ⟨'\\' :: escaped :: front, behind, by rw [equal]; rfl, ?_, ?_⟩
      · rw [atBytes, Text.utf8Length, Text.utf8Length, show '\\'.utf8Size = 1 from rfl]
        omega
      · rw [atUnits, Text.utf16Length, Text.utf16Length,
          show Text.utf16Size '\\' = 1 from rfl]
        omega
  | case4 bytes units character rest _ _ induction =>
    obtain ⟨front, behind, equal, atBytes, atUnits⟩ := induction member
    refine ⟨character :: front, behind, by rw [equal]; rfl, ?_, ?_⟩
    · rw [atBytes, Text.utf8Length, Nat.add_assoc]
    · rw [atUnits, Text.utf16Length, Nat.add_assoc]

/-- Where an escape stands in the source, if its text is on one line. -/
theorem shows_escape {source text : String} {span : Span} (shows : span.Shows source text)
    (oneLine : '\n' ∉ text.toList) (isEscape : escape ∈ escapesFrom 0 0 text.toList) :
    let lines := LineIndex.ofText source.toList
    (Span.mk (span.start + escape.bytes)
        (span.start + escape.bytes + 1 + escape.escaped.utf8Size)).Shows source
        (String.ofList ['\\', escape.escaped]) ∧
      '\n' ∉ ['\\', escape.escaped] ∧
      lines.position (span.start + escape.bytes) = ⟨(lines.position span.start).line,
        (lines.position span.start).column + escape.units⟩ := by
  obtain ⟨before, behind, whole, starts, _⟩ := shows.exists_split
  obtain ⟨front, back, split, atBytes, atUnits⟩ :=
    exists_split_of_mem_escapesFrom isEscape
  rw [split] at oneLine whole
  rw [mem_append, not_or, mem_cons, not_or, mem_cons, not_or] at oneLine
  obtain ⟨inFront, noBackslash, notEscaped, _⟩ := oneLine
  have around : source.toList = (before ++ front) ++
      ((String.ofList ['\\', escape.escaped]).toList ++ (back ++ behind)) := by
    rw [whole]
    simp
  have place : span.start + escape.bytes = Text.utf8Length (before ++ front) := by
    rw [starts, atBytes, Text.utf8Length_append]
    omega
  refine ⟨?_, ?_, ?_⟩
  · have found := Span.shows_of_split around
    have stop :
        Text.utf8Length
        (before ++ front ++ (String.ofList ['\\', escape.escaped]).toList) =
        Text.utf8Length (before ++ front) + 1 + escape.escaped.utf8Size := by
      simp only [Text.utf8Length_append, String.toList_ofList, Text.utf8Length,
        show '\\'.utf8Size = 1 from rfl]
      omega
    rwa [stop, ← place] at found
  · simp [notEscaped]
  · have atStart :=
      LineIndex.position_ofText before
        ((front ++ '\\' :: escape.escaped :: back) ++ behind)
    have atEscape := LineIndex.position_ofText (before ++ front)
      ((String.ofList ['\\', escape.escaped]).toList ++ (back ++ behind))
    rw [← whole, ← starts] at atStart
    rw [← around, ← place, Position.after_append, Position.foldl_advance inFront,
      ← atStart] at atEscape
    rw [atUnits, Nat.zero_add]
    exact atEscape

end Check

/-! ## Syntax errors -/

namespace Grammar

variable {source : String} {error : SyntaxError}

/-- A syntax error is at a token and about its first line, or at the end of the source. -/
theorem exists_token_of_error (isError : error ∈ (ofSource source).errors) :
    (∃ token ∈ Token.ofText source.toList, error.span = token.span ∧
      error.offending = Text.firstLine token.text) ∨
      error.span = .emptyAt source.utf8ByteSize ∧ error.offending = "<EOF>" := by
  rw [ofSource, mem_mergeSort, mem_append] at isError
  rcases isError with ofToken | ofFault
  · obtain ⟨token, member, found⟩ := mem_filterMap.mp ofToken
    unfold SyntaxError.ofToken? at found
    split at found
    · cases found
      exact Or.inl ⟨token, member, rfl, rfl⟩
    · cases found
  · obtain ⟨fault, isFault, rfl⟩ := mem_map.mp ofFault
    have met := Reading.metIn_ofTokens _ fault isFault
    unfold SyntaxError.ofFault
    cases found : fault.found with
    | none =>
      right
      rw [Text.utf8ByteSize_eq]
      exact ⟨rfl, rfl⟩
    | some token => exact Or.inl ⟨token, mem_ofText (met token found), rfl, rfl⟩

theorem within_of_error (isError : error ∈ (ofSource source).errors) :
    error.span.Within source := by
  rcases exists_token_of_error isError with ⟨token, member, span, _⟩ | ⟨span, _⟩
  · rw [span]
    exact (Token.shows_of_mem member).within
  · rw [span]
    exact .emptyAt (Nat.le_refl _) String.Pos.Raw.isValid_rawEndPos

end Grammar

/-! ## Messages -/

namespace Check

variable {source first : String} {file : GrammarFile} {message : Message}
  {kind : MessageKind} {span : Span} {arguments : List String}

theorem placed_messageAt {position : Position}
    (within : span.Within source)
      (begins : position = (LineIndex.ofText source.toList).position span.start) :
    (file.messageAt kind position span arguments).Placed source where
  within := within
  position := by
    have counted := within.one_le_line
    rw [← begins] at counted
    dsimp only [GrammarFile.messageAt]
    rw [← begins, Nat.max_eq_left counted]

theorem placed_messageAtNode {node : Node} (opened : file.grammar = .ofSource source)
    (member : node ∈ (Grammar.ofSource source).tree.nodes) :
    (file.messageAtNode kind node arguments).Placed source := by
  unfold GrammarFile.messageAtNode
  rw [opened, Grammar.position?]
  cases begins : node.tree.anchor with
  | some span => exact placed_messageAt (Grammar.within_of_anchor member begins) rfl
  | none =>
    refine placed_messageAt (.emptyAt (Nat.zero_le _) (String.Pos.Raw.isValid_zero)) ?_
    exact (LineIndex.position_ofText [] source.toList).symm

theorem placed_messageAtSpan (opened : file.grammar = .ofSource source)
    (within : span.Within source) :
    (file.messageAtSpan kind span arguments).Placed source := by
  refine placed_messageAt within ?_
  rw [opened]
  rfl

theorem Points.placed (opened : file.grammar = .ofSource source)
    (points : Points source file message) : message.Placed source := by
  cases points with
  | node member _ => exact placed_messageAtNode opened member
  | quoted quoted => exact placed_messageAtNode opened quoted.member
  | label member hasLabel =>
      exact placed_messageAtSpan opened (Grammar.within_of_label member hasLabel)
  | escape quoted begins isEscape =>
    obtain ⟨span, own, shows⟩ := quoted.shows
    cases begins.symm.trans (Tree.anchor_of_span own)
    obtain ⟨shown, _, position⟩ := shows_escape shows quoted.oneLine isEscape
    refine placed_messageAt shown.within ?_
    rw [opened]
    exact position.symm
  | error isError => exact placed_messageAtSpan opened (Grammar.within_of_error isError)

/-- A text on one line is quoted by a message that points at it, or at something that
begins with it. -/
theorem quotes_of_shows {text : String} (shows : span.Shows source text)
    (begins : first.toList <+: text.toList) (oneLine : '\n' ∉ first.toList)
    (start : message.span.start = span.start) : message.Quotes source first := by
  obtain ⟨before, behind, whole, atStart, _⟩ := shows.exists_split
  obtain ⟨further, equal⟩ := begins
  rw [← equal, append_assoc] at whole
  refine ⟨?_, oneLine⟩
  have found := Span.shows_of_split whole
  rwa [Text.utf8Length_append, ← atStart, ← start, ← Text.utf8ByteSize_eq] at found

theorem Points.quotes (points : Points source file message) {more : List String}
    (arguments : message.arguments = first :: more) (quoting : message.kind ∉ looseKinds)
    (inside : ¬(message.kind = .syntaxError ∧ first = "<EOF>")) :
    message.Quotes source first := by
  cases points with
  | node member loose =>
    rcases loose with none | isLoose
    · cases none.symm.trans arguments
    · exact absurd isLoose quoting
  | @quoted _ node _ quoted =>
    cases arguments
    obtain ⟨span, own, shows⟩ := quoted.shows
    refine quotes_of_shows shows prefix_rfl quoted.oneLine ?_
    change (node.tree.anchor.getD (.emptyAt 0)).start = _
    rw [Tree.anchor_of_span own]
    rfl
  | label member hasLabel =>
    cases arguments
    obtain ⟨shows, oneLine⟩ := Grammar.shows_of_label member hasLabel
    exact quotes_of_shows shows prefix_rfl oneLine rfl
  | escape quoted begins isEscape =>
    cases arguments
    obtain ⟨span, own, shows⟩ := quoted.shows
    cases begins.symm.trans (Tree.anchor_of_span own)
    obtain ⟨shown, oneLine, _⟩ := shows_escape shows quoted.oneLine isEscape
    exact quotes_of_shows shown prefix_rfl (by rwa [String.toList_ofList]) rfl
  | error isError =>
    cases arguments
    rcases Grammar.exists_token_of_error isError with
      ⟨token, member, span, offending⟩ | ⟨_, atEnd⟩
    · obtain ⟨begins, oneLine⟩ := Text.firstLine_prefix token.text
      rw [offending]
      exact quotes_of_shows (Token.shows_of_mem member) begins oneLine
        (congrArg Span.start span)
    · exact absurd ⟨rfl, atEnd⟩ inside

end Check

/-- How a grammar file with a source comes about: from text that is at hand, or
from a file. -/
inductive GrammarFile.Opened (files : Files) : String → GrammarFile → Prop
  | ofSource (fileName source : String) : Opened files source (ofSource fileName source)
  | load {path source : String} {file : GrammarFile}
      (isRead : files.read path = .ok source)
      (loaded : load files path = .ok file) : Opened files source file

namespace GrammarFile

variable {files : Files} {library : Option String} {file : GrammarFile} {source : String}
  {message : Message}

theorem Opened.grammar_eq (opened : Opened files source file) :
    file.grammar = .ofSource source := by
  cases opened with
  | ofSource => rfl
  | load isRead loaded =>
    obtain ⟨_, sameRead, equal⟩ := exists_source loaded
    cases isRead.symm.trans sameRead
    exact equal

theorem Opened.points (opened : Opened files source file)
    (member : message ∈ (file.inspect files library).messages) :
    Check.Points source file message :=
  allPoint_inspect opened.grammar_eq files library message member

/-- Whatever the file and the files around it, every message lies in the source, with both
ends of its span between characters, and its line and column are where the span begins. -/
theorem messages_placed (opened : Opened files source file)
    (member : message ∈ (file.inspect files library).messages) :
    message.span.start ≤ message.span.stop ∧ message.span.stop ≤ source.utf8ByteSize ∧
      String.Pos.Raw.IsValid source ⟨message.span.start⟩ ∧
      String.Pos.Raw.IsValid source ⟨message.span.stop⟩ ∧
      message.position =
        (LineIndex.ofText source.toList).position message.span.start := by
  obtain ⟨⟨order, bound, startValid, stopValid⟩, position⟩ :=
    (opened.points member).placed opened.grammar_eq
  exact ⟨order, bound, startValid, stopValid, position⟩

/-- A source with a faulty escape behind a character of four bytes and two
UTF-16 units. -/
def escapedSource : String := "lexer grammar L;\nA : '𝄞\\q' ;"

/-- The place of the escape is counted from the start of its literal. -/
theorem messages_placed_escape :
    ∃ message ∈ ((ofSource "L.g4" escapedSource).inspect Check.noFiles none).messages,
      message.kind = .invalidEscapeSequence ∧ message.span = ⟨26, 28⟩ ∧
      message.position = ⟨2, 7⟩ ∧
      message.position = (LineIndex.ofText escapedSource.toList).position 26 := by
  have found : (((ofSource "L.g4" escapedSource).inspect Check.noFiles none).messages.any
      fun message =>
      message.kind == .invalidEscapeSequence && message.span == ⟨26, 28⟩ &&
        message.position == ⟨2, 7⟩) = true := by
    decide +kernel
  obtain ⟨message, member, facts⟩ := any_eq_true.mp found
  simp only [Bool.and_eq_true, beq_iff_eq] at facts
  obtain ⟨⟨kind, span⟩, position⟩ := facts
  obtain ⟨_, _, _, _, placed⟩ := messages_placed (.ofSource "L.g4" escapedSource) member
  rw [span] at placed
  exact ⟨message, member, kind, span, position, placed⟩

open Editor (Diagnostic Place) in
/-- Where a message has arguments, the first one is a text of one line that the source has
where the message points at, and the range of the message ends behind it. Left out are
messages about blocks that match nothing, about vocabularies that are not found and about
the end of the source. -/
theorem first_argument_quoted (opened : Opened files source file)
    (member : message ∈ (file.inspect files library).messages) {first : String}
    {more : List String} (arguments : message.arguments = first :: more)
    (quoting : message.kind ∉ [.epsilonClosure, .epsilonOptional, .cannotFindTokensFile])
    (inside : ¬(message.kind = .syntaxError ∧ first = "<EOF>")) :
    (∃ before behind, source = before ++ first ++ behind ∧
        before.utf8ByteSize = message.span.start) ∧
      '\n' ∉ first.toList ∧
      (Diagnostic.rangeOf message).stop = Place.ofPosition
        ((LineIndex.ofText source.toList).position
          (message.span.start + first.utf8ByteSize)) := by
  have points := opened.points member
  obtain ⟨_, position⟩ := points.placed opened.grammar_eq
  obtain ⟨shows, oneLine⟩ := points.quotes arguments quoting inside
  refine ⟨?_, oneLine, ?_⟩
  · obtain ⟨before, behind, whole, place⟩ := shows
    injection place with start
    exact ⟨before, behind, whole, start.symm⟩
  · have argument : message.argument 0 = first.toList := by
      rw [Message.argument, arguments]
      rfl
    rw [Diagnostic.rangeOf, position, argument, shows.range_eq oneLine]

open Editor (Diagnostic) in
/-- The escape is quoted, and the range ends two units behind its start. -/
theorem first_argument_quoted_escape :
    ∃ message ∈ ((ofSource "L.g4" escapedSource).inspect Check.noFiles none).messages,
      message.kind = .invalidEscapeSequence ∧ message.arguments = ["\\q"] ∧
      (∃ before behind, escapedSource = before ++ "\\q" ++ behind ∧
        before.utf8ByteSize = message.span.start) ∧
      (Diagnostic.rangeOf message).stop = ⟨1, 9⟩ := by
  have found : (((ofSource "L.g4" escapedSource).inspect Check.noFiles none).messages.any
      fun message =>
      message.kind == .invalidEscapeSequence && message.arguments == ["\\q"] &&
        message.span == ⟨26, 28⟩) = true := by
    decide +kernel
  obtain ⟨message, member, facts⟩ := any_eq_true.mp found
  simp only [Bool.and_eq_true, beq_iff_eq] at facts
  obtain ⟨⟨kind, arguments⟩, span⟩ := facts
  obtain ⟨quoted, _, stop⟩ :=
    first_argument_quoted (.ofSource "L.g4" escapedSource) member arguments
    (by rw [kind]; decide) (by rw [kind]; decide)
  refine ⟨message, member, kind, arguments, quoted, stop.trans ?_⟩
  rw [span]
  decide +kernel

end GrammarFile

end GrammarInspector
