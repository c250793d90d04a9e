import GrammarInspector.Message.Kind
import GrammarInspector.Text.LineIndex
import GrammarInspector.Text.Replace
import GrammarInspector.Text.Span

/-!
Messages about a grammar.
-/

namespace GrammarInspector

structure Message where
  kind : MessageKind
  fileName : String
  position : Position
  span : Span
  /-- What fills the text of the message. -/
  arguments : List String
deriving DecidableEq, Repr

namespace Message

def severity (message : Message) : Severity := message.kind.severity

/-- An argument, or nothing if there are not so many. -/
def argument (message : Message) (index : Nat) : List Char :=
  (message.arguments[index]?.getD "").toList

/-- The text of the message with its arguments filled in. The places of the third argument
are filled first and those of the first argument last. -/
def text (message : Message) : String :=
  let template := message.kind.template.toList
  let third := Text.replace "<arg3>".toList (message.argument 2) template
  let second := Text.replace "<arg2>".toList (message.argument 1) third
  String.ofList (Text.replace "<arg>".toList (message.argument 0) second)

/-- The message on one line: severity and number, file, place and text. -/
def line (message : Message) : String :=
  message.severity.name ++ "(" ++ message.kind.code.repr ++ "): " ++
    message.fileName ++ ":" ++
    message.position.line.repr ++ ":" ++ message.position.column.repr ++
      ": " ++ message.text

end Message

end GrammarInspector
