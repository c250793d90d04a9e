import GrammarInspector.Server.Shape

/-!
Shapes of what editors say about documents: places in them, remarks about them, and
changes to them.
-/

namespace GrammarInspector.Server.Forms

open Shape

/-! ## Places -/

def position : Shape := .record [need "line" .natural, need "character" .natural]

def range : Shape := .record [need "start" position, need "end" position]

def document : Shape := .record [need "uri" .uri]

def location : Shape := .record [need "uri" .uri, need "range" range]

/-- A document that is opened, with its text. -/
def openedDocument : Shape :=
  .record [need "uri" .uri, need "languageId" .text, need "version" .integer,
    need "text" .text]

/-! ## Values of several kinds -/

/-- A name that is a number or a text. -/
def token : Shape := .either .integer .text

def markup : Shape :=
  .record [need "kind" (.word ["plaintext", "markdown"]), need "value" .text]

def documentation : Shape := .either .text markup

def command : Shape :=
  .record [need "title" .text, need "command" .text, may "arguments" (.list .anything)]

/-! ## Remarks -/

def diagnostic : Shape :=
  .record [need "range" range, may "severity" .integer, may "code" token,
    may "codeDescription" (.record [need "href" .uri]), may "source" .text,
      need "message" .text,
    may "relatedInformation"
      (.list (.record [need "location" location, need "message" .text])),
    may "tags" (.list .integer), may "data" .anything]

/-! ## Changes -/

def textEdit : Shape := .record [need "range" range, need "newText" .text]

def annotatedEdit : Shape :=
  parts [need "range" range, need "newText" .text, need "annotationId" .text]

def documentEdit : Shape :=
  .record [need "textDocument" (.record [need "uri" .uri, may "version" .integer]),
    need "edits" (.list (.either textEdit annotatedEdit))]

/-- Something done to a file: it is created, renamed or deleted. -/
def fileOperation : Shape :=
  let create := parts [need "kind" (.word ["create"]), need "uri" .uri,
    may "options" (.record [may "overwrite" .flag, may "ignoreIfExists" .flag]),
    may "annotationId" .text]
  let rename := parts [need "kind" (.word ["rename"]), need "oldUri" .uri,
      need "newUri" .uri,
    may "options" (.record [may "overwrite" .flag, may "ignoreIfExists" .flag]),
    may "annotationId" .text]
  let delete := parts [need "kind" (.word ["delete"]), need "uri" .uri,
    may "options"
      (.record [may "recursive" .flag, may "ignoreIfNotExists" .flag,
        may "annotationId" .text])]
  .either create (.either rename delete)

def workspaceEdit : Shape :=
  .record [mayEnd "changes" (.byUri (.list textEdit)),
    may "documentChanges"
      (.either (.list documentEdit) (.list (.either fileOperation documentEdit))),
    may "changeAnnotations"
      (.byName
        (.record [need "label" .text, may "needsConfirmation" .flag,
          may "description" .text]))]

end GrammarInspector.Server.Forms
