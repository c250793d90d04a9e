import GrammarInspector.Server.Forms.Document

/-!
Shapes of the parameters of requests.
-/

namespace GrammarInspector.Server.Forms

open Shape

/-! ## Common parts -/

/-- A token for reports on the progress of a request. -/
def progress : List (Presence × String × Shape) := [may "workDoneToken" token]

/-- Tokens for reports on the progress of a request and for parts of its result. -/
def streaming : List (Presence × String × Shape) :=
  [may "workDoneToken" token, may "partialResultToken" token]

def ofDocument : List (Presence × String × Shape) := [need "textDocument" document]

def ofPlace : List (Presence × String × Shape) :=
  [need "textDocument" document, need "position" position]

/-! ## Requests about places -/

def placeRequest : Shape := parts (ofPlace ++ progress)

def streamingPlaceRequest : Shape := parts (ofPlace ++ streaming)

def referencesRequest : Shape :=
  parts (ofPlace ++ streaming ++
    [need "context" (.record [need "includeDeclaration" .flag])])

def completionRequest : Shape :=
  parts (ofPlace ++ streaming ++
    [may "context" (.record [need "triggerKind" .integer, may "triggerCharacter" .text])])

/-- A signature that was shown before. -/
def signature : Shape :=
  .record [need "label" .text, may "documentation" documentation,
    may "parameters"
      (.list (.record
        [need "label" (.either .text (.pair .natural)),
          may "documentation" documentation])),
    may "activeParameter" .natural]

def signatureRequest : Shape :=
  let shown : Shape := .record [need "signatures" (.list signature),
    may "activeSignature" .natural, may "activeParameter" .natural]
  parts (ofPlace ++ progress ++
    [may "context" (.record [need "triggerKind" .integer, may "triggerCharacter" .text,
      need "isRetrigger" .flag, may "activeSignatureHelp" shown])])

def renameRequest : Shape := parts (ofPlace ++ progress ++ [need "newName" .text])

/-- How text is to be laid out. Editors may say more than is asked. -/
def layout : Shape :=
  .named [need "tabSize" .natural, need "insertSpaces" .flag,
    may "trimTrailingWhitespace" .flag,
    may "insertFinalNewline" .flag, may "trimFinalNewlines" .flag]
    (.either .flag (.either .integer .text))

def typingRequest : Shape := parts (ofPlace ++ [need "ch" .text, need "options" layout])

/-! ## Requests about documents -/

def documentRequest : Shape := parts (ofDocument ++ streaming)

def deltaRequest : Shape :=
  parts (ofDocument ++ streaming ++ [need "previousResultId" .text])

def rangeRequest : Shape := parts (ofDocument ++ streaming ++ [need "range" range])

def hintRequest : Shape := parts (ofDocument ++ progress ++ [need "range" range])

def valueRequest : Shape :=
  parts (ofDocument ++ progress ++ [need "range" range,
    need "context" (.record [need "frameId" .integer, need "stoppedLocation" range])])

def actionRequest : Shape :=
  parts (ofDocument ++ streaming ++ [need "range" range,
    need "context" (.record [need "diagnostics" (.list diagnostic),
      may "only" (.list .text), may "triggerKind" .integer])])

def layoutRequest : Shape := parts (ofDocument ++ progress ++ [need "options" layout])

def rangeLayoutRequest : Shape :=
  parts (ofDocument ++ progress ++ [need "range" range, need "options" layout])

def selectionRequest : Shape :=
  parts (ofDocument ++ streaming ++ [need "positions" (.list position)])

def colorRequest : Shape :=
  parts (ofDocument ++ streaming ++ [need "range" range,
    need "color" (.record
      [need "red" .number, need "green" .number, need "blue" .number,
        need "alpha" .number])])

def diagnosticRequest : Shape :=
  parts (ofDocument ++ streaming ++ [may "identifier" .text,
    may "previousResultId" .text])

def savingRequest : Shape := .record (ofDocument ++ [need "reason" .integer])

/-! ## Requests about things that a server has told -/

def callItem : Shape :=
  .record [need "name" .text, need "kind" .integer, may "tags" (.list .integer),
    may "detail" .text, need "uri" .uri, need "range" range, need "selectionRange" range,
    may "data" .anything]

def typeItem : Shape :=
  .record [need "name" .text, need "kind" .integer, may "tags" .integer,
    may "detail" .text, need "uri" .uri, need "range" range, need "selectionRange" range,
      may "data" .anything]

def callRequest : Shape := parts (streaming ++ [need "item" callItem])

def typeRequest : Shape := parts (streaming ++ [need "item" typeItem])

def completionItem : Shape :=
  .record [need "label" .text,
    may "labelDetails" (.record [may "detail" .text, may "description" .text]),
    may "kind" .integer, may "detail" .text, may "documentation" documentation,
    may "deprecated" .flag, may "preselect" .flag, may "sortText" .text,
      may "filterText" .text,
    may "insertText" .text, may "insertTextFormat" .integer,
      may "insertTextMode" .integer,
    may "textEdit" (.either textEdit
      (.record [need "newText" .text, need "insert" range, need "replace" range])),
    may "additionalTextEdits" (.list textEdit), may "command" command,
    may "commitCharacters" (.list .text), may "data" .anything,
      may "tags" (.list .integer)]

def codeAction : Shape :=
  .record [need "title" .text, may "kind" .text, may "diagnostics" (.list diagnostic),
    may "edit" workspaceEdit, may "command" command, may "isPreferred" .flag,
    may "disabled" (.record [need "reason" .text]), may "data" .anything]

def codeLens : Shape :=
  .record [need "range" range, may "command" command, may "data" .anything]

def documentLink : Shape :=
  .record [need "range" range, may "target" .uri, may "tooltip" .text,
    may "data" .anything]

def inlayHint : Shape :=
  let part : Shape := .record [need "value" .text, may "tooltip" documentation,
    may "location" location, may "command" command]
  .record [need "position" position, need "label" (.either .text (.list part)),
    may "kind" .integer, may "textEdits" (.list textEdit), may "tooltip" documentation,
    may "paddingLeft" .flag, may "paddingRight" .flag, may "data" .anything]

def workspaceSymbol : Shape :=
  .record [need "name" .text, need "kind" .integer, may "tags" (.list .integer),
    may "containerName" .text, need "location" (.either location document),
    may "data" .anything]

/-! ## Requests about the workspace -/

def symbolRequest : Shape := parts (streaming ++ [need "query" .text])

def commandRequest : Shape :=
  parts (progress ++ [need "command" .text, (.omittable, "arguments", .list .anything)])

def workspaceDiagnosticRequest : Shape :=
  parts (streaming ++ [may "identifier" .text,
    need "previousResultIds" (.list (.record [need "uri" .uri, need "value" .text]))])

/-- Files that are created or deleted; they are named by any texts. -/
def filesRequest : Shape := .record [need "files" (.list (.record [need "uri" .text]))]

def renamedFilesRequest : Shape :=
  .record [need "files" (.list (.record [need "oldUri" .text, need "newUri" .text]))]

/-! ## News -/

def openedNews : Shape := .record [need "textDocument" openedDocument]

def savedNews : Shape := .record (ofDocument ++ [may "text" .text])

def readyNews : Shape := .record []

end GrammarInspector.Server.Forms
