import GrammarInspector.Server.Shape

/-!
The shape of what an editor says of itself when it starts, above all what it is capable
of.
-/

namespace GrammarInspector.Server.Forms

open Shape

/-! ## Common parts -/

/-- What is said of a capability that can be registered later. -/
def registration : Shape := .record [may "dynamicRegistration" .flag]

def refreshing : Shape := .record [may "refreshSupport" .flag]

def symbolKinds : Shape := .record [may "valueSet" (.list .integer)]

/-- Tags that an editor knows. It may only say whether it knows any. -/
def tags : Shape := .either .flag (.record [need "valueSet" (.list .integer)])

/-- Properties that can be asked for later. -/
def resolving : Shape := .record [need "properties" (.list .text)]

def markupKinds : Shape := .list (.word ["plaintext", "markdown"])

/-! ## The workspace -/

def workspaceEditing : Shape :=
  .record [may "documentChanges" .flag,
    may "resourceOperations" (.list (.word ["create", "rename", "delete"])),
    may "failureHandling"
      (.word ["abort", "transactional", "textOnlyTransactional", "undo"]),
    may "normalizesLineEndings" .flag,
    may "changeAnnotationSupport" (.record [may "groupsOnLabel" .flag])]

def workspaceSymbols : Shape :=
  .record [may "dynamicRegistration" .flag, may "symbolKind" symbolKinds,
    mayEnd "tagSupport" tags, may "resolveSupport" resolving]

def fileOperations : Shape :=
  .record [may "dynamicRegistration" .flag, may "didCreate" .flag, may "willCreate" .flag,
    may "didRename" .flag, may "willRename" .flag, may "didDelete" .flag,
      may "willDelete" .flag]

def workspaceCapabilities : Shape :=
  .record [may "applyEdit" .flag, may "workspaceEdit" workspaceEditing,
    may "didChangeConfiguration" registration,
    may "didChangeWatchedFiles"
      (.record [may "dynamicRegistration" .flag, may "relativePatternSupport" .flag]),
    may "symbol" workspaceSymbols, may "executeCommand" registration,
      may "workspaceFolders" .flag,
    may "configuration" .flag, may "semanticTokens" refreshing, may "codeLens" refreshing,
    may "fileOperations" fileOperations, may "inlineValue" refreshing,
      may "inlayHint" refreshing,
    may "diagnostic" refreshing]

/-! ## Documents -/

def synchronization : Shape :=
  .record [may "dynamicRegistration" .flag, may "willSave" .flag,
    may "willSaveWaitUntil" .flag, may "didSave" .flag]

def completionItems : Shape :=
  .record [may "snippetSupport" .flag, may "commitCharactersSupport" .flag,
    may "documentationFormat" markupKinds, may "deprecatedSupport" .flag,
    may "preselectSupport" .flag, mayEnd "tagSupport" tags,
      may "insertReplaceSupport" .flag,
    may "resolveSupport" resolving,
    may "insertTextModeSupport" (.record [need "valueSet" (.list .integer)]),
    may "labelDetailsSupport" .flag]

def completion : Shape :=
  .record [may "dynamicRegistration" .flag, may "completionItem" completionItems,
    may "completionItemKind" (.record [may "valueSet" (.list .integer)]),
    may "contextSupport" .flag, may "insertTextMode" .integer,
    may "completionList" (.record [may "itemDefaults" (.list .text)])]

def hovering : Shape :=
  .record [may "dynamicRegistration" .flag, may "contentFormat" markupKinds]

def signatureHelp : Shape :=
  .record [may "dynamicRegistration" .flag,
    may "signatureInformation"
      (.record [may "documentationFormat" markupKinds,
        may "parameterInformation" (.record [may "labelOffsetSupport" .flag]),
        may "activeParameterSupport" .flag]),
    may "contextSupport" .flag]

def documentSymbols : Shape :=
  .record [may "dynamicRegistration" .flag, may "symbolKind" symbolKinds,
    may "hierarchicalDocumentSymbolSupport" .flag, mayEnd "tagSupport" tags]

/-- Going to another place. -/
def going : Shape := .record [may "dynamicRegistration" .flag, may "linkSupport" .flag]

def codeActions : Shape :=
  .record [may "dynamicRegistration" .flag,
    may "codeActionLiteralSupport"
      (.record [need "codeActionKind" (.record [need "valueSet" (.list .text)])]),
    may "isPreferredSupport" .flag, may "disabledSupport" .flag, may "dataSupport" .flag,
    may "resolveSupport" resolving, may "honorsChangeAnnotations" .flag]

def renameSupport : Shape :=
  .record [may "dynamicRegistration" .flag, may "prepareSupport" .flag,
    may "prepareSupportDefaultBehavior" .integer, may "honorsChangeAnnotations" .flag]

def publishing : Shape :=
  .record [may "relatedInformation" .flag, mayEnd "tagSupport" tags,
    may "versionSupport" .flag,
    may "codeDescriptionSupport" .flag, may "dataSupport" .flag]

def folding : Shape :=
  .record [may "dynamicRegistration" .flag, may "rangeLimit" .natural,
    may "lineFoldingOnly" .flag,
    may "foldingRangeKind"
      (.record [may "valueSet" (.list (.word ["comment", "imports", "region"]))]),
    may "foldingRange" (.record [may "collapsedText" .flag])]

def semanticTokens : Shape :=
  let requests : Shape :=
    .record [may "range" .flag, may "full" (.either .flag (parts [may "delta" .flag]))]
  .record [may "dynamicRegistration" .flag, need "requests" requests,
    need "tokenTypes" (.list .text), need "tokenModifiers" (.list .text),
    need "formats" (.list .text), may "overlappingTokenSupport" .flag,
    may "multilineTokenSupport" .flag, may "serverCancelSupport" .flag,
    may "augmentsSyntaxTokens" .flag]

def documentCapabilities : Shape :=
  .record [may "synchronization" synchronization, may "completion" completion,
    may "hover" hovering, may "signatureHelp" signatureHelp,
      may "references" registration,
    may "documentHighlight" registration, may "documentSymbol" documentSymbols,
    may "formatting" registration, may "rangeFormatting" registration,
    may "onTypeFormatting" registration, may "declaration" going, may "definition" going,
    may "typeDefinition" going, may "implementation" going, may "codeAction" codeActions,
    may "codeLens" registration,
    may "documentLink"
      (.record [may "dynamicRegistration" .flag, may "tooltipSupport" .flag]),
    may "colorProvider" registration, may "rename" renameSupport,
    may "publishDiagnostics" publishing, may "foldingRange" folding,
    may "selectionRange" registration, may "linkedEditingRange" registration,
    may "callHierarchy" registration, may "semanticTokens" semanticTokens,
    may "moniker" registration, may "typeHierarchy" registration,
      may "inlineValue" registration,
    may "inlayHint" (.record [may "dynamicRegistration" .flag,
      may "resolveSupport" resolving]),
    may "diagnostic"
      (.record [may "dynamicRegistration" .flag, may "relatedDocumentSupport" .flag])]

/-! ## Other capabilities -/

def notebookCapabilities : Shape :=
  .record [need "synchronization"
    (.record [may "dynamicRegistration" .flag, may "executionSummaryReport" .flag])]

def windowCapabilities : Shape :=
  .record [may "workDoneProgress" .flag,
    may "showMessage"
      (.record [may "messageActionItem"
        (.record [may "additionalPropertiesSupport" .flag])]),
    may "showDocument" (.record [need "support" .flag])]

def generalCapabilities : Shape :=
  .record [may "regularExpressions" (.record [need "engine" .text, may "version" .text]),
    may "markdown"
      (.record [need "parser" .text, may "version" .text,
        may "allowedTags" (.list .text)]),
    may "staleRequestSupport"
      (.record [need "cancel" .flag, need "retryOnContentModified" (.list .text)]),
    may "positionEncodings" (.list .text)]

def capabilities : Shape :=
  .record [may "workspace" workspaceCapabilities, may "textDocument" documentCapabilities,
    may "notebookDocument" notebookCapabilities, may "window" windowCapabilities,
    may "general" generalCapabilities, may "experimental" .anything]

/-! ## The editor -/

def editor : Shape :=
  .record [may "processId" .natural, may "rootPath" .text, mayEnd "rootUri" .uri,
    may "initializationOptions" .anything, need "capabilities" capabilities,
    mayEnd "trace" (.word ["off", "messages", "verbose"]),
    may "workspaceFolders" (.list (.record [need "uri" .uri, need "name" .text])),
    may "clientInfo" (.record [need "name" .text, may "version" .text]),
      may "locale" .text]

end GrammarInspector.Server.Forms
