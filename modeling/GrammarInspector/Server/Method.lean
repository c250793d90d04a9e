import GrammarInspector.Server.Forms.Client
import GrammarInspector.Server.Forms.Requests

/-!
Methods that an editor can call.
-/

namespace GrammarInspector.Server

inductive Question where
  | hover
  | definition
  | references
deriving DecidableEq, Repr

/-- A call by what it is for. -/
inductive Method where
  /-- The editor presents itself and asks what the server can do. -/
  | handshake
  | ready
  | shutdown
  | exit
  /-- A request is not wanted any more; requests are answered at once, so this comes too
  late. -/
  | cancel
  | opened
  | saved
  | question (question : Question)
  /-- News that change nothing here. -/
  | news
  /-- A request that this server does not answer. -/
  | unanswered (params : Shape)

namespace Method

def served : List (String × Method) :=
  [("initialize", .handshake), ("initialized", .ready), ("shutdown", .shutdown),
    ("exit", .exit), ("$/cancelRequest", .cancel), ("textDocument/didOpen", .opened),
    ("textDocument/didSave", .saved), ("textDocument/hover", .question .hover),
    ("textDocument/definition", .question .definition),
    ("textDocument/references", .question .references)]

def newsNames : List String :=
  ["textDocument/didChange", "textDocument/didClose", "textDocument/willSave",
    "workspace/didChangeConfiguration", "workspace/didChangeWatchedFiles",
    "workspace/didChangeWorkspaceFolders", "workspace/didCreateFiles",
      "workspace/didRenameFiles",
    "workspace/didDeleteFiles"]

open Forms in
/-- Requests that this server does not answer, with the shapes of their parameters. -/
def unansweredRequests : List (String × Shape) :=
  [("textDocument/declaration", streamingPlaceRequest),
    ("textDocument/typeDefinition", streamingPlaceRequest),
    ("textDocument/implementation", streamingPlaceRequest),
    ("textDocument/documentHighlight", streamingPlaceRequest),
    ("textDocument/moniker", streamingPlaceRequest),
    ("textDocument/prepareCallHierarchy", placeRequest),
    ("textDocument/prepareTypeHierarchy", placeRequest),
    ("textDocument/linkedEditingRange", placeRequest),
    ("textDocument/prepareRename", .record ofPlace),
      ("textDocument/rename", renameRequest),
    ("textDocument/completion", completionRequest),
    ("textDocument/signatureHelp", signatureRequest),
    ("textDocument/onTypeFormatting", typingRequest),
      ("textDocument/documentLink", documentRequest),
    ("textDocument/codeLens", documentRequest),
      ("textDocument/foldingRange", documentRequest),
    ("textDocument/documentSymbol", documentRequest),
    ("textDocument/documentColor", documentRequest),
      ("textDocument/diagnostic", diagnosticRequest),
    ("textDocument/semanticTokens/full", documentRequest),
    ("textDocument/semanticTokens/full/delta", deltaRequest),
    ("textDocument/semanticTokens/range", rangeRequest),
      ("textDocument/inlayHint", hintRequest),
    ("textDocument/inlineValue", valueRequest),
      ("textDocument/codeAction", actionRequest),
    ("textDocument/formatting", layoutRequest),
    ("textDocument/rangeFormatting", rangeLayoutRequest),
    ("textDocument/selectionRange", selectionRequest),
    ("textDocument/colorPresentation", colorRequest),
    ("textDocument/willSaveWaitUntil", savingRequest),
      ("callHierarchy/incomingCalls", callRequest),
    ("callHierarchy/outgoingCalls", callRequest),
      ("typeHierarchy/supertypes", typeRequest),
    ("typeHierarchy/subtypes", typeRequest), ("completionItem/resolve", completionItem),
    ("codeAction/resolve", codeAction), ("codeLens/resolve", codeLens),
    ("documentLink/resolve", documentLink), ("inlayHint/resolve", inlayHint),
    ("workspaceSymbol/resolve", workspaceSymbol), ("workspace/symbol", symbolRequest),
    ("workspace/executeCommand", commandRequest),
    ("workspace/diagnostic", workspaceDiagnosticRequest),
      ("workspace/willCreateFiles", filesRequest),
    ("workspace/willRenameFiles", renamedFilesRequest),
      ("workspace/willDeleteFiles", filesRequest)]

def table : List (String × Method) :=
  served ++ newsNames.map (·, .news) ++
    unansweredRequests.map fun (name, params) => (name, .unanswered params)

def ofName? (name : String) : Option Method := table.lookup name

end Method

end GrammarInspector.Server
