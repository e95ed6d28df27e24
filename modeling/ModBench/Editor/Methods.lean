/-!
Names of the methods that are known but not served.
-/

set_option autoImplicit false
set_option relaxedAutoImplicit false

namespace ModBench.Editor

/-- Methods that ask for an answer and are not served. -/
def unservedRequests : List String :=
  ["textDocument/willSaveWaitUntil", "textDocument/declaration", "textDocument/definition",
    "textDocument/typeDefinition", "textDocument/implementation", "textDocument/references",
    "textDocument/prepareCallHierarchy", "callHierarchy/incomingCalls",
    "callHierarchy/outgoingCalls", "textDocument/prepareTypeHierarchy",
    "typeHierarchy/supertypes", "typeHierarchy/subtypes", "textDocument/documentHighlight",
    "textDocument/documentLink", "documentLink/resolve", "textDocument/hover",
    "textDocument/codeLens", "codeLens/resolve", "textDocument/foldingRange",
    "textDocument/selectionRange", "textDocument/documentSymbol",
    "textDocument/semanticTokens/full", "textDocument/semanticTokens/full/delta",
    "textDocument/semanticTokens/range", "textDocument/inlineValue", "textDocument/inlayHint",
    "inlayHint/resolve", "textDocument/moniker", "textDocument/completion",
    "completionItem/resolve", "textDocument/diagnostic", "workspace/diagnostic",
    "textDocument/signatureHelp", "textDocument/codeAction", "codeAction/resolve",
    "textDocument/documentColor", "textDocument/colorPresentation", "textDocument/formatting",
    "textDocument/rangeFormatting", "textDocument/onTypeFormatting", "textDocument/rename",
    "textDocument/prepareRename", "textDocument/linkedEditingRange", "workspace/symbol",
    "workspaceSymbol/resolve", "workspace/willCreateFiles", "workspace/willRenameFiles",
    "workspace/willDeleteFiles", "workspace/executeCommand"]

/-- Methods that ask for no answer and are not served. -/
def unservedNotifications : List String :=
  ["textDocument/didChange", "textDocument/willSave", "workspace/didChangeConfiguration",
    "workspace/didChangeWorkspaceFolders", "workspace/didCreateFiles",
    "workspace/didRenameFiles", "workspace/didDeleteFiles", "workspace/didChangeWatchedFiles",
    "$/cancelRequest"]

end ModBench.Editor
