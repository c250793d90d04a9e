import GrammarInspector.Command.Arguments
import GrammarInspector.Server.Basic

/-!
What the program says of itself.
-/

namespace GrammarInspector.Command

def versionLine : String := Server.name ++ " " ++ Server.version ++ "\n"

def usage : HelpTopic → String
  | .program => "Usage: antlr4ls [OPTIONS] [COMMAND]"
  | .serve => "Usage: antlr4ls lsp [OPTIONS]"
  | .check => "Usage: antlr4ls check [OPTIONS] <FILES>..."

def logLevelHelp : String :=
  "      --log-level <LOG_LEVEL>  Log filter written to stderr"

def libraryHelp : String :=
  "      --lib <LIB>              Directory searched for imported grammars and .tokens files"

def helpHelp : String := "  -h, --help                   Print help"

def helpLines : HelpTopic → List String
  | .program =>
    ["ANTLR4 grammar language server", "", usage .program, "", "Commands:",
      "  lsp    Start the LSP server (communicates via stdin/stdout)",
      "  check  Analyze grammar files and report diagnostics",
      "  help   Print this message or the help of the given subcommand(s)",
        "", "Options:",
      logLevelHelp, helpHelp, "  -V, --version                Print version"]
  | .serve =>
    ["Start the LSP server (communicates via stdin/stdout)", "", usage .serve,
      "", "Options:", libraryHelp, logLevelHelp, helpHelp]
  | .check =>
    ["Analyze grammar files and report diagnostics", "", usage .check, "", "Arguments:",
      "  <FILES>...  Grammar files to analyze", "", "Options:",
      "      --json                   Output diagnostics as JSON (one object per line) instead of " ++
        "human-readable format",
      "      --no-color               Disable colorized output",
      libraryHelp, logLevelHelp, helpHelp]

def helpText (topic : HelpTopic) : String := "\n".intercalate (helpLines topic) ++ "\n"

def faultText (fault : UsageFault) : String :=
  "error: " ++ fault.message ++ "\n\n" ++ usage .program ++
    "\n\nFor more information, try '--help'.\n"

end GrammarInspector.Command
