import TdSyntax.Command.Arguments

/-!
# Help

The texts that explain how the command line is used.
-/

namespace TdSyntax.Command

def version : String := "tablegen 0.1.0"

def Subcommand.about : Subcommand → String
  | .parse => "Print the syntax tree, then any diagnostics"
  | .tokens => "Print every token, trivia included, with its line and column"
  | .check => "Check a file and everything it includes"

def helpAbout : String := "Print this message or the help of the given subcommand(s)"

def commonOptions : List String :=
  ["  -v, --verbose...  Verbosity level", "  -h, --help        Print help"]

def fileHelp : List String := ["Arguments:", "  <PATH>  ", ""]

def usage (form : String) : List String := ["Usage: tablegen " ++ form, ""]

def help : HelpTopic → List String
  | .program =>
      ["Parser front end for TableGen record descriptions", ""] ++
        usage "[OPTIONS] <COMMAND>" ++
        ["Commands:",
          "  parse   " ++ Subcommand.parse.about,
          "  tokens  " ++ Subcommand.tokens.about,
          "  check   " ++ Subcommand.check.about,
          "  help    " ++ helpAbout, "",
          "Options:"] ++ commonOptions ++ ["  -V, --version     Print version"]
  | .subcommand .check =>
      [Subcommand.check.about, ""] ++ usage "check [OPTIONS] <PATH>" ++ fileHelp ++
        ["Options:",
          "  -I, --include-dir <DIR>  Directory to search for included files",
          "  -v, --verbose...         Verbosity level",
          "  -h, --help               Print help"]
  | .subcommand subcommand =>
      [subcommand.about, ""] ++ usage (subcommand.name ++ " [OPTIONS] <PATH>") ++ fileHelp ++
        "Options:" :: commonOptions
  | .help =>
      [helpAbout, ""] ++ usage "help [COMMAND]..." ++
        ["Arguments:", "  [COMMAND]...  Print help for the subcommand(s)"]

end TdSyntax.Command
