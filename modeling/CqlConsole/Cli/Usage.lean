import CqlConsole.Cli.Arguments
import CqlConsole.Cli.Report
import CqlConsole.Release
import CqlConsole.Text.Lines

/-!
# Usage

What the program says of itself: help, the number of its release, why a command
line is not carried out, and scripts that let a shell complete its commands.
-/

set_option autoImplicit false

namespace CqlConsole.Cli

def usage : String :=
  Text.joined "\n" [
    "An offline CQL shell with schema-aware completion.",
    "",
    "Usage: cqlsh [OPTIONS] [COMMAND]",
    "",
    "Commands:",
    "  version     Show version information",
    "  completion  Generate shell completion script",
    "  config      Show configuration (--show) or check it (--validate)",
    "  parse       Parse a statement and print it in the configured format",
    "  complete    Print completions for a partial statement, one per line",
    "  help        Print this message",
    "",
    "Options:",
    "  -c, --config <FILE>    Configuration file path",
    "  -s, --schema <FILE>    Schema snapshot used for completion",
    "      --format <FORMAT>  Output format (table, json, json-pretty, compact)",
    "      --no-color         Disable colored output",
    "      --no-history       Do not read or write the history file",
    "  -q, --quiet            Quiet mode (minimal output)",
    "  -v, --verbose          Verbose mode (detailed logging)",
    "      --vv               Very verbose mode (trace logging)",
    "  -h, --help             Print help",
    "  -V, --version          Print version",
    ""]

def Refusal.output : Refusal → String
  | help => usage
  | version => "cqlsh " ++ release ++ "\n"
  | _ => ""

def Refusal.message : Refusal → String
  | unknownArgument => "error: unexpected argument\n"
  | unknownCommand => "error: unrecognized subcommand\n"
  | invalidValue => "error: a value is required for an option but none was supplied\n"
  | missingArgument => "error: a required argument was not provided\n"
  | repeatedOption => "error: an option cannot be used multiple times\n"
  | surplusValue => "error: unexpected value for an option\n"
  | help | version => ""

def commandWords : String :=
  Text.joined " " (commands.map Prod.fst ++ ["help"])

def HostShell.script : HostShell → String
  | bash => "complete -W '" ++ commandWords ++ "' cqlsh\n"
  | zsh => "#compdef cqlsh\ncompadd " ++ commandWords ++ "\n"
  | fish => "complete -c cqlsh -f -a '" ++ commandWords ++ "'\n"
  | powershell =>
    "Register-ArgumentCompleter -Native -CommandName cqlsh -ScriptBlock \x7b\n  '" ++
      commandWords ++ "' -split ' '\n\x7d\n"

end CqlConsole.Cli
