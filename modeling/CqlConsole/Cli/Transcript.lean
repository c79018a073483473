import CqlConsole.Cli.Run

/-!
# Transcripts

What a run leaves behind when it is over: the text on the output, the text of
warnings, log lines and the error, and the exit code.
-/

set_option autoImplicit false

namespace CqlConsole.Cli

open CqlConsole.Settings

def Event.outputText (script : HostShell → String) : Event → String
  | output line => line ++ "\n"
  | Event.script shell => script shell
  | _ => ""

def Event.warningText : Event → String
  | warning line => line ++ "\n"
  | _ => ""

/-- The text of an event beside the output, with the lines that a log shows. Lines with the
time are not part of it. -/
def Event.diagnosticText (log : Logging) : Event → String
  | warning line => line ++ "\n"
  | Event.log level message =>
    if !log.timestamps && log.level.shows level then logLine level message ++ "\n" else ""
  | _ => ""

def transcript (text : Event → String) (events : List Event) : String :=
  events.foldr (fun e rest => text e ++ rest) ""

namespace Outcome

def output (o : Outcome) (script : HostShell → String) : String :=
  transcript (Event.outputText script) o.report.events

def warnings (o : Outcome) : String :=
  transcript Event.warningText o.report.events

def errorText (o : Outcome) : String :=
  match o.report.result with
  | .ok _ => ""
  | .error e => "Error: " ++ e.message ++ "\n"

def diagnostics (o : Outcome) : String :=
  let text :=
    match o.settings with
    | some s => Event.diagnosticText s.logging
    | none => Event.warningText
  transcript text o.report.events ++ o.errorText

def exitCode (o : Outcome) : Nat :=
  match o.report.result with
  | .ok _ => 0
  | .error _ => 1

end Outcome

def Refusal.exitCode : Refusal → Nat
  | help | version => 0
  | _ => 2

end CqlConsole.Cli
