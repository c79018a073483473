import CqlConsole.Render.Output
import CqlConsole.Shell.Command
import CqlConsole.Statement

/-!
# Sessions

A session answers one text at a time: with nothing for a blank one, with help
or the end for a command of the shell, and else with the statement in the
format of the session.
-/

set_option autoImplicit false

namespace CqlConsole.Shell

inductive Answer where
  | output (text : String)
  | nothing
  | leave
  deriving DecidableEq, Repr

def renderInput (format : OutputFormat) (colours : Bool) (input : String) :
    Except SyntaxError String :=
  parse input >>= Render.statementText format colours

def answer (format : OutputFormat) (colours : Bool) (line : String) :
    Except SyntaxError Answer :=
  let text := Text.trim line.toList
  if text.isEmpty then .ok .nothing
  else
    match command? line with
    | some .exit => .ok .leave
    | some .help => .ok (.output helpText)
    | none => (renderInput format colours (String.ofList text)).map .output

end CqlConsole.Shell
