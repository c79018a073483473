/-!
# Prompts

What the editor shows in front of a line, in front of further lines of the same
text, and during a search in the history.
-/

set_option autoImplicit false

namespace CqlConsole.Shell

def prompt (keyspace : Option String) : String :=
  match keyspace with
  | some name => "cqlsh:" ++ name ++ "> "
  | none => "cqlsh> "

def rightPrompt : String := ""

def modeIndicator : String := ""

def continuation : String := "   ... "

def searchPrompt (failing : Bool) (term : String) : String :=
  "(" ++ (if failing then "failing " else "") ++ "reverse-search: " ++ term ++ ") "

end CqlConsole.Shell
