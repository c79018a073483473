/-!
# Words of a command line

A word that starts with two hyphens is the long name of an option, perhaps with
a value after an equals sign; one that starts with one hyphen is a group of
short names. Two hyphens alone end the options, and one alone is a plain word.
-/

set_option autoImplicit false

namespace CqlConsole.Cli

inductive Word where
  | separator
  | long (name : String) (value : Option String)
  | short (letters : List Char)
  | plain (text : String)
  deriving DecidableEq, Repr

namespace Word

def longOf (s : List Char) : Word :=
  let name := s.takeWhile (· != '=')
  match s.drop name.length with
  | [] => .long (String.ofList name) none
  | _ :: value => .long (String.ofList name) (some (String.ofList value))

def ofText (text : String) : Word :=
  match text.toList with
  | ['-', '-'] => .separator
  | '-' :: '-' :: s => longOf s
  | ['-'] => .plain text
  | '-' :: s => .short s
  | _ => .plain text

end Word

end CqlConsole.Cli
