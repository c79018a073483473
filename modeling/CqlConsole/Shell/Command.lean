import CqlConsole.Text.Blank
import CqlConsole.Text.Quoted

/-!
# Commands of the shell

A few words are commands of the shell itself and are not read as CQL. Their
letters may have either case, and semicolons and blanks after them are ignored.
-/

set_option autoImplicit false

namespace CqlConsole.Shell

open CqlConsole.Text

inductive Command where
  | help
  | exit
  deriving DecidableEq, Repr

def commandWord (line : List Char) : List Char :=
  lower (dropEndWhile isBlank (dropEndWhile (· == ';') (trim line)))

def command? (line : String) : Option Command :=
  let word := commandWord line.toList
  if word = "help".toList ∨ word = "?".toList then some .help
  else if word = "exit".toList ∨ word = "quit".toList then some .exit
  else none

def helpText : String :=
  "Statements are parsed and shown in the configured output format.\n" ++
  "Supported: INSERT INTO [keyspace.]table (columns) VALUES (values)\n" ++
  "           [IF NOT EXISTS] [USING TTL n [AND TIMESTAMP n]];\n" ++
  "           INSERT INTO [keyspace.]table JSON 'document';\n" ++
  "\n" ++
  "Shell commands:\n" ++
  "  HELP           show this text\n" ++
  "  EXIT, QUIT     leave the shell\n" ++
  "\n" ++
  "Press Tab to complete keywords, keyspaces, tables and columns."

end CqlConsole.Shell
