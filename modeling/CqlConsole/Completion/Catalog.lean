import CqlConsole.Error

/-!
# Catalogs

A catalog answers questions about names: which keyspaces there are, which
tables a keyspace has, which columns a table has. An answer can be an error,
which completion passes on and otherwise treats as no names.
-/

set_option autoImplicit false

namespace CqlConsole.Completion

inductive Query where
  | keyspaces
  | tables (keyspace : String)
  | columns (keyspace table : String)
  deriving DecidableEq, Repr

def Query.noun : Query → String
  | keyspaces => "keyspace"
  | tables _ => "table"
  | columns _ _ => "column"

abbrev Catalog := Query → Except ConsoleError (List String)

end CqlConsole.Completion
