import CqlConsole.Text.Lines
import CqlConsole.Token.Basic

/-!
# INSERT statements

The target table, then either columns and values or a JSON text, then the
optional clauses. Values are kept as the tokens that were typed. The compact
text of a statement is CQL again, on one line and with one space between parts.
-/

set_option autoImplicit false

namespace CqlConsole.Insert

open CqlConsole.Text

structure Statement where
  keyspace : Option String := none
  table : String := ""
  columns : List String := []
  values : List Token := []
  json : Bool := false
  payload : Option String := none
  ifNotExists : Bool := false
  ttl : Option Token := none
  timestamp : Option Token := none
  deriving DecidableEq, Repr

namespace Statement

def qualifiedTable (s : Statement) : String :=
  match s.keyspace with
  | some keyspace => keyspace ++ "." ++ s.table
  | none => s.table

def assignments (s : Statement) : List (String × Token) :=
  s.columns.zip s.values

def jsonText? (s : Statement) : Option String :=
  if s.json then s.payload else none

def bodyText (s : Statement) : String :=
  match s.jsonText? with
  | some payload => " JSON " ++ payload
  | none =>
    " (" ++ joined ", " s.columns ++ ") VALUES (" ++
      joined ", " (s.values.map Token.text) ++ ")"

def options (s : Statement) : List String :=
  (s.ttl.map fun t => "TTL " ++ t.text).toList ++
    (s.timestamp.map fun t => "TIMESTAMP " ++ t.text).toList

def usingText (s : Statement) : String :=
  match s.options with
  | [] => ""
  | options => " USING " ++ joined " AND " options

def text (s : Statement) : String :=
  "INSERT INTO " ++ s.qualifiedTable ++ s.bodyText ++
    (if s.ifNotExists then " IF NOT EXISTS" else "") ++ s.usingText ++ ";"

end Statement

end CqlConsole.Insert
