import CqlConsole.Insert.Statement
import CqlConsole.Literal
import CqlConsole.Render.Grid

/-!
# Output of statements

A statement is shown as a grid of its columns and decoded values, as JSON on
one line or on several, or as CQL in compact form.
-/

set_option autoImplicit false

namespace CqlConsole

inductive OutputFormat where
  | table
  | json
  | jsonPretty
  | compact
  deriving DecidableEq, Repr

namespace OutputFormat

def name : OutputFormat → String
  | table => "table"
  | json => "json"
  | jsonPretty => "json-pretty"
  | compact => "compact"

def all : List OutputFormat := [table, json, jsonPretty, compact]

def ofName? (name : String) : Option OutputFormat :=
  all.find? fun f => f.name == name

def isJson : OutputFormat → Bool
  | json | jsonPretty => true
  | _ => false

def read (s : String) : Except SettingsError OutputFormat :=
  let word := String.ofList (Text.lower s.toList)
  if word = "table" then .ok table
  else if word = "json" then .ok json
  else if word = "json-pretty" ∨ word = "jsonpretty" then .ok jsonPretty
  else if word = "compact" then .ok compact
  else .error (.invalidValue "display.format" s)

end OutputFormat

namespace Render

open CqlConsole.Insert

def toJson (s : Statement) : Except SyntaxError Json := do
  let values ← Literal.ofTokens s.values
  let payload := (s.payload.map fun p => ("payload", Json.string p)).toList
  pure (.object ([
    ("columns", Json.array (s.columns.map Json.string)),
    ("if_not_exists", Json.bool s.ifNotExists),
    ("json", Json.bool s.json),
    ("keyspace", Json.ofOption s.keyspace)] ++ payload ++ [
    ("statement", Json.string "insert"),
    ("table", Json.string s.table),
    ("timestamp", Json.ofOption (s.timestamp.map Token.text)),
    ("ttl", Json.ofOption (s.ttl.map Token.text)),
    ("values", Json.array (values.map Literal.toJson))]))

def defaultWidth : Nat := 60

def assignmentCells (a : String × Token) : Except SyntaxError (List String) := do
  let v ← Literal.ofToken a.2
  pure [a.1, v.display, v.typeName]

def assignmentRows : List (String × Token) → Except SyntaxError (List (List String))
  | [] => .ok []
  | a :: rest => do
    let row ← assignmentCells a
    let rows ← assignmentRows rest
    pure (row :: rows)

def cells (s : Statement) : Except SyntaxError (List String × List (List String)) :=
  match s.jsonText? with
  | some payload => .ok (["table", "json"], [[s.qualifiedTable, payload]])
  | none => (assignmentRows s.assignments).map fun rows => (["column", "value", "type"], rows)

def rowOf (width : Nat) (texts : List String) : Row :=
  Row.ofTexts (texts.mapIdx fun i t => if i = 1 then wrap width t.toList else t.toList)

def clauses (s : Statement) : List String :=
  (if s.ifNotExists then ["IF NOT EXISTS"] else []) ++ s.options

def tableText (colours : Bool) (width : Nat) (s : Statement) : Except SyntaxError String := do
  let (header, rows) ← cells s
  let grid := gridText colours (rowOf width header) (rows.map (rowOf width))
  let below := if (clauses s).isEmpty then "" else "\n" ++ Text.joined " | " (clauses s)
  pure (s.qualifiedTable ++ "\n" ++ String.ofList grid ++ below)

def statementText (format : OutputFormat) (colours : Bool) (s : Statement) :
    Except SyntaxError String :=
  match format with
  | .table => tableText colours defaultWidth s
  | .json => (toJson s).map Json.compact
  | .jsonPretty => (toJson s).map Json.pretty
  | .compact => .ok s.text

end Render

end CqlConsole
