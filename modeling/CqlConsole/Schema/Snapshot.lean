import CqlConsole.Completion.Catalog
import CqlConsole.Release
import CqlConsole.Schema.Address
import CqlConsole.Schema.Version
import CqlConsole.Text.Quoted

/-!
# Schema snapshots

A snapshot describes a cluster: what its node says of itself, and the names of
its keyspaces, tables and columns. A name is looked up as it was typed, and if
there is none, under the name that the typed text stands for. A valid snapshot
has no two keyspaces of one name and no two tables of one name in a keyspace.
-/

set_option autoImplicit false

namespace CqlConsole.Schema

structure Cluster where
  name : String := "Offline Cluster"
  releaseVersion : Option String := none
  cqlVersion : Option String := none
  nativeProtocol : Option String := none
  address : Option Address := none
  deriving DecidableEq, Repr

structure Table where
  name : String
  columns : List String := []
  deriving DecidableEq, Repr

structure Keyspace where
  name : String
  tables : List Table := []
  deriving DecidableEq, Repr

structure Snapshot where
  cluster : Cluster := {}
  keyspaces : List Keyspace := []
  deriving DecidableEq, Repr

namespace Cluster

def version (c : Cluster) : Except SchemaError (Option Version) :=
  match c.releaseVersion with
  | some text => (Version.ofText text).map some
  | none => .ok none

def banner (c : Cluster) : Except SchemaError String := do
  let version ← c.version
  let location :=
    match c.address with
    | some address => "Connected to " ++ c.name ++ " at " ++ address.text
    | none => "Connected to " ++ c.name ++ " (offline)"
  pure (location ++ "\n[cqlsh " ++ release ++
    " | Cassandra " ++ (version.map Version.text).getD "unknown" ++
    " | CQL Spec " ++ c.cqlVersion.getD "unknown" ++
    " | Native Protocol " ++ c.nativeProtocol.getD "unknown" ++ "]")

end Cluster

/-- The entry with the typed name, or else with the name the typed text stands for. -/
def findNamed {α : Type} (name : α → String) (typed : String) (entries : List α) : Option α :=
  (entries.find? fun e => name e == typed).or
    (entries.find? fun e => name e == Text.identifierName typed)

def firstRepeated (seen : List String) : List String → Option String
  | [] => none
  | s :: rest => if s ∈ seen then some s else firstRepeated (seen ++ [s]) rest

def repeatedTable? : List Keyspace → Option (String × String)
  | [] => none
  | k :: rest =>
    match firstRepeated [] (k.tables.map Table.name) with
    | some name => some (k.name, name)
    | none => repeatedTable? rest

namespace Snapshot

def validate (s : Snapshot) : Except SchemaError Unit :=
  match firstRepeated [] (s.keyspaces.map Keyspace.name) with
  | some name => .error (.invalidSnapshot ("duplicate keyspace '" ++ name ++ "'"))
  | none =>
    match repeatedTable? s.keyspaces with
    | some (keyspace, table) =>
      .error (.invalidSnapshot ("duplicate table '" ++ keyspace ++ "." ++ table ++ "'"))
    | none => .ok ()

def keyspace (s : Snapshot) (typed : String) : Except SchemaError Keyspace :=
  match findNamed Keyspace.name typed s.keyspaces with
  | some k => .ok k
  | none => .error (.unknownKeyspace typed)

def table (s : Snapshot) (keyspace table : String) : Except SchemaError Table := do
  let k ← s.keyspace keyspace
  match findNamed Table.name table k.tables with
  | some t => .ok t
  | none => .error (.unknownTable keyspace table)

def names (s : Snapshot) : Completion.Query → Except SchemaError (List String)
  | .keyspaces => .ok (s.keyspaces.map Keyspace.name)
  | .tables keyspace => (s.keyspace keyspace).map fun k => k.tables.map Table.name
  | .columns keyspace table => (s.table keyspace table).map Table.columns

def catalog (s : Snapshot) : Completion.Catalog :=
  fun query => (s.names query).mapError .schema

end Snapshot

end CqlConsole.Schema
