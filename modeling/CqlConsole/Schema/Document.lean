import CqlConsole.Schema.Snapshot
import CqlConsole.Toml.Codec

/-!
# Documents of snapshots

A snapshot is written as a document with a table for the cluster and a list of
keyspaces, each with a list of tables. Only the names of keyspaces and tables
are required; keys without a meaning are passed over.
-/

set_option autoImplicit false

namespace CqlConsole.Schema

open CqlConsole.Toml

def Address.ofNode? (n : Node) : Option Address :=
  n.string? >>= fun s => Address.ofText? s.toList

def Cluster.ofNode? (n : Node) : Option Cluster :=
  if n.isRecordOf ["name", "release_version", "cql_version", "native_protocol", "address"] then do
    let name ← n.fieldOr? ({} : Cluster).name 0 "name" Node.string?
    let releaseVersion ← n.optional? 1 "release_version" Node.string?
    let cqlVersion ← n.optional? 2 "cql_version" Node.string?
    let nativeProtocol ← n.optional? 3 "native_protocol" Node.string?
    let address ← n.optional? 4 "address" Address.ofNode?
    pure ⟨name, releaseVersion, cqlVersion, nativeProtocol, address⟩
  else none

def Table.ofNode? (n : Node) : Option Table :=
  if n.isRecordOf ["name", "columns"] then do
    let name ← n.required? 0 "name" Node.string?
    let columns ← n.fieldOr? [] 1 "columns" (Node.list? Node.string?)
    pure ⟨name, columns⟩
  else none

def Keyspace.ofNode? (n : Node) : Option Keyspace :=
  if n.isRecordOf ["name", "tables"] then do
    let name ← n.required? 0 "name" Node.string?
    let tables ← n.fieldOr? [] 1 "tables" (Node.list? Table.ofNode?)
    pure ⟨name, tables⟩
  else none

namespace Snapshot

def ofNode? (n : Node) : Option Snapshot :=
  if n.isRecordOf ["cluster", "keyspaces"] then do
    let cluster ← n.fieldOr? {} 0 "cluster" Cluster.ofNode?
    let keyspaces ← n.fieldOr? [] 1 "keyspaces" (Node.list? Keyspace.ofNode?)
    pure ⟨cluster, keyspaces⟩
  else none

def decode (c : Codec) (text : String) : Except SchemaError Snapshot :=
  match c.read text with
  | .error reason => .error (.invalidSnapshot reason)
  | .ok n =>
    match ofNode? n with
    | none => .error (.invalidSnapshot "TOML parse error")
    | some s => s.validate.map fun _ => s

def ofFile (c : Codec) (path : String) : Except String String → Except SchemaError Snapshot
  | .error reason => .error (.invalidSnapshot (path ++ ": " ++ reason))
  | .ok text => decode c text

end Snapshot

end CqlConsole.Schema
