/-!
# Documents of tables

A document is a table of keys with values. How a table came about decides what
may still be added to it: a table opened by its header is not opened again, a
table made by a dotted key is extended by dotted keys only, and an inline table
is closed. A new element of a list of tables is added by each of its headers.
-/

set_option autoImplicit false

namespace CqlConsole.Toml

inductive Origin where
  | header
  | implied
  | dotted
  | braces
  deriving DecidableEq, Repr

inductive Node where
  | string (s : String)
  | integer (n : Int)
  | float (inRange : Bool)
  | boolean (b : Bool)
  | moment
  | array (items : List Node)
  | tables (elements : List (List (String × Node)))
  | table (origin : Origin) (entries : List (String × Node))

abbrev Entries := List (String × Node)

namespace Entries

def get? (es : Entries) (key : String) : Option Node :=
  (es.find? fun e => e.1 == key).map Prod.snd

def put (key : String) (v : Node) : Entries → Entries
  | [] => [(key, v)]
  | e :: es => if e.1 = key then (key, v) :: es else e :: put key v es

/-- The table changed at the end of a path of keys. Missing tables are made on the way; the
change gets the table at the end and whether a dotted key made it. -/
def within (byDots : Bool) (change : Bool → Entries → Option Entries) (madeByDots : Bool) :
    List String → Entries → Option Entries
  | [], es => change madeByDots es
  | key :: path, es =>
    match es.get? key with
    | none =>
      (within byDots change byDots path []).map fun inner =>
        es.put key (.table (if byDots then .dotted else .implied) inner)
    | some (.tables elements) =>
      match elements.getLast? with
      | none => none
      | some last =>
        (within byDots change false path last).map fun inner =>
          es.put key (.tables (elements.dropLast ++ [inner]))
    | some (.table origin inner) =>
      if origin = .braces ∨ (byDots ∧ origin = .header) then none
      else
        (within byDots change (origin == .dotted) path inner).map fun inner =>
          es.put key (.table origin inner)
    | some _ => none

def add (key : String) (v : Node) (byDots madeByDots : Bool) (es : Entries) : Option Entries :=
  if byDots ≠ madeByDots ∨ (es.get? key).isSome then none else some (es.put key v)

def assign (path : List String) (key : String) (v : Node) (es : Entries) : Option Entries :=
  within true (fun madeByDots inner => inner.add key v (!path.isEmpty) madeByDots) false path es

def assignUnder (header path : List String) (key : String) (v : Node) (es : Entries) :
    Option Entries :=
  within false (fun _ inner => inner.assign path key v) false header es

def openTable (path : List String) (key : String) (es : Entries) : Option Entries :=
  within false
    (fun _ inner =>
      match inner.get? key with
      | none => some (inner.put key (.table .header []))
      | some (.table .implied entries) => some (inner.put key (.table .header entries))
      | some _ => none)
    false path es

def openElement (path : List String) (key : String) (es : Entries) : Option Entries :=
  within false
    (fun _ inner =>
      match inner.get? key with
      | none => some (inner.put key (.tables [[]]))
      | some (.tables elements) => some (inner.put key (.tables (elements ++ [[]])))
      | some _ => none)
    false path es

end Entries

namespace Node

def field? (place : Nat) (name : String) : Node → Option Node
  | table _ entries => Entries.get? entries name
  | array items => items[place]?
  | tables elements => elements[place]?.map (table .header)
  | _ => none

mutual

/-- All numbers in the value can be represented: integers with 128 bits, with or without a
sign, and floating-point numbers with a finite value. -/
def isRepresentable : Node → Bool
  | integer n => -(2 ^ 127) ≤ n && n < 2 ^ 128
  | float inRange => inRange
  | array items => areRepresentable items
  | tables elements => elementsRepresentable elements
  | table _ entries => entriesRepresentable entries
  | _ => true

def areRepresentable : List Node → Bool
  | [] => true
  | v :: vs => v.isRepresentable && areRepresentable vs

def entriesRepresentable : List (String × Node) → Bool
  | [] => true
  | (_, v) :: es => v.isRepresentable && entriesRepresentable es

def elementsRepresentable : List (List (String × Node)) → Bool
  | [] => true
  | es :: rest => entriesRepresentable es && elementsRepresentable rest

end

/-- The value may stand for a record with these fields. Other keys of a table are passed
over, but their values have to be representable; what an array holds beyond the fields is
not looked at. A date or a time is a record without any field. -/
def isRecordOf (fields : List String) : Node → Bool
  | table _ entries => entries.all fun e => fields.contains e.1 || e.2.isRepresentable
  | array _ | tables _ | moment => true
  | _ => false

def items? : Node → Option (List Node)
  | array items => some items
  | tables elements => some (elements.map (table .header))
  | _ => none

def string? : Node → Option String
  | string s => some s
  | _ => none

def boolean? : Node → Option Bool
  | boolean b => some b
  | _ => none

def integer? : Node → Option Int
  | integer n => some n
  | _ => none

def list? {α : Type} (read : Node → Option α) (n : Node) : Option (List α) :=
  n.items? >>= List.mapM read

def required? {α : Type} (place : Nat) (name : String) (read : Node → Option α) (n : Node) :
    Option α :=
  n.field? place name >>= read

def optional? {α : Type} (place : Nat) (name : String) (read : Node → Option α) (n : Node) :
    Option (Option α) :=
  match n.field? place name with
  | some v => (read v).map some
  | none => some none

def fieldOr? {α : Type} (whenMissing : α) (place : Nat) (name : String) (read : Node → Option α)
    (n : Node) : Option α :=
  match n.field? place name with
  | some v => read v
  | none => some whenMissing

/-- The name of a choice: a string, or the one key of a table whose value is empty. -/
def choice? : Node → Option String
  | string s => some s
  | table _ [(key, array [])] => some key
  | table _ [(key, table _ [])] => some key
  | _ => none

end Node

end CqlConsole.Toml
