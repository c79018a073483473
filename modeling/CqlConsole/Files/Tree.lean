import CqlConsole.Files.Disk
import CqlConsole.Text.Lines

/-!
# Trees of files

A tree holds folders and files under one folder, each at the list of names that
leads to it. A path is followed name by name: a dot stays, two dots go back, and
only a folder can be passed through. Of what lies outside of the folder nothing is
known but that the folders around it and the root are there. Writing a file makes
the folders it needs first, and they stay when it fails.
-/

set_option autoImplicit false

namespace CqlConsole.Files

inductive Entry where
  | folder
  | file (text : String)
  deriving DecidableEq, Repr

inductive Fault where
  | missing
  | taken
  | notFolder
  | isFolder
  | tooLong
  /-- The path holds the character that ends a path for the system. -/
  | cutShort
  deriving DecidableEq, Repr

def Fault.reason : Fault → String
  | missing => "No such file or directory (os error 2)"
  | taken => "File exists (os error 17)"
  | notFolder => "Not a directory (os error 20)"
  | isFolder => "Is a directory (os error 21)"
  | tooLong => "File name too long (os error 36)"
  | cutShort => "file name contained an unexpected NUL byte"

def nameLimit : Nat := 255

def pathLimit : Nat := 4095

def pathFault? (path : String) : Option Fault :=
  if '\x00' ∈ path.toList then some .cutShort
  else if pathLimit < path.utf8ByteSize then some .tooLong
  else none

def root : String := "/"

def partsOf (path : String) : List String :=
  match path.toList with
  | '/' :: s => root :: (Text.pieces '/' s).map String.ofList
  | s => (Text.pieces '/' s).map String.ofList

def names (path : String) : Except Fault (List String) :=
  match pathFault? path with
  | some fault => .error fault
  | none => if path.isEmpty then .error .missing else .ok (partsOf path)

def stays (name : String) : Bool :=
  name == "" || name == "."

def isProper (name : String) : Bool :=
  !stays name && name != ".." && name != root

def parentNames (path : String) : List String :=
  ((partsOf path).filter fun name => !stays name).dropLast

def outer (place : List String) : List String :=
  if place = [root] then place
  else if place.all (· == "..") then place ++ [".."]
  else place.dropLast

structure Tree where
  entries : List (List String × Entry) := []
  deriving DecidableEq, Repr

namespace Tree

def entry? (t : Tree) (place : List String) : Option Entry :=
  if place = [root] ∨ place.all (· == "..") then some .folder
  else (t.entries.find? fun e => e.1 == place).map Prod.snd

def put (t : Tree) (place : List String) (e : Entry) : Tree :=
  ⟨(t.entries.filter fun old => old.1 != place) ++ [(place, e)]⟩

def child (t : Tree) (folder : List String) (name : String) : Except Fault (Option Entry) :=
  if nameLimit < name.utf8ByteSize then .error .tooLong else .ok (t.entry? (folder ++ [name]))

def enter (t : Tree) : List String → List String → Except Fault (List String)
  | here, [] => .ok here
  | here, name :: rest =>
    if stays name then t.enter here rest
    else if name = ".." then t.enter (outer here) rest
    else if name = root then t.enter [root] rest
    else
      match t.child here name with
      | .error fault => .error fault
      | .ok none => .error .missing
      | .ok (some (.file _)) => .error .notFolder
      | .ok (some .folder) => t.enter (here ++ [name]) rest

def find (t : Tree) (path : String) : Except Fault Entry := do
  let names ← names path
  let last := names.getLastD ""
  if isProper last then
    let here ← t.enter [] names.dropLast
    match ← t.child here last with
    | none => .error .missing
    | some e => .ok e
  else
    let _ ← t.enter [] names
    .ok .folder

def read (t : Tree) (path : String) : Except Fault String := do
  match ← t.find path with
  | .folder => .error .isFolder
  | .file text => .ok text

def makeFolder (t : Tree) (names : List String) : Except Fault Tree := do
  let last := names.getLastD ""
  let here ← t.enter [] names.dropLast
  if last = ".." then .ok t
  else
    match ← t.child here last with
    | none => .ok (t.put (here ++ [last]) .folder)
    | some .folder => .ok t
    | some (.file _) => .error .taken

/-- The folder where names lead is made, with those on the way to it if one is missing. The
tree keeps what was made before a fault. -/
def makeFolders (t : Tree) (names : List String) : Except Fault Unit × Tree :=
  if names = [] ∨ names = [root] then (.ok (), t)
  else
    match t.makeFolder names with
    | .ok made => (.ok (), made)
    | .error .missing =>
      match t.makeFolders names.dropLast with
      | (.ok _, t) =>
        match t.makeFolder names with
        | .ok made => (.ok (), made)
        | .error fault => (.error fault, t)
      | failed => failed
    | .error fault => (.error fault, t)
termination_by names.length
decreasing_by
  simp only [List.length_dropLast]
  have nonempty : names ≠ [] := fun h => absurd (Or.inl h) ‹¬(names = [] ∨ names = [root])›
  exact Nat.sub_lt (List.length_pos_iff.2 nonempty) Nat.one_pos

def write (t : Tree) (path text : String) : Except Fault Tree := do
  let names ← names path
  let steps := names.filter (· != "")
  let last := steps.getLastD ""
  if isProper last then
    let here ← t.enter [] steps.dropLast
    if names.getLast? == some "" then .error .isFolder
    else
      match ← t.child here last with
      | some .folder => .error .isFolder
      | _ => .ok (t.put (here ++ [last]) (.file text))
  else
    let _ ← t.enter [] names
    .error .isFolder

def makeParents (t : Tree) (path : String) : Except Fault Unit × Tree :=
  let parents := parentNames path
  match pathFault? (String.intercalate "/" parents) with
  | some fault => (.error fault, t)
  | none => t.makeFolders parents

def save (t : Tree) (path text : String) : Except Fault Unit × Tree :=
  match t.makeParents path with
  | (.ok _, t) =>
    match t.write path text with
    | .ok written => (.ok (), written)
    | .error fault => (.error fault, t)
  | failed => failed

def ofFiles (files : List (String × String)) : Tree :=
  files.foldl (fun t f => (t.save f.1 f.2).2) {}

def disk (t : Tree) : Disk where
  read path := (t.read path).mapError Fault.reason
  holds path := (t.find path).toBool
  obstacle? path :=
    match (t.save path "").1 with
    | .ok _ => none
    | .error fault => some fault.reason

end Tree

end CqlConsole.Files
