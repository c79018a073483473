import CqlConsole.Error
import CqlConsole.Number.Numeral
import CqlConsole.Text.Blank
import CqlConsole.Text.Lines
import CqlConsole.Text.Shown

/-!
# Release versions

A version has three numbers of thirty-two bits. Its text may have a leading
`v`, may lack the last number, and may end with the mark of a snapshot build.
-/

set_option autoImplicit false

namespace CqlConsole.Schema

open CqlConsole.Number CqlConsole.Text

structure Version where
  major : UInt32
  minor : UInt32
  patch : UInt32
  deriving DecidableEq, Repr

inductive NumberFault where
  | empty
  | invalidDigit
  | tooLarge
  deriving DecidableEq, Repr

def NumberFault.message : NumberFault → String
  | empty => "cannot parse integer from empty string"
  | invalidDigit => "invalid digit found in string"
  | tooLarge => "number too large to fit in target type"

/-- The number that digits spell after a number read so far. The first fault counts, and at
one character a foreign character goes before an excess. -/
def wordFrom : Nat → List Char → Except NumberFault Nat
  | n, [] => .ok n
  | n, c :: s =>
    if !c.isDigit then .error .invalidDigit
    else if UInt32.size ≤ 10 * n + digitValue c then .error .tooLarge
    else wordFrom (10 * n + digitValue c) s

def word : List Char → Except NumberFault UInt32
  | [] => .error .empty
  | ['+'] => .error .invalidDigit
  | '+' :: s => (wordFrom 0 s).map UInt32.ofNat
  | s => (wordFrom 0 s).map UInt32.ofNat

namespace Version

def core (s : List Char) : List Char :=
  match dropTail "-SNAPSHOT".toList (trim s) with
  | 'v' :: rest => rest
  | rest => rest

def number (text place : String) (part : List Char) : Except SchemaError UInt32 :=
  (word part).mapError fun fault =>
    .invalidVersion (text ++ " (invalid " ++ place ++ " version " ++ shown (String.ofList part) ++
      ": " ++ fault.message ++ ")")

def ofText (text : String) : Except SchemaError Version :=
  match pieces '.' (core text.toList) with
  | [] => .error (.invalidVersion text)
  | [_] => .error (.invalidVersion text)
  | [a, b] => do
    let major ← number text "major" a
    let minor ← number text "minor" b
    pure ⟨major, minor, 0⟩
  | a :: b :: c :: _ => do
    let major ← number text "major" a
    let minor ← number text "minor" b
    let patch ← number text "patch" c
    pure ⟨major, minor, patch⟩

def text (v : Version) : String :=
  String.ofList ('v' :: naturalText v.major.toNat ++ '.' :: naturalText v.minor.toNat ++
    '.' :: naturalText v.patch.toNat)

def order (v w : Version) : Ordering :=
  ((compare v.major.toNat w.major.toNat).then (compare v.minor.toNat w.minor.toNat)).then
    (compare v.patch.toNat w.patch.toNat)

end Version

end CqlConsole.Schema
