import CqlConsole.Number.Numeral
import CqlConsole.Text.CodePoints
import CqlConsole.Text.Lines

/-!
# Network addresses

An address has four numbers below 256, or eight groups of sixteen bits. The
groups are written in hexadecimal, and one run of zero groups may be left out.
The canonical text leaves out the longest run of two or more, the first of
equally long ones, and shows an address that embeds four numbers with them.
-/

set_option autoImplicit false

namespace CqlConsole.Schema

open CqlConsole.Number CqlConsole.Text

inductive Address where
  | four (numbers : List Nat)
  | eight (groups : List Nat)
  deriving DecidableEq, Repr

namespace Address

def octet? (s : List Char) : Option Nat :=
  if isDigits s && s.length ≤ 3 && (s.length == 1 || s.head? != some '0') then
    (natural? s).filter fun n => n < 256
  else none

def four? (s : List Char) : Option (List Nat) :=
  let parts := pieces '.' s
  if parts.length = 4 then parts.mapM octet? else none

def hexNumber : Nat → List Char → Nat
  | n, [] => n
  | n, c :: s => hexNumber (16 * n + hexValue c) s

def group? (s : List Char) : Option Nat :=
  if !s.isEmpty && s.length ≤ 4 && s.all isHexDigit then some (hexNumber 0 s) else none

def groupsOfFour : List Nat → List Nat
  | [a, b, c, d] => [256 * a + b, 256 * c + d]
  | _ => []

def groups? (fourAllowed : Bool) : List (List Char) → Option (List Nat)
  | [] => some []
  | [s] =>
    match group? s with
    | some g => some [g]
    | none => if fourAllowed then (four? s).map groupsOfFour else none
  | s :: t :: rest => do
    let g ← group? s
    let gs ← groups? fourAllowed (t :: rest)
    pure (g :: gs)

def side? (fourAllowed : Bool) (s : List Char) : Option (List Nat) :=
  if s.isEmpty then some [] else groups? fourAllowed (pieces ':' s)

def splitGap? : List Char → Option (List Char × List Char)
  | ':' :: ':' :: s => some ([], s)
  | c :: s => (splitGap? s).map fun p => (c :: p.1, p.2)
  | [] => none

def eight? (s : List Char) : Option (List Nat) :=
  match splitGap? s with
  | none => (groups? true (pieces ':' s)).filter fun gs => gs.length == 8
  | some (before, after) => do
    let head ← side? false before
    let tail ← side? true after
    if head.length + tail.length ≤ 7 then
      pure (head ++ List.replicate (8 - head.length - tail.length) 0 ++ tail)
    else none

def ofText? (s : List Char) : Option Address :=
  match four? s with
  | some numbers => some (four numbers)
  | none => (eight? s).map eight

/-- Start and length of the longest run of zeros, the first one of equally long ones; `i` is
the place of the first group, and `here` the length of the run just before it. -/
def longestGap (i here : Nat) (best : Nat × Nat) : List Nat → Nat × Nat
  | [] => best
  | g :: gs =>
    if g = 0 then
      let run := here + 1
      longestGap (i + 1) run (if best.2 < run then (i + 1 - run, run) else best) gs
    else longestGap (i + 1) 0 best gs

def fourText (numbers : List Nat) : List Char :=
  List.intercalate ['.'] (numbers.map naturalText)

def groupsText (groups : List Nat) : List Char :=
  List.intercalate [':'] (groups.map (Nat.toDigits 16))

def eightText (groups : List Nat) : List Char :=
  match groups with
  | [0, 0, 0, 0, 0, 0xFFFF, g, h] =>
    "::ffff:".toList ++ fourText [g / 256, g % 256, h / 256, h % 256]
  | _ =>
    let gap := longestGap 0 0 (0, 0) groups
    if gap.2 < 2 then groupsText groups
    else
      groupsText (groups.take gap.1) ++ [':', ':'] ++ groupsText (groups.drop (gap.1 + gap.2))

def text : Address → String
  | four numbers => String.ofList (fourText numbers)
  | eight groups => String.ofList (eightText groups)

end Address

end CqlConsole.Schema
