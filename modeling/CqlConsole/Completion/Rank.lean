import CqlConsole.Text.Bytes

/-!
# Order of candidates

Candidates are shown in a fixed order: those of fewer bytes first, and those of
equally many in the order of their characters. Ranking a list also drops empty
and repeated candidates.
-/

set_option autoImplicit false

namespace CqlConsole.Completion

open CqlConsole.Text

def compareChars : List Char → List Char → Ordering
  | [], [] => .eq
  | [], _ :: _ => .lt
  | _ :: _, [] => .gt
  | a :: s, b :: t => (compare a.toNat b.toNat).then (compareChars s t)

def rank (a b : String) : Ordering :=
  (compare (byteSize a.toList) (byteSize b.toList)).then (compareChars a.toList b.toList)

def dropRepeats : List String → List String
  | [] => []
  | [s] => [s]
  | s :: t :: rest => if s = t then dropRepeats (t :: rest) else s :: dropRepeats (t :: rest)

def rankCandidates (items : List String) : List String :=
  dropRepeats ((items.filter fun s => s ≠ "").mergeSort fun a b => rank a b != .gt)

end CqlConsole.Completion
