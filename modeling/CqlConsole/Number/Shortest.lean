import CqlConsole.Number.Binary64

/-!
# The fewest digits

Every real number close enough to a floating-point value reads back as that
value. Among the decimals that do, those with the fewest digits are found by
trying the two neighbours of the value on grids of one, two, three and more
digits. Of two hits on one grid the nearer is taken, and an exact tie is
settled by the caller.
-/

set_option autoImplicit false

namespace CqlConsole.Number

structure Decimal where
  digits : Nat
  exponent : Int
  deriving DecidableEq, Repr

inductive Tie where
  | upward
  | toEven
  deriving DecidableEq, Repr

def compareScaled (a : Nat) (i : Int) (n : Nat) (j : Int) : Ordering :=
  compare (a * Nat.pow 10 i.toNat * Nat.pow 2 (-j).toNat)
    (n * Nat.pow 2 j.toNat * Nat.pow 10 (-i).toNat)

structure Positive where
  m : Nat
  q : Int
  deriving DecidableEq, Repr

namespace Positive

/-- The value below is half as far away as the value above. -/
def narrowBelow (x : Positive) : Bool :=
  x.m == Nat.pow 2 52 && x.q != Binary64.minExponent

def readsBack (x : Positive) (d : Decimal) : Bool :=
  let low := 4 * x.m - (if x.narrowBelow then 1 else 2)
  let high := 4 * x.m + 2
  let ends := x.m % 2 == 0
  let atLow := compareScaled d.digits d.exponent low (x.q - 2)
  let atHigh := compareScaled d.digits d.exponent high (x.q - 2)
  (atLow == .gt || (ends && atLow == .eq)) && (atHigh == .lt || (ends && atHigh == .eq))

def onGrid (x : Positive) (g : Int) : Nat × Nat :=
  (x.m * Nat.pow 2 x.q.toNat * Nat.pow 10 (-g).toNat,
    Nat.pow 2 (-x.q).toNat * Nat.pow 10 g.toNat)

def scale (x : Positive) : Int :=
  let r := x.onGrid 0
  if r.2 ≤ r.1 then (naturalText (r.1 / r.2)).length
  else 1 - ((naturalText (r.2 / r.1)).length : Int)

/-- The decimal on the grid `10^g` that reads back, the nearer one if both neighbours do. -/
def onGrid? (x : Positive) (tie : Tie) (g : Int) : Option Decimal :=
  let r := x.onGrid g
  let below := r.1 / r.2
  let under : Decimal := ⟨below, g⟩
  let above : Decimal := ⟨below + 1, g⟩
  match x.readsBack under, x.readsBack above with
  | false, false => none
  | true, false => some under
  | false, true => some above
  | true, true =>
    match compare (2 * (r.1 % r.2)) r.2 with
    | .lt => some under
    | .gt => some above
    | .eq => if tie = .toEven && below % 2 == 0 then some under else some above

def exact (x : Positive) : Decimal :=
  if 0 ≤ x.q then ⟨x.m * Nat.pow 2 x.q.toNat, 0⟩ else ⟨x.m * Nat.pow 5 (-x.q).toNat, x.q⟩

def shortest (x : Positive) (tie : Tie) : Decimal :=
  let k := x.scale
  ((List.range 17).findSome? fun n => x.onGrid? tie (k - 1 - (n : Nat))).getD x.exact

end Positive

def Decimal.strip (d : Decimal) : Decimal :=
  let digits := naturalText d.digits
  let zeros := (digits.reverse.takeWhile (· == '0')).length
  if d.digits = 0 then ⟨0, 0⟩
  else ⟨d.digits / Nat.pow 10 zeros, d.exponent + zeros⟩

end CqlConsole.Number
