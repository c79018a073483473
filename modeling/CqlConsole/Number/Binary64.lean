import CqlConsole.Number.Numeral
import CqlConsole.Text.Quoted

/-!
# Binary floating point of sixty-four bits

A finite value is a signed integer below 2^53 times a power of two that is at
least 2^-1074. A decimal text is read exactly and then rounded once to the
nearest such value; of two equally near ones the even integer is taken, and
what lies beyond the largest finite value becomes an infinity.
-/

set_option autoImplicit false

namespace CqlConsole.Number

inductive Binary64 where
  | nan
  | infinite (negative : Bool)
  /-- The value `m * 2^q`, with the sign apart so that there are two zeros. -/
  | finite (negative : Bool) (m : Nat) (q : Int)
  deriving DecidableEq, Repr

def nearestEven (num den : Nat) : Nat :=
  let n := num / den
  let r := num % den
  if 2 * r < den then n
  else if den < 2 * r then n + 1
  else if n % 2 = 0 then n else n + 1

def scaleBinary (num den : Nat) (q : Int) : Nat × Nat :=
  (num * Nat.pow 2 (-q).toNat, den * Nat.pow 2 q.toNat)

namespace Binary64

def minExponent : Int := -1074

def maxExponent : Int := 971

def exponentFor (num den : Nat) : Int :=
  let guess := (Nat.log2 num : Int) - (Nat.log2 den : Int) - 53
  let scaled := scaleBinary num den guess
  max minExponent (if scaled.1 / scaled.2 < Nat.pow 2 53 then guess else guess + 1)

def ofRatio (negative : Bool) (num den : Nat) : Binary64 :=
  if num = 0 then finite negative 0 minExponent
  else
    let q := exponentFor num den
    let scaled := scaleBinary num den q
    let m := nearestEven scaled.1 scaled.2
    let carried := if m = Nat.pow 2 53 then (Nat.pow 2 52, q + 1) else (m, q)
    if maxExponent < carried.2 then infinite negative
    else finite negative carried.1 carried.2

/-- The value nearest to `digits * 10^exponent`. Digits far outside the range
are decided by their number alone. -/
def ofDecimal (negative : Bool) (digits : Nat) (exponent : Int) : Binary64 :=
  let size : Int := (naturalText digits).length
  if digits = 0 then ofRatio negative 0 1
  else if 400 < size + exponent then infinite negative
  else if size + exponent < -400 then ofRatio negative 0 1
  else ofRatio negative (digits * Nat.pow 10 exponent.toNat) (Nat.pow 10 (-exponent).toNat)

def exponentPart? : List Char → Option Int
  | [] => some 0
  | c :: s => if c == 'e' || c == 'E' then integer? s else none

def unsigned? (negative : Bool) (s : List Char) : Option Binary64 :=
  let whole := s.takeWhile Char.isDigit
  let afterWhole := s.dropWhile Char.isDigit
  let (fraction, rest) :=
    match afterWhole with
    | '.' :: r => (r.takeWhile Char.isDigit, r.dropWhile Char.isDigit)
    | r => ([], r)
  if whole.isEmpty && fraction.isEmpty then none
  else
    (exponentPart? rest).map fun e =>
      ofDecimal negative (digitsValue 0 (whole ++ fraction)) (e - fraction.length)

def magnitude? (negative : Bool) (s : List Char) : Option Binary64 :=
  let word := Text.lower s
  if word = "nan".toList then some nan
  else if word = "inf".toList || word = "infinity".toList then some (infinite negative)
  else unsigned? negative s

def ofText? : List Char → Option Binary64
  | '-' :: s => magnitude? true s
  | '+' :: s => magnitude? false s
  | s => magnitude? false s

end Binary64

end CqlConsole.Number
