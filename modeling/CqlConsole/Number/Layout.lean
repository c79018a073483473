import CqlConsole.Number.Shortest

/-!
# Layout of decimals

The digits chosen for a value are written positionally, with at least one digit
on each side of the point, or as one digit, a point, the others and a power of
ten. A record holds what the outputs differ in: which powers are positional,
whether a positive power shows its sign, and how ties between digits go.
-/

set_option autoImplicit false

namespace CqlConsole.Number

structure Layout where
  /-- The least power of ten of the first digit that is written positionally. -/
  least : Int
  greatest : Int
  plus : Bool
  tie : Tie
  deriving DecidableEq, Repr

def positional (digits : List Char) (exponent : Int) : List Char :=
  if 0 ≤ exponent then digits ++ List.replicate exponent.toNat '0' ++ ['.', '0']
  else
    let places := (-exponent).toNat
    let padded := List.replicate (places + 1 - digits.length) '0' ++ digits
    padded.take (padded.length - places) ++ '.' :: padded.drop (padded.length - places)

def scientific (plus : Bool) (digits : List Char) (power : Int) : List Char :=
  let mantissa :=
    match digits with
    | [] => []
    | [d] => [d]
    | d :: ds => d :: '.' :: ds
  mantissa ++ 'e' :: ((if plus && 0 ≤ power then ['+'] else []) ++ integerText power)

def Layout.write (l : Layout) (negative : Bool) (d : Decimal) : List Char :=
  let digits := naturalText d.digits
  let power : Int := digits.length - 1 + d.exponent
  let sign := if negative then ['-'] else []
  sign ++
    if l.least ≤ power && power ≤ l.greatest then positional digits d.exponent
    else scientific l.plus digits power

def Layout.writeFinite (l : Layout) (negative : Bool) (m : Nat) (q : Int) : List Char :=
  if m = 0 then l.write negative ⟨0, 0⟩
  else l.write negative ((Positive.shortest ⟨m, q⟩ l.tie).strip)

end CqlConsole.Number
