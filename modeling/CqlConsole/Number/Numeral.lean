/-!
# Decimal numerals

Natural numbers and integers as digits. A numeral of an integer may carry a
sign of either kind, and at least one digit follows it.
-/

set_option autoImplicit false

namespace CqlConsole.Number

def digitValue (c : Char) : Nat :=
  c.toNat - '0'.toNat

def digitsValue : Nat → List Char → Nat
  | n, [] => n
  | n, c :: s => digitsValue (10 * n + digitValue c) s

def isDigits (s : List Char) : Bool :=
  !s.isEmpty && s.all Char.isDigit

def natural? (s : List Char) : Option Nat :=
  if isDigits s then some (digitsValue 0 s) else none

def integer? : List Char → Option Int
  | '-' :: s => (natural? s).map fun n => -(n : Int)
  | '+' :: s => (natural? s).map fun n => (n : Int)
  | s => (natural? s).map fun n => (n : Int)

def naturalText (n : Nat) : List Char :=
  Nat.toDigits 10 n

def integerText : Int → List Char
  | .ofNat n => naturalText n
  | .negSucc n => '-' :: naturalText (n + 1)

def isWord64 (n : Int) : Bool :=
  -9223372036854775808 ≤ n && n ≤ 9223372036854775807

end CqlConsole.Number
