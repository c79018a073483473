import CqlConsole.Number.Binary64
import CqlConsole.Text.CodePoints
import CqlConsole.Text.Lines
import CqlConsole.Toml.Node

/-!
# Scalars of documents

Numbers, truth values, dates and times are written without quotes. An
underscore may stand between two digits of a number, and a decimal number has
no zeros in front.
-/

set_option autoImplicit false

namespace CqlConsole.Toml

open CqlConsole.Number CqlConsole.Text

def isGrouped (isDigit : Char → Bool) : List Char → Bool
  | [] => false
  | [c] => isDigit c
  | c :: '_' :: s => isDigit c && isGrouped isDigit s
  | c :: s => isDigit c && isGrouped isDigit s

def ungroup (s : List Char) : List Char :=
  s.filter (· != '_')

def dropSign : List Char → List Char
  | '+' :: s => s
  | '-' :: s => s
  | s => s

def isPlainNumber (s : List Char) : Bool :=
  isGrouped Char.isDigit s && (s.length == 1 || s.head? != some '0')

def baseValue (base : Nat) : Nat → List Char → Nat
  | n, [] => n
  | n, c :: s => baseValue base (base * n + hexValue c) s

def isOctalDigit (c : Char) : Bool := '0' ≤ c && c ≤ '7'

def isBinaryDigit (c : Char) : Bool := c == '0' || c == '1'

def based? (base : Nat) (isDigit : Char → Bool) (s : List Char) : Option Int :=
  if isGrouped isDigit s then some (baseValue base 0 (ungroup s)) else none

def integer? : List Char → Option Int
  | '0' :: 'x' :: s => based? 16 isHexDigit s
  | '0' :: 'o' :: s => based? 8 isOctalDigit s
  | '0' :: 'b' :: s => based? 2 isBinaryDigit s
  | s => if isPlainNumber (dropSign s) then Number.integer? (ungroup s) else none

def isExponentPart : List Char → Bool
  | [] => true
  | c :: s => (c == 'e' || c == 'E') && isGrouped Char.isDigit (dropSign s)

def isFloat (s : List Char) : Bool :=
  let s := dropSign s
  let isWhole := fun (c : Char) => c.isDigit || c == '_'
  let rest := s.dropWhile isWhole
  s == "inf".toList || s == "nan".toList ||
    (isPlainNumber (s.takeWhile isWhole) &&
      match rest with
      | [] => false
      | '.' :: r =>
        isGrouped Char.isDigit (r.takeWhile isWhole) && isExponentPart (r.dropWhile isWhole)
      | r => isExponentPart r)

def isFloatInRange (s : List Char) : Bool :=
  match Binary64.ofText? (ungroup s) with
  | some (.infinite _) => dropSign s == "inf".toList
  | _ => true

def inField (digits low high : Nat) (s : List Char) : Bool :=
  s.length == digits && s.all Char.isDigit && low ≤ digitsValue 0 s && digitsValue 0 s ≤ high

def daysOf (year month : Nat) : Nat :=
  if month = 2 then
    if (year % 4 = 0 ∧ year % 100 ≠ 0) ∨ year % 400 = 0 then 29 else 28
  else if month = 4 ∨ month = 6 ∨ month = 9 ∨ month = 11 then 30
  else 31

def isDate (s : List Char) : Bool :=
  match pieces '-' s with
  | [y, m, d] =>
    inField 4 0 9999 y && inField 2 1 12 m &&
      inField 2 1 (daysOf (digitsValue 0 y) (digitsValue 0 m)) d
  | _ => false

def isSeconds (s : List Char) : Bool :=
  match pieces '.' s with
  | [a] => inField 2 0 60 a
  | [a, b] => inField 2 0 60 a && isDigits b
  | _ => false

def isTime (s : List Char) : Bool :=
  match pieces ':' s with
  | [h, m] => inField 2 0 23 h && inField 2 0 59 m
  | [h, m, sec] => inField 2 0 23 h && inField 2 0 59 m && isSeconds sec
  | _ => false

def isOffset (s : List Char) : Bool :=
  match pieces ':' s with
  | [h, m] => inField 2 0 23 h && inField 2 0 59 m
  | _ => false

def isTimeWithOffset (s : List Char) : Bool :=
  let time := s.takeWhile fun c => c.isDigit || c == ':' || c == '.'
  match s.drop time.length with
  | [] => isTime time
  | ['Z'] => isTime time
  | ['z'] => isTime time
  | '+' :: r => isTime time && isOffset r
  | '-' :: r => isTime time && isOffset r
  | _ => false

def isMoment (s : List Char) : Bool :=
  isDate s || isTime s ||
    (isDate (s.take 10) &&
      match s.drop 10 with
      | c :: r => (c == 'T' || c == 't' || c == ' ') && isTimeWithOffset r
      | [] => false)

def scalar? (s : List Char) : Option Node :=
  if s = "true".toList then some (.boolean true)
  else if s = "false".toList then some (.boolean false)
  else
    match integer? s with
    | some n => some (.integer n)
    | none =>
      if isFloat s then some (.float (isFloatInRange s))
      else if isMoment s then some .moment
      else none

def isScalarChar (c : Char) : Bool :=
  c.isAlphanum || c == '_' || c == '+' || c == '-' || c == '.' || c == ':'

/-- The longest value without quotes at the start of a text. A blank belongs to it between a
date and a time. -/
def scalarText (s : List Char) : List Char :=
  let first := s.takeWhile isScalarChar
  match s.drop first.length with
  | ' ' :: c :: r =>
    if isDate first && c.isDigit then first ++ ' ' :: (c :: r).takeWhile isScalarChar else first
  | _ => first

end CqlConsole.Toml
