import CqlConsole.Number.Hex
import CqlConsole.Text.Quoted

/-!
# Universally unique identifiers

Sixteen bytes, written as hexadecimal digits in groups of eight, four, four,
four and twelve. Reading also takes the digits without groups, and the groups
in braces or after the name of their scheme.
-/

set_option autoImplicit false

namespace CqlConsole

structure Uuid where
  bytes : List UInt8
  length_eq : bytes.length = 16
  deriving DecidableEq, Repr

namespace Uuid

open CqlConsole.Number

def grouped (digits : List Char) : List Char :=
  digits.take 8 ++ '-' :: (digits.drop 8).take 4 ++ '-' :: (digits.drop 12).take 4 ++
    '-' :: (digits.drop 16).take 4 ++ '-' :: digits.drop 20

def text (u : Uuid) : List Char :=
  grouped (hexOfBytes u.bytes)

def ofDigits? (digits : List Char) : Option Uuid :=
  (bytesOfHex? digits).bind fun bytes =>
    if h : bytes.length = 16 then some ⟨bytes, h⟩ else none

def ungrouped? (s : List Char) : Option (List Char) :=
  let digits :=
    s.take 8 ++ (s.drop 9).take 4 ++ (s.drop 14).take 4 ++ (s.drop 19).take 4 ++ s.drop 24
  if grouped digits = s then some digits else none

/-- What stands inside braces or after the name of the scheme, which may be in either case,
or the text itself. -/
def unwrapped (s : List Char) : List Char :=
  if s.length = 38 && s.head? == some '\x7b' && s.getLast? == some '\x7d' then s.tail.dropLast
  else if s.length = 45 && Text.lower (s.take 9) == "urn:uuid:".toList then s.drop 9
  else s

def ofText? (s : List Char) : Option Uuid :=
  if s.length = 32 then ofDigits? s
  else (ungrouped? (unwrapped s)).bind ofDigits?

end Uuid

end CqlConsole
