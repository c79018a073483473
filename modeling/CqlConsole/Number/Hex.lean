import CqlConsole.Text.CodePoints

/-!
# Bytes in hexadecimal

Two digits spell a byte. Writing uses lower-case letters and reading takes
either case, so reading what was written gives the bytes back.
-/

set_option autoImplicit false

namespace CqlConsole.Number

open CqlConsole.Text

def hexOfBytes : List UInt8 → List Char
  | [] => []
  | b :: bs => Nat.digitChar (b.toNat / 16) :: Nat.digitChar (b.toNat % 16) :: hexOfBytes bs

def bytesOfHex? : List Char → Option (List UInt8)
  | [] => some []
  | [_] => none
  | a :: b :: s =>
    if isHexDigit a && isHexDigit b then
      (bytesOfHex? s).map (UInt8.ofNat (16 * hexValue a + hexValue b) :: ·)
    else none

theorem hexOfBytes_length (bs : List UInt8) : (hexOfBytes bs).length = 2 * bs.length := by
  induction bs with
  | nil => rfl
  | cons b bs ih => simp [hexOfBytes, ih]; omega

end CqlConsole.Number
