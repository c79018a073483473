import CqlConsole.Error
import CqlConsole.Json
import CqlConsole.Text.Bytes
import CqlConsole.Text.Quoted
import CqlConsole.Token.Basic
import CqlConsole.Uuid

/-!
# Literals

A literal is the value that a constant token stands for. Decoding can fail on
the range of an integer and on the parity of the digits of a blob; a token that
is no constant and no place holder has no value at all.
-/

set_option autoImplicit false

namespace CqlConsole

open CqlConsole.Number CqlConsole.Text

inductive Literal where
  | integer (n : Int)
  | float (x : Binary64)
  | text (s : String)
  | boolean (b : Bool)
  | blob (bytes : List UInt8)
  | uuid (u : Uuid)
  | placeholder
  deriving DecidableEq, Repr

namespace Literal

/-- Floating-point values have the fewest digits that read back, and of two such texts
equally near the greater. They are positional from 0.0001 up to sixteen digits. -/
def floatLayout : Layout := ⟨-4, 15, false, .upward⟩

def integer? (s : List Char) : Option Int :=
  (Number.integer? s).filter isWord64

def decode (t : Token) : Except String Literal :=
  let s := t.text.toList
  match t.kind with
  | .integer => ((integer? s).map integer).elim (.error "64-bit integer") .ok
  | .float => ((Binary64.ofText? s).map float).elim (.error "float") .ok
  | .string => .ok (text (String.ofList (unquote '\'' s)))
  | .boolean => .ok (boolean (lower s == "true".toList))
  | .blob => ((bytesOfHex? (dropBytes 2 s)).map blob).elim (.error "even number of hex digits") .ok
  | .uuid => ((Uuid.ofText? s).map uuid).elim (.error "uuid") .ok
  | .questionMark => .ok placeholder
  | _ => .error "value"

def ofToken (t : Token) : Except SyntaxError Literal :=
  (decode t).mapError fun expected => .unexpected expected t.text

def ofTokens : List Token → Except SyntaxError (List Literal)
  | [] => .ok []
  | t :: ts => do
    let v ← ofToken t
    let vs ← ofTokens ts
    pure (v :: vs)

def typeName : Literal → String
  | integer _ => "bigint"
  | float _ => "double"
  | text _ => "text"
  | boolean _ => "boolean"
  | blob _ => "blob"
  | uuid _ => "uuid"
  | placeholder => "?"

def floatText : Binary64 → List Char
  | .nan => "NaN".toList
  | .infinite _ => "Infinity".toList
  | .finite negative m q => floatLayout.writeFinite negative m q

def display : Literal → String
  | integer n => String.ofList (integerText n)
  | float x => String.ofList (floatText x)
  | text s => String.ofList (enquote '\'' s.toList)
  | boolean b => if b then "true" else "false"
  | blob bytes => String.ofList ('0' :: 'x' :: hexOfBytes bytes)
  | uuid u => String.ofList u.text
  | placeholder => "?"

def toJson : Literal → Json
  | integer n => .int n
  | float .nan => .string "NaN"
  | float (.infinite negative) => .string (if negative then "-inf" else "inf")
  | float (.finite negative m q) => .float negative m q
  | text s => .string s
  | boolean b => .bool b
  | blob bytes => .string (String.ofList ('0' :: 'x' :: hexOfBytes bytes))
  | uuid u => .string (String.ofList u.text)
  | placeholder => .null

end Literal

end CqlConsole
