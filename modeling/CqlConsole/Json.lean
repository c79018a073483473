import CqlConsole.Number.Layout
import CqlConsole.Text.CodePoints
import CqlConsole.Text.Lines

/-!
# JSON values

Values and their two written forms: on one line without spaces, and spread over
lines with an indent of two spaces for each level. A character that JSON asks
to escape is escaped in its short form if it has one.
-/

set_option autoImplicit false

namespace CqlConsole

open CqlConsole.Number CqlConsole.Text

inductive Json where
  | null
  | bool (b : Bool)
  | int (n : Int)
  | float (negative : Bool) (m : Nat) (q : Int)
  | string (s : String)
  | array (items : List Json)
  | object (fields : List (String × Json))

namespace Json

/-- Floating-point values have the fewest digits that read back. They are positional
from 0.00001 up to sixteen digits; a power of ten shows its sign. -/
def floatLayout : Layout := ⟨-5, 15, true, .toEven⟩

def escaped (c : Char) : List Char :=
  match c with
  | '"' => ['\\', '"']
  | '\\' => ['\\', '\\']
  | '\x08' => ['\\', 'b']
  | '\x0c' => ['\\', 'f']
  | '\n' => ['\\', 'n']
  | '\r' => ['\\', 'r']
  | '\t' => ['\\', 't']
  | c => if c.toNat < 0x20 then '\\' :: 'u' :: hexPadded 4 c.toNat else [c]

def quoted (s : String) : String :=
  String.ofList ('"' :: s.toList.flatMap escaped ++ ['"'])

def scalarText : Json → String
  | null => "null"
  | bool b => if b then "true" else "false"
  | int n => String.ofList (integerText n)
  | float negative m q => String.ofList (floatLayout.writeFinite negative m q)
  | string s => quoted s
  | array _ => ""
  | object _ => ""

mutual

def compact : Json → String
  | array items => "[" ++ joined "," (compactItems items) ++ "]"
  | object fields => "\x7b" ++ joined "," (compactFields fields) ++ "\x7d"
  | v => v.scalarText

def compactItems : List Json → List String
  | [] => []
  | v :: vs => compact v :: compactItems vs

def compactFields : List (String × Json) → List String
  | [] => []
  | (key, v) :: rest => (quoted key ++ ":" ++ compact v) :: compactFields rest

end

def newline (depth : Nat) : String :=
  String.ofList ('\n' :: List.replicate (2 * depth) ' ')

def block (start stop : String) (depth : Nat) (members : List String) : String :=
  match members with
  | [] => start ++ stop
  | _ =>
    start ++ newline (depth + 1) ++ joined ("," ++ newline (depth + 1)) members ++
      newline depth ++ stop

mutual

def prettyAt (depth : Nat) : Json → String
  | array items => block "[" "]" depth (prettyItems depth items)
  | object fields => block "\x7b" "\x7d" depth (prettyFields depth fields)
  | v => v.scalarText

def prettyItems (depth : Nat) : List Json → List String
  | [] => []
  | v :: vs => prettyAt (depth + 1) v :: prettyItems depth vs

def prettyFields (depth : Nat) : List (String × Json) → List String
  | [] => []
  | (key, v) :: rest => (quoted key ++ ": " ++ prettyAt (depth + 1) v) :: prettyFields depth rest

end

def pretty (v : Json) : String :=
  v.prettyAt 0

def ofOption (s : Option String) : Json :=
  match s with
  | some s => string s
  | none => null

end Json

end CqlConsole
