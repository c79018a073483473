import CqlConsole.Number.Numeral
import CqlConsole.Text.CodePoints
import CqlConsole.Text.Lines
import CqlConsole.Text.Quoted

/-!
# Writing documents

A string is written in the plainest way that can hold it: between double
quotes, between single quotes, between three quotes of either kind, and with
escapes only if nothing else will do. A document is written as sections with a
blank line between them, one key on each line.
-/

set_option autoImplicit false

namespace CqlConsole.Toml

open CqlConsole.Number CqlConsole.Text

def needsEscape (c : Char) : Bool :=
  (c.toNat < 0x20 && c != '\t' && c != '\n') || c.toNat == 0x7F

def codeEscape (c : Char) : List Char :=
  '\\' :: 'u' :: upper (hexPadded 4 c.toNat)

def escapeChar (c : Char) : List Char :=
  match c with
  | '\x08' => ['\\', 'b']
  | '\t' => ['\\', 't']
  | '\x0c' => ['\\', 'f']
  | '\r' => ['\\', 'r']
  | '\\' => ['\\', '\\']
  | c => if needsEscape c then codeEscape c else [c]

def escapeLine : List Char → List Char
  | [] => []
  | c :: s =>
    (if c = '"' then ['\\', '"'] else if c = '\n' then ['\\', 'n'] else escapeChar c) ++
      escapeLine s

/-- The text of a string over several lines, after `quotes` unescaped quotes in a row. A third
quote in a row is escaped, and counting starts again after any escape. -/
def escapeLines : Nat → List Char → List Char
  | _, [] => []
  | quotes, c :: s =>
    if c = '"' then
      if quotes < 2 then '"' :: escapeLines (quotes + 1) s
      else '\\' :: '"' :: escapeLines 0 s
    else escapeChar c ++ escapeLines 0 s

def hasTriple (q : Char) : List Char → Bool
  | a :: b :: c :: s => (a == q && b == q && c == q) || hasTriple q (b :: c :: s)
  | _ => false

/-- What follows three opening quotes: a newline if the text has one, which is not part of it. -/
def opening (s : List Char) : List Char :=
  if '\n' ∈ s then ['\n'] else []

def tripleBasic : List Char := ['"', '"', '"']

def tripleLiteral : List Char := ['\'', '\'', '\'']

def writeString (s : List Char) : List Char :=
  let controlled := s.any needsEscape
  if !s.any (fun c => c == '\\' || c == '"' || c == '\n') && !controlled then
    '"' :: escapeLine s ++ ['"']
  else if !s.any (fun c => c == '\'' || c == '\n') && !controlled then '\'' :: s ++ ['\'']
  else if '\\' ∉ s && !controlled && !hasTriple '"' s then
    tripleBasic ++ opening s ++ escapeLines 0 s ++ tripleBasic
  else if !controlled && !hasTriple '\'' s then
    tripleLiteral ++ opening s ++ s ++ tripleLiteral
  else if '\n' ∈ s then tripleBasic ++ opening s ++ escapeLines 0 s ++ tripleBasic
  else '"' :: escapeLine s ++ ['"']

inductive Scalar where
  | string (s : String)
  | natural (n : Nat)
  | boolean (b : Bool)
  deriving DecidableEq, Repr

def Scalar.write : Scalar → List Char
  | string s => writeString s.toList
  | natural n => naturalText n
  | boolean b => if b then "true".toList else "false".toList

def writeField (field : String × Scalar) : List Char :=
  field.1.toList ++ " = ".toList ++ field.2.write ++ ['\n']

structure Section where
  name : String
  fields : List (String × Scalar)
  deriving DecidableEq, Repr

def Section.write (s : Section) : List Char :=
  '[' :: s.name.toList ++ [']', '\n'] ++ s.fields.flatMap writeField

def writeSections : List Section → List Char
  | [] => []
  | [s] => s.write
  | s :: t :: rest => s.write ++ '\n' :: writeSections (t :: rest)

end CqlConsole.Toml
