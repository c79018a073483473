import CqlConsole.Text.CodePoints

/-!
# Strings of documents

There are four kinds of strings: between double quotes, where a backslash
starts an escape, and between single quotes, where nothing is escaped; both
over one line, or over several lines between three quotes. Each reader starts
behind the opening quotes and returns the text and what follows it.
-/

set_option autoImplicit false

namespace CqlConsole.Toml

open CqlConsole.Text

abbrev Found := Option (List Char × List Char)

def Found.push (c : Char) (f : Found) : Found :=
  f.map fun p => (c :: p.1, p.2)

def isForbidden (c : Char) : Bool :=
  (c.toNat < 0x20 && c != '\t') || c.toNat == 0x7F

def shortEscape? : Char → Option Char
  | 'b' => some '\x08'
  | 't' => some '\t'
  | 'n' => some '\n'
  | 'f' => some '\x0c'
  | 'r' => some '\r'
  | 'e' => some '\x1b'
  | '"' => some '"'
  | '\\' => some '\\'
  | _ => none

def codeLength? : Char → Option Nat
  | 'x' => some 2
  | 'u' => some 4
  | 'U' => some 8
  | _ => none

def charOfCode? (n : Nat) : Option Char :=
  if h : n.isValidChar then some (Char.ofNatAux n h) else none

inductive Mode where
  | text
  | escape
  | code (left value : Nat)
  /-- Behind a backslash at the end of a line; `seen` once the line has ended. -/
  | fold (seen : Bool)
  deriving DecidableEq, Repr

def basicFrom : Mode → List Char → Found
  | _, [] => none
  | .text, c :: s =>
    if c = '"' then some ([], s)
    else if c = '\\' then basicFrom .escape s
    else if isForbidden c then none
    else (basicFrom .text s).push c
  | .escape, c :: s =>
    match shortEscape? c, codeLength? c with
    | some d, _ => (basicFrom .text s).push d
    | none, some n => basicFrom (.code n 0) s
    | none, none => none
  | .code left value, c :: s =>
    if !isHexDigit c then none
    else if left ≤ 1 then
      match charOfCode? (16 * value + hexValue c) with
      | some d => (basicFrom .text s).push d
      | none => none
    else basicFrom (.code (left - 1) (16 * value + hexValue c)) s
  | .fold _, _ => none

/-- The end of a string over several lines, with up to two quotes that belong to it. -/
def closing? (q : Char) (s : List Char) : Found :=
  let quotes := ((s.takeWhile (· == q)).take 5).length
  if quotes < 3 then none else some (List.replicate (quotes - 3) q, s.drop quotes)

def isMultiChar (c : Char) (s : List Char) : Bool :=
  c == '\n' || (c == '\r' && s.head? == some '\n') || !isForbidden c

def isFoldable (c : Char) (s : List Char) : Bool :=
  c == ' ' || c == '\t' || c == '\n' || (c == '\r' && s.head? == some '\n')

def multiBasicFrom : Mode → List Char → Found
  | _, [] => none
  | .escape, c :: s =>
    if isFoldable c s then multiBasicFrom (.fold (c == '\n')) s
    else
      match shortEscape? c, codeLength? c with
      | some d, _ => (multiBasicFrom .text s).push d
      | none, some n => multiBasicFrom (.code n 0) s
      | none, none => none
  | .code left value, c :: s =>
    if !isHexDigit c then none
    else if left ≤ 1 then
      match charOfCode? (16 * value + hexValue c) with
      | some d => (multiBasicFrom .text s).push d
      | none => none
    else multiBasicFrom (.code (left - 1) (16 * value + hexValue c)) s
  | mode, c :: s =>
    if mode ≠ .text && isFoldable c s then
      multiBasicFrom (.fold (mode == .fold true || c == '\n')) s
    else if mode = .fold false then none
    else
      match closing? '"' (c :: s) with
      | some found => some found
      | none =>
        if c = '\\' then multiBasicFrom .escape s
        else if isMultiChar c s then (multiBasicFrom .text s).push c
        else none

def literalFrom : List Char → Found
  | [] => none
  | c :: s =>
    if c = '\'' then some ([], s)
    else if isForbidden c then none
    else (literalFrom s).push c

def multiLiteralFrom : List Char → Found
  | [] => none
  | c :: s =>
    match closing? '\'' (c :: s) with
    | some found => some found
    | none => if isMultiChar c s then (multiLiteralFrom s).push c else none

def dropNewline : List Char → List Char
  | '\n' :: s => s
  | '\r' :: '\n' :: s => s
  | s => s

def lineString? : List Char → Found
  | '"' :: s => basicFrom .text s
  | '\'' :: s => literalFrom s
  | _ => none

def string? : List Char → Found
  | '"' :: '"' :: '"' :: s => multiBasicFrom .text (dropNewline s)
  | '\'' :: '\'' :: '\'' :: s => multiLiteralFrom (dropNewline s)
  | s => lineString? s

end CqlConsole.Toml
