import CqlConsole.Toml.Scalar
import CqlConsole.Toml.Strings

/-!
# Reading documents

A document is a sequence of lines, each with a header, a key and its value, or
nothing; a value may go on over several lines. Every reader returns the rest of
the text, and goes on only where the rest is shorter than what it was given.
-/

set_option autoImplicit false

namespace CqlConsole.Toml

open CqlConsole.Text

def isSpace (c : Char) : Bool :=
  c == ' ' || c == '\t'

def skipSpace (s : List Char) : List Char :=
  s.dropWhile isSpace

def skipVoid : Bool → List Char → Option (List Char)
  | _, [] => some []
  | _, '\n' :: s => skipVoid false s
  | _, '\r' :: '\n' :: s => skipVoid false s
  | true, c :: s => if isForbidden c then none else skipVoid true s
  | false, c :: s =>
    if c = '#' then skipVoid true s
    else if isSpace c then skipVoid false s
    else some (c :: s)

def lineEnd? (s : List Char) : Option (List Char) :=
  let behind :=
    match skipSpace s with
    | '#' :: r =>
      let comment := r.takeWhile fun c => c != '\n' && c != '\r'
      if comment.any isForbidden then none else some (r.drop comment.length)
    | r => some r
  match behind with
  | some [] => some []
  | some ('\n' :: r) => some r
  | some ('\r' :: '\n' :: r) => some r
  | _ => none

def isKeyChar (c : Char) : Bool :=
  c.isAlphanum || c == '_' || c == '-'

def key? (s : List Char) : Option (String × List Char) :=
  match lineString? s with
  | some (text, rest) => some (String.ofList text, rest)
  | none =>
    let text := s.takeWhile isKeyChar
    if text.isEmpty then none else some (String.ofList text, s.drop text.length)

def dottedKeys? (s : List Char) : Option ((List String × String) × List Char) :=
  match key? (skipSpace s) with
  | none => none
  | some (key, rest) =>
    match skipSpace rest with
    | '.' :: r =>
      if r.length < s.length then
        (dottedKeys? r).map fun found => ((key :: found.1.1, found.1.2), found.2)
      else none
    | r => some (([], key), r)
termination_by s.length

/-- How many arrays and inline tables may stand in one another, and how many keys may stand
before the last one of a dotted key. -/
def depthLimit : Nat := 80

def keyPath? (s : List Char) : Option ((List String × String) × List Char) :=
  (dottedKeys? s).filter fun found => found.1.1.length < depthLimit

mutual

def value? (depth : Nat) (s : List Char) : Option (Node × List Char) :=
  match depth, s with
  | depth + 1, '[' :: r => (items? depth r).map fun found => (.array found.1, found.2)
  | depth + 1, '\x7b' :: r =>
    (fields? depth [] r).map fun found => (.table .braces found.1, found.2)
  | _, s =>
    match string? s with
    | some (text, rest) => some (.string (String.ofList text), rest)
    | none =>
      let text := scalarText s
      (scalar? text).map fun v => (v, s.drop text.length)
termination_by 2 * s.length

def items? (depth : Nat) (s : List Char) : Option (List Node × List Char) :=
  match skipVoid false s with
  | none => none
  | some (']' :: r) => some ([], r)
  | some r =>
    if r.length ≤ s.length then
      match value? depth r with
      | none => none
      | some (v, rest) =>
        match skipVoid false rest with
        | some (',' :: t) =>
          if t.length < s.length then (items? depth t).map fun found => (v :: found.1, found.2)
          else none
        | some (']' :: t) => some ([v], t)
        | _ => none
    else none
termination_by 2 * s.length + 1

def fields? (depth : Nat) (es : Entries) (s : List Char) : Option (Entries × List Char) :=
  match skipVoid false s with
  | none => none
  | some ('\x7d' :: r) => some (es, r)
  | some r =>
    match keyPath? r with
    | none => none
    | some ((path, key), rest) =>
      match rest with
      | '=' :: t =>
        if (skipSpace t).length < s.length then
          match value? depth (skipSpace t) with
          | none => none
          | some (v, rest) =>
            match es.assign path key v, skipVoid false rest with
            | some es, some (',' :: u) => if u.length < s.length then fields? depth es u else none
            | some es, some ('\x7d' :: u) => some (es, u)
            | _, _ => none
        else none
      | _ => none
termination_by 2 * s.length + 1

end

structure Draft where
  entries : Entries := []
  header : List String := []

def tableHeader? (d : Draft) (s : List Char) : Option (Draft × List Char) :=
  match keyPath? s with
  | some ((path, key), ']' :: rest) =>
    (d.entries.openTable path key).map fun es => (⟨es, path ++ [key]⟩, rest)
  | _ => none

def elementHeader? (d : Draft) (s : List Char) : Option (Draft × List Char) :=
  match keyPath? s with
  | some ((path, key), ']' :: ']' :: rest) =>
    (d.entries.openElement path key).map fun es => (⟨es, path ++ [key]⟩, rest)
  | _ => none

def assignment? (d : Draft) (s : List Char) : Option (Draft × List Char) :=
  match keyPath? s with
  | some ((path, key), '=' :: rest) =>
    match value? depthLimit (skipSpace rest) with
    | none => none
    | some (v, rest) =>
      (d.entries.assignUnder d.header path key v).map fun es => ({ d with entries := es }, rest)
  | _ => none

def line? (d : Draft) : List Char → Option (Draft × List Char)
  | '[' :: '[' :: s => elementHeader? d s
  | '[' :: s => tableHeader? d s
  | s => assignment? d s

def linesFrom (d : Draft) (s : List Char) : Option Draft :=
  match skipVoid false s with
  | none => none
  | some [] => some d
  | some r =>
    match line? d r with
    | none => none
    | some (d, rest) =>
      match lineEnd? rest with
      | none => none
      | some rest => if rest.length < s.length then linesFrom d rest else none
termination_by s.length

def dropMark : List Char → List Char
  | '\uFEFF' :: s => s
  | s => s

def read (text : String) : Option Node :=
  (linesFrom {} (dropMark text.toList)).map fun d => .table .header d.entries

end CqlConsole.Toml
