import CqlConsole.Text.Bytes
import CqlConsole.Text.CodePoints
import CqlConsole.Text.Quoted
import CqlConsole.Token.Basic
import CqlConsole.Token.Run

/-!
# The kind of a run

A run is compared with the word classes in a fixed order, and the first one that
holds it gives its kind: identifiers of eight, four, four, four and twelve
hexadecimal digits, truth values, the two words that are floats, blobs,
punctuation, white space, keywords, names, numbers and quoted strings. What
none of them holds is an error, and so is a quoted run without its end.
-/

set_option autoImplicit false

namespace CqlConsole.Run

open CqlConsole.Text

def isHexGroups : List Nat → List Char → Bool
  | [], s => s.isEmpty
  | [n], s => s.length == n && s.all isHexDigit
  | n :: ns, s =>
    (s.take n).length == n && (s.take n).all isHexDigit &&
      match s.drop n with
      | '-' :: rest => isHexGroups ns rest
      | _ => false

def isUuid (s : List Char) : Bool :=
  isHexGroups [8, 4, 4, 4, 12] s

def isBlob : List Char → Bool
  | '0' :: x :: s => (x == 'x' || x == 'X') && s.all isHexDigit
  | _ => false

def isWordOf (words : List String) (s : List Char) : Bool :=
  words.any fun w => w.toList == lower s

def isPlainName : List Char → Bool
  | [] => false
  | c :: s => c.isAlpha && s.all fun d => d.isAlphanum || d == '_'

def dropMinus : List Char → List Char
  | '-' :: s => s
  | s => s

def isExponent : List Char → Bool
  | [] => false
  | '+' :: s => !s.isEmpty && s.all Char.isDigit
  | '-' :: s => !s.isEmpty && s.all Char.isDigit
  | s => s.all Char.isDigit

def exponentKind (whenNone : TokenKind) : List Char → TokenKind
  | [] => whenNone
  | c :: s => if (c == 'e' || c == 'E') && isExponent s then .float else .error

def numberKind (s : List Char) : TokenKind :=
  let digits := dropMinus s
  if (digits.takeWhile Char.isDigit).isEmpty then .error
  else
    match digits.dropWhile Char.isDigit with
    | '.' :: rest => exponentKind .float (rest.dropWhile Char.isDigit)
    | rest => exponentKind .integer rest

def punctuationKind : List Char → Option TokenKind
  | [','] => some .comma
  | ['('] => some .bracket
  | [')'] => some .bracket
  | [';'] => some .semicolon
  | ['.'] => some .dot
  | ['?'] => some .questionMark
  | [':'] => some .colon
  | ['*'] => some .star
  | _ => none

def plainKind : List Char → TokenKind
  | [] => .error
  | c :: s =>
    if isBlank c then .whitespace
    else if isWordOf keywords (c :: s) then .keyword
    else if c == '"' || isPlainName (c :: s) then .identifier
    else if c.isDigit || c == '-' then numberKind (c :: s)
    else if c == '\'' then .string
    else .error

def kind (s : List Char) : TokenKind :=
  if isOpen s then .error
  else if isUuid s then .uuid
  else if isWordOf ["true", "false"] s then .boolean
  else if isWordOf ["nan", "infinity"] s then .float
  else if isBlob s then .blob
  else (punctuationKind s).getD (plainKind s)

end CqlConsole.Run

namespace CqlConsole

open CqlConsole.Text

structure Lexeme where
  start : Nat
  source : List Char
  deriving DecidableEq, Repr

namespace Lexeme

def stop (l : Lexeme) : Nat :=
  l.start + byteSize l.source

def kind (l : Lexeme) : TokenKind :=
  Run.kind l.source

/-- The text the token carries: keywords in lower case, anything else as typed. -/
def text (l : Lexeme) : List Char :=
  if l.kind = .keyword then lower l.source else l.source

def token (l : Lexeme) : Token :=
  ⟨l.kind, String.ofList l.text, l.start, l.stop⟩

def place : Nat → List (List Char) → List Lexeme
  | _, [] => []
  | start, r :: rs => ⟨start, r⟩ :: place (start + byteSize r) rs

def scan (s : List Char) : List Lexeme :=
  place 0 (Run.split s)

end Lexeme

def tokenize (input : String) : List Token :=
  (Lexeme.scan input.toList).map Lexeme.token ++ [.endOfInput (byteSize input.toList)]

end CqlConsole
