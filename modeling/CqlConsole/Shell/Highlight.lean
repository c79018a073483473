import CqlConsole.Token.Cursor

/-!
# Highlighting

A line is cut where its tokens start and stop, and each piece gets the style of
the kind. What the tokens leave over has no style. Without highlighting the
whole line is one piece in no style.
-/

set_option autoImplicit false

namespace CqlConsole.Shell

open CqlConsole.Text

inductive Style where
  | plain
  | boldGreen
  | yellow
  | magenta
  | cyan
  | darkGray
  | blue
  | underlinedRed
  deriving DecidableEq, Repr

def Style.escape : Style → String
  | plain => ""
  | boldGreen => "\x1b[1;32m"
  | yellow => "\x1b[33m"
  | magenta => "\x1b[35m"
  | cyan => "\x1b[36m"
  | darkGray => "\x1b[90m"
  | blue => "\x1b[34m"
  | underlinedRed => "\x1b[4;31m"

def Style.ofKind : TokenKind → Style
  | .keyword => boldGreen
  | .string => yellow
  | .integer | .float | .boolean | .uuid | .blob => magenta
  | .bracket => cyan
  | .comma | .dot | .semicolon | .colon => darkGray
  | .star | .questionMark => blue
  | .error => underlinedRed
  | .identifier | .whitespace | .endOfInput => plain

def piece (line : List Char) (t : Token) : Style × String :=
  (Style.ofKind t.kind, String.ofList (slice t.start t.stop line))

def readTo (ts : List Token) : Nat :=
  (ts.getLast?.map Token.stop).getD 0

def unread (line : List Char) (n : Nat) : List (Style × String) :=
  if n < byteSize line then [(.plain, String.ofList (dropBytes n line))] else []

def highlight (enabled : Bool) (line : String) : List (Style × String) :=
  if enabled then
    let ts := (Cursor.ofInput line).drain.1
    ts.map (piece line.toList) ++ unread line.toList (readTo ts)
  else [(.plain, line)]

end CqlConsole.Shell
