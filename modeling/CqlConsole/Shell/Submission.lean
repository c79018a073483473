import CqlConsole.Shell.Command

/-!
# Submission of lines

The editor asks whether a text is ready to run or goes on in another line. A
text with an open quote goes on. Otherwise a text is ready if it ends with a
semicolon or closes every parenthesis it opens.
-/

set_option autoImplicit false

namespace CqlConsole.Shell

open CqlConsole.Text

/-- What is open at a point of a text: a quote, and parentheses less those closed, in a counter
of 32 bits that wraps. -/
structure Openings where
  quote : Option Char := none
  depth : Int32 := 0
  deriving DecidableEq, Repr

def Openings.step (o : Openings) (c : Char) : Openings :=
  match o.quote with
  | some q => if c = q then { o with quote := none } else o
  | none =>
    if c = '\'' ∨ c = '"' then { o with quote := some c }
    else if c = '(' then { o with depth := o.depth + 1 }
    else if c = ')' then { o with depth := o.depth - 1 }
    else o

def openings (s : List Char) : Openings :=
  s.foldl Openings.step {}

def isReady (line : String) : Bool :=
  let text := trim line.toList
  if text.isEmpty || (command? line).isSome then true
  else
    let o := openings text
    o.quote.isNone && (text.getLast? == some ';' || o.depth ≤ 0)

end CqlConsole.Shell
