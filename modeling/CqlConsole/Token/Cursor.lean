import CqlConsole.Token.Classify

/-!
# A cursor over the tokens of an input

The cursor stands between two lexemes, or at the end. Taking a token moves it
past one lexeme; at the end it stays and hands out the token of the end.
-/

set_option autoImplicit false

namespace CqlConsole

structure Cursor where
  position : Nat
  rest : List Lexeme
  deriving DecidableEq, Repr

namespace Cursor

def ofInput (input : String) : Cursor :=
  ⟨0, Lexeme.scan input.toList⟩

def next : Cursor → Token × Cursor
  | ⟨position, []⟩ => (.endOfInput position, ⟨position, []⟩)
  | ⟨_, l :: ls⟩ => (l.token, ⟨l.stop, ls⟩)

def skipBlanksFrom : Nat → List Lexeme → Cursor
  | position, [] => ⟨position, []⟩
  | position, l :: ls =>
    if l.kind = .whitespace then skipBlanksFrom l.stop ls else ⟨position, l :: ls⟩

def nextSolid (c : Cursor) : Token × Cursor :=
  (skipBlanksFrom c.position c.rest).next

def next? (c : Cursor) : Option Token × Cursor :=
  match c.rest with
  | [] => (none, c)
  | _ :: _ => (some c.next.1, c.next.2)

def endFrom : Nat → List Lexeme → Nat
  | position, [] => position
  | _, l :: ls => endFrom l.stop ls

def drain (c : Cursor) : List Token × Cursor :=
  (c.rest.map Lexeme.token, ⟨endFrom c.position c.rest, []⟩)

end Cursor

end CqlConsole
