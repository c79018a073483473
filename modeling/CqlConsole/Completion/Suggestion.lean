import CqlConsole.Completion.Walk

/-!
# Suggestions

In a menu, whole words are shown and not their remainders. A suggestion names
the bytes of the word that is being typed and the text that replaces them.
-/

set_option autoImplicit false

namespace CqlConsole.Completion

structure Suggestion where
  value : String
  start : Nat
  stop : Nat
  appendSpace : Bool
  deriving DecidableEq, Repr

def lastWord (size : Nat) (lexemes : List Lexeme) : Nat × List Char :=
  match lexemes.getLast? with
  | some l => if isWord l then (l.start, l.source) else (size, [])
  | none => (size, [])

def suggestions (catalog : Catalog) (line : String) (position : Nat) : List Suggestion :=
  let size := Text.byteSize line.toList
  if position ≠ size then []
  else
    let (start, word) := lastWord size (Lexeme.scan line.toList)
    (complete catalog line).suffixes.map fun suffix =>
      ⟨String.ofList word ++ suffix, start, size, false⟩

end CqlConsole.Completion
