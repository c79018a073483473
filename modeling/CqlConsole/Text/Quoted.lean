/-!
# Quoted text

A quoted text stands between two quote characters, and a quote inside it is
written twice. `unquote` takes the quotes off again. A name written without
quotes is read in lower case, a quoted one exactly as it stands.
-/

set_option autoImplicit false

namespace CqlConsole.Text

def lower (s : List Char) : List Char :=
  s.map Char.toLower

def upper (s : List Char) : List Char :=
  s.map Char.toUpper

def double (q : Char) : List Char → List Char
  | [] => []
  | c :: s => if c = q then q :: q :: double q s else c :: double q s

def collapse (q : Char) : List Char → List Char
  | [] => []
  | [c] => [c]
  | c :: d :: s => if c = q ∧ d = q then q :: collapse q s else c :: collapse q (d :: s)

def enquote (q : Char) (s : List Char) : List Char :=
  q :: (double q s ++ [q])

/-- The text inside the quotes; a text that does not have `q` at both ends is kept. -/
def unquote (q : Char) : List Char → List Char
  | [] => []
  | c :: s => if c = q ∧ s.getLast? = some q then collapse q s.dropLast else c :: s

theorem collapse_cons {q c : Char} (h : c ≠ q) (s : List Char) :
    collapse q (c :: s) = c :: collapse q s := by
  cases s <;> simp [collapse, h]

theorem collapse_double (q : Char) (s : List Char) : collapse q (double q s) = s := by
  induction s with
  | nil => rfl
  | cons c s ih =>
    by_cases h : c = q
    · simp [double, collapse, h, ih]
    · simp [double, collapse_cons h, h, ih]

theorem unquote_enquote (q : Char) (s : List Char) : unquote q (enquote q s) = s := by
  simp [unquote, enquote, collapse_double]

def identifierChars : List Char → List Char
  | [] => []
  | c :: s => if c = '"' then unquote '"' (c :: s) else lower (c :: s)

def identifierName (s : String) : String :=
  String.ofList (identifierChars s.toList)

theorem identifierChars_enquote (s : List Char) : identifierChars (enquote '"' s) = s := by
  have h := unquote_enquote '"' s
  simpa [identifierChars, enquote] using h

end CqlConsole.Text
