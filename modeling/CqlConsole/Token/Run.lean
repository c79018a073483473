import CqlConsole.Text.Blank

/-!
# Runs of characters

The input is cut into runs, and each run becomes one token. How a run goes on
depends only on how it began: a punctuation character stands alone, blanks go
with blanks, a quoted run lasts until its closing quote, a number until the
first character that no number holds, and a word until a blank, a quote or
punctuation. Nothing is lost: the runs, one after the other, are the input.
-/

set_option autoImplicit false

namespace CqlConsole.Run

open CqlConsole.Text

def isPunctuation (c : Char) : Bool :=
  c == '(' || c == ')' || c == ',' || c == '.' || c == ';' || c == '*' || c == '?' || c == ':'

def isQuote (c : Char) : Bool :=
  c == '\'' || c == '"'

inductive Mode where
  | punctuation
  /-- Between quotes `q`; `closing` after a quote that ends the run unless a second one follows. -/
  | quoted (q : Char) (closing : Bool)
  | number
  | blanks
  | word
  deriving DecidableEq, Repr

namespace Mode

def start (c : Char) : Mode :=
  if isPunctuation c then punctuation
  else if isQuote c then quoted c false
  else if c == '-' then number
  else if isBlank c then blanks
  else if c.isDigit then number
  else word

def step : Mode → Char → Option Mode
  | punctuation, _ => none
  | quoted q closing, c =>
    if closing && c != q then none else some (quoted q (c == q && !closing))
  | number, c => if c.isAlphanum || c == '.' || c == '+' || c == '-' then some number else none
  | blanks, c => if isBlank c then some blanks else none
  | word, c => if isPunctuation c || isBlank c || isQuote c then none else some word

def isOpen : Mode → Bool
  | quoted _ closing => !closing
  | _ => false

def steps : Mode → List Char → Option Mode
  | m, [] => some m
  | m, c :: s => (m.step c).bind fun n => n.steps s

end Mode

def splitFrom : Mode → List Char → List Char × List (List Char)
  | _, [] => ([], [])
  | m, c :: s =>
    match m.step c with
    | some n => (c :: (splitFrom n s).1, (splitFrom n s).2)
    | none => ([], (c :: (splitFrom (.start c) s).1) :: (splitFrom (.start c) s).2)

def split : List Char → List (List Char)
  | [] => []
  | c :: s => (c :: (splitFrom (.start c) s).1) :: (splitFrom (.start c) s).2

def isOpen : List Char → Bool
  | [] => false
  | c :: s => ((Mode.start c).steps s).any Mode.isOpen

theorem splitFrom_flatten (m : Mode) (s : List Char) :
    (splitFrom m s).1 ++ (splitFrom m s).2.flatten = s := by
  induction s generalizing m with
  | nil => rfl
  | cons c s ih =>
    rw [splitFrom]
    cases h : m.step c with
    | some n => simp [ih n]
    | none => simp [ih (.start c)]

theorem split_flatten (s : List Char) : (split s).flatten = s := by
  cases s with
  | nil => rfl
  | cons c s => simp [split, splitFrom_flatten]

theorem splitFrom_ne_nil (m : Mode) (s : List Char) :
    ∀ r ∈ (splitFrom m s).2, r ≠ [] := by
  induction s generalizing m with
  | nil => simp [splitFrom]
  | cons c s ih =>
    rw [splitFrom]
    cases h : m.step c with
    | some n => exact ih n
    | none =>
      intro r hr
      rcases List.mem_cons.1 hr with rfl | hr
      · simp
      · exact ih (.start c) r hr

theorem split_ne_nil (s : List Char) : ∀ r ∈ split s, r ≠ [] := by
  cases s with
  | nil => simp [split]
  | cons c s =>
    intro r hr
    rcases List.mem_cons.1 hr with rfl | hr
    · simp
    · exact splitFrom_ne_nil (.start c) s r hr

end CqlConsole.Run
