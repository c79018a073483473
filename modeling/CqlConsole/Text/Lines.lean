/-!
# Pieces, lines and lists of texts

A text is cut into pieces at each separator; there is always at least one
piece. The lines of a text are its pieces between newlines. The other way
round, a list of texts is written with a separator between its members.
-/

set_option autoImplicit false

namespace CqlConsole.Text

def pieces (separator : Char) : List Char → List (List Char)
  | [] => [[]]
  | c :: s =>
    if c = separator then [] :: pieces separator s
    else
      match pieces separator s with
      | [] => [[c]]
      | p :: ps => (c :: p) :: ps

def lines (s : List Char) : List (List Char) :=
  pieces '\n' s

def joined (separator : String) : List String → String
  | [] => ""
  | [s] => s
  | s :: t :: rest => s ++ separator ++ joined separator (t :: rest)

def dropTail (tail s : List Char) : List Char :=
  if tail.isSuffixOf s then s.take (s.length - tail.length) else s

theorem pieces_ne_nil (separator : Char) (s : List Char) : pieces separator s ≠ [] := by
  cases s with
  | nil => simp [pieces]
  | cons c s =>
    rw [pieces]
    split
    · simp
    · split <;> simp

theorem pieces_eq_splitOn (separator : Char) (s : List Char) :
    pieces separator s = s.splitOn separator := by
  induction s with
  | nil => rfl
  | cons c s ih =>
    rw [pieces, List.splitOn_cons_eq_if_modifyHead, ih]
    by_cases hc : c = separator
    · simp [hc]
    · obtain ⟨p, ps, hp⟩ := List.exists_cons_of_ne_nil (List.splitOn_ne_nil separator s)
      simp [hc, hp]

theorem pieces_of_notMem {c : Char} {s : List Char} (h : c ∉ s) : pieces c s = [s] := by
  rw [pieces_eq_splitOn, List.splitOn_eq_singleton h]

theorem pieces_append_cons {c : Char} {s : List Char} (h : c ∉ s) (t : List Char) :
    pieces c (s ++ c :: t) = s :: pieces c t := by
  rw [pieces_eq_splitOn, pieces_eq_splitOn, List.splitOn_append_cons_self_of_not_mem h]

theorem joined_pieces (c : Char) (s : List Char) : [c].intercalate (pieces c s) = s := by
  rw [pieces_eq_splitOn, List.intercalate_splitOn]

theorem exists_dropTail (tail s : List Char) :
    s = dropTail tail s ∨ s = dropTail tail s ++ tail := by
  rw [dropTail]
  split
  · next h =>
    obtain ⟨front, rfl⟩ := List.isSuffixOf_iff_suffix.1 h
    exact .inr (by simp)
  · exact .inl rfl

theorem dropTail_append (s tail : List Char) : dropTail tail (s ++ tail) = s := by
  rw [dropTail, if_pos (List.isSuffixOf_iff_suffix.2 (List.suffix_append s tail))]
  simp

theorem dropTail_of_not_suffix {tail s : List Char} (h : ¬tail <:+ s) : dropTail tail s = s := by
  rw [dropTail, if_neg fun hsuffix => h (List.isSuffixOf_iff_suffix.1 hsuffix)]

end CqlConsole.Text
