/-!
# Byte positions

Positions in a text count the bytes of its UTF-8 form. A text is a list of
characters here, so a position is the summed size of the characters before it.
-/

set_option autoImplicit false

namespace CqlConsole.Text

def byteSize : List Char → Nat
  | [] => 0
  | c :: s => c.utf8Size + byteSize s

@[simp] theorem byteSize_nil : byteSize [] = 0 := rfl

@[simp] theorem byteSize_cons (c : Char) (s : List Char) :
    byteSize (c :: s) = c.utf8Size + byteSize s := rfl

@[simp] theorem byteSize_append (s t : List Char) :
    byteSize (s ++ t) = byteSize s + byteSize t := by
  induction s with
  | nil => simp
  | cons c s ih => simp [ih, Nat.add_assoc]

theorem byteSize_eq_zero_iff {s : List Char} : byteSize s = 0 ↔ s = [] := by
  cases s with
  | nil => simp
  | cons c s =>
    have hc := c.utf8Size_pos
    simp only [byteSize_cons, reduceCtorEq, iff_false]
    omega

theorem byteSize_pos {s : List Char} (h : s ≠ []) : 0 < byteSize s :=
  Nat.pos_of_ne_zero fun hzero => h (byteSize_eq_zero_iff.1 hzero)

theorem length_le_byteSize_flatten {rs : List (List Char)} (h : ∀ r ∈ rs, r ≠ []) :
    rs.length ≤ byteSize rs.flatten := by
  induction rs with
  | nil => exact Nat.zero_le _
  | cons r rs ih =>
    obtain ⟨hr, hrs⟩ := List.forall_mem_cons.1 h
    have hpos := byteSize_pos hr
    have hrest := ih hrs
    rw [List.length_cons, List.flatten_cons, byteSize_append]
    omega

def dropBytes : Nat → List Char → List Char
  | _, [] => []
  | 0, s => s
  | n + 1, c :: s => dropBytes (n + 1 - c.utf8Size) s

def takeBytes : Nat → List Char → List Char
  | _, [] => []
  | 0, _ => []
  | n + 1, c :: s => c :: takeBytes (n + 1 - c.utf8Size) s

def slice (start stop : Nat) (s : List Char) : List Char :=
  takeBytes (stop - start) (dropBytes start s)

@[simp] theorem takeBytes_zero (s : List Char) : takeBytes 0 s = [] := by
  cases s <;> rfl

@[simp] theorem dropBytes_zero (s : List Char) : dropBytes 0 s = s := by
  cases s <;> rfl

theorem exists_utf8Size_add (c : Char) (n : Nat) :
    ∃ m, c.utf8Size + n = m + 1 ∧ m + 1 - c.utf8Size = n := by
  have hc := c.utf8Size_pos
  exact ⟨c.utf8Size + n - 1, by omega, by omega⟩

@[simp] theorem takeBytes_cons (c : Char) (n : Nat) (s : List Char) :
    takeBytes (c.utf8Size + n) (c :: s) = c :: takeBytes n s := by
  obtain ⟨m, hm, hn⟩ := exists_utf8Size_add c n
  rw [hm, takeBytes, hn]

@[simp] theorem dropBytes_cons (c : Char) (n : Nat) (s : List Char) :
    dropBytes (c.utf8Size + n) (c :: s) = dropBytes n s := by
  obtain ⟨m, hm, hn⟩ := exists_utf8Size_add c n
  rw [hm, dropBytes, hn]

theorem takeBytes_byteSize_append (s t : List Char) :
    takeBytes (byteSize s) (s ++ t) = s := by
  induction s with
  | nil => simp
  | cons c s ih => simp [ih]

theorem dropBytes_byteSize_append (s t : List Char) :
    dropBytes (byteSize s) (s ++ t) = t := by
  induction s with
  | nil => simp
  | cons c s ih => simp [ih]

/-- Cutting at the ends of the middle part gives the middle part. -/
theorem slice_append (s t u : List Char) :
    slice (byteSize s) (byteSize s + byteSize t) (s ++ (t ++ u)) = t := by
  simp [slice, dropBytes_byteSize_append, takeBytes_byteSize_append]

end CqlConsole.Text
