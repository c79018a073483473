import CqlConsole.Proofs.Token.Growth
import CqlConsole.Proofs.Token.Tiling

/-!
# Where a cursor stands

A cursor that started at the front of an input stands between two of its tokens,
however it got there. It is nothing but its position: what it hands out next is
what the text from there on gives when it is scanned by itself.
-/

set_option autoImplicit false

namespace CqlConsole

namespace Run

variable {m : Mode} {s : List Char} {rs qs : List (List Char)}

theorem splitFrom_suffix (h : (splitFrom m s).2 = rs ++ qs) : split qs.flatten = qs := by
  induction s generalizing m rs with
  | nil =>
    obtain ⟨rfl, rfl⟩ := List.append_eq_nil_iff.1 h.symm
    rfl
  | cons c s ih =>
    rw [splitFrom] at h
    cases hc : m.step c with
    | some n =>
      rw [hc] at h
      exact ih h
    | none =>
      rw [hc] at h
      cases rs with
      | nil =>
        have hall : split (c :: s) = qs := h
        rw [← hall, split_flatten]
      | cons r rs => exact ih (List.cons.inj h).2

/-- The runs behind some of them are those of the text that is left. -/
theorem split_suffix (h : split s = rs ++ qs) : split qs.flatten = qs := by
  cases rs with
  | nil => rw [← List.nil_append qs, ← h, split_flatten]
  | cons r rs =>
    cases s with
    | nil => cases h
    | cons c s => exact splitFrom_suffix (List.cons.inj h).2

end Run

namespace Cursor

open CqlConsole.Text

section Passes

variable {c c' : Cursor} {l : Lexeme} {ls front : List Lexeme} {p : Nat}

structure Passes (c : Cursor) (front : List Lexeme) (c' : Cursor) : Prop where
  rest_eq : c.rest = front ++ c'.rest
  position_eq : c'.position = endFrom c.position front

theorem Passes.stay (c : Cursor) : c.Passes [] c :=
  ⟨rfl, rfl⟩

theorem Passes.cons (h : Passes ⟨l.stop, ls⟩ front c') : Passes ⟨p, l :: ls⟩ (l :: front) c' :=
  ⟨congrArg (List.cons l) h.rest_eq, h.position_eq⟩

theorem endFrom_concat (p : Nat) (ls : List Lexeme) (l : Lexeme) :
    endFrom p (ls ++ [l]) = l.stop := by
  induction ls generalizing p with
  | nil => rfl
  | cons m ls ih => exact ih m.stop

/-- The end is handed out again and again, any other token once. -/
theorem next_cases (c : Cursor) :
    (c.rest = [] ∧ c.next = (.endOfInput c.position, c)) ∨
      ∃ l, c.Passes [l] c.next.2 ∧ c.next.1 = l.token := by
  obtain ⟨p, ls⟩ := c
  cases ls with
  | nil => exact Or.inl ⟨rfl, rfl⟩
  | cons l ls => exact Or.inr ⟨l, (Passes.stay _).cons, rfl⟩

theorem nextSolid_cases (c : Cursor) :
    ∃ blanks : List Lexeme, (∀ b ∈ blanks, b.kind = .whitespace) ∧
      ((c.Passes blanks c.nextSolid.2 ∧ c.nextSolid.2.rest = [] ∧
          c.nextSolid.1 = .endOfInput c.nextSolid.2.position) ∨
        ∃ l, c.Passes (blanks ++ [l]) c.nextSolid.2 ∧ l.kind ≠ .whitespace ∧
          c.nextSolid.1 = l.token) := by
  obtain ⟨p, ls⟩ := c
  induction ls generalizing p with
  | nil => exact ⟨[], by simp, Or.inl ⟨Passes.stay _, rfl, rfl⟩⟩
  | cons l ls ih =>
    rw [nextSolid_cons]
    by_cases hl : l.kind = .whitespace
    · obtain ⟨blanks, hblanks, h⟩ := ih l.stop
      rw [if_pos hl]
      refine ⟨l :: blanks, List.forall_mem_cons.2 ⟨hl, hblanks⟩, ?_⟩
      rcases h with ⟨hpass, h⟩ | ⟨m, hpass, h⟩
      · exact Or.inl ⟨hpass.cons, h⟩
      · exact Or.inr ⟨m, hpass.cons, h⟩
    · rw [if_neg hl]
      exact ⟨[], by simp, Or.inr ⟨l, (Passes.stay _).cons, hl, rfl⟩⟩

end Passes

def Stands (input : String) (c : Cursor) : Prop :=
  ∃ rs qs, Run.split input.toList = rs ++ qs ∧ c.position = byteSize rs.flatten ∧
    c.rest = Lexeme.place c.position qs

def behind (input : String) (p : Nat) : Cursor :=
  ⟨p, Lexeme.place p (Run.split (dropBytes p input.toList))⟩

section Stands

variable {input : String} {c c' : Cursor} {front rest : List Lexeme}

theorem stands_ofInput (input : String) : Stands input (ofInput input) :=
  ⟨[], Run.split input.toList, rfl, rfl, rfl⟩

/-- Placed runs that are cut in two are placed one after the other. -/
theorem exists_of_place {p : Nat} {qs : List (List Char)}
    (h : Lexeme.place p qs = front ++ rest) :
    ∃ us vs, qs = us ++ vs ∧ front = Lexeme.place p us ∧
      rest = Lexeme.place (p + byteSize us.flatten) vs ∧
      endFrom p front = p + byteSize us.flatten := by
  induction front generalizing p qs with
  | nil => exact ⟨[], qs, rfl, rfl, h.symm, rfl⟩
  | cons l front ih =>
    cases qs with
    | nil => cases h
    | cons q qs =>
      obtain ⟨rfl, htail⟩ := List.cons.inj h
      obtain ⟨us, vs, rfl, rfl, rfl, hend⟩ := ih htail
      refine ⟨q :: us, vs, rfl, rfl, ?_, ?_⟩
      · rw [List.flatten_cons, byteSize_append, Nat.add_assoc]
      · rw [endFrom, Lexeme.stop, hend, List.flatten_cons, byteSize_append, Nat.add_assoc]

theorem Stands.passes (h : Stands input c) (hpass : c.Passes front c') :
    Stands input c' ∧ Contiguous c.position (front.map Lexeme.token) c'.position ∧
      c.position ≤ c'.position := by
  obtain ⟨rs, qs, hsplit, hposition, hrest⟩ := h
  obtain ⟨us, vs, rfl, rfl, hvs, hend⟩ := exists_of_place (hrest.symm.trans hpass.rest_eq)
  have hposition' := hpass.position_eq.trans hend
  refine ⟨⟨rs ++ us, vs, ?_, ?_, ?_⟩, ?_, ?_⟩
  · rw [hsplit, List.append_assoc]
  · rw [hposition', hposition, List.flatten_append, byteSize_append]
  · rw [hvs, hposition']
  · rw [hposition']
    exact Lexeme.contiguous_place _ us
  · rw [hposition']
    exact Nat.le_add_right _ _

theorem Stands.position_of_rest (h : Stands input c) (hrest : c.rest = []) :
    c.position = input.utf8ByteSize := by
  obtain ⟨rs, qs, hsplit, hposition, hplace⟩ := h
  have hqs : qs = [] := by
    cases qs with
    | nil => rfl
    | cons q qs => simp [hplace, Lexeme.place] at hrest
  rw [utf8ByteSize_eq, ← Run.split_flatten input.toList, hsplit, hqs, List.append_nil, hposition]

/-- The tokens behind the cursor tile what is left of the input. -/
theorem Stands.contiguous (h : Stands input c) :
    Contiguous c.position (c.rest.map Lexeme.token) input.utf8ByteSize := by
  have hpass : c.Passes c.rest ⟨endFrom c.position c.rest, []⟩ :=
    ⟨(List.append_nil _).symm, rfl⟩
  obtain ⟨hend, hcontiguous, -⟩ := h.passes hpass
  rwa [hend.position_of_rest rfl] at hcontiguous

theorem Stands.eq_behind (h : Stands input c) : c = behind input c.position := by
  obtain ⟨rs, qs, hsplit, hposition, hrest⟩ := h
  have hinput := Run.split_flatten input.toList
  rw [hsplit, List.flatten_append] at hinput
  have hleft : dropBytes c.position input.toList = qs.flatten := by
    rw [← hinput, hposition, dropBytes_byteSize_append]
  obtain ⟨p, rest⟩ := c
  rw [behind, hleft, Run.split_suffix hsplit, ← hrest]

theorem Stands.position_mem (h : Stands input c) :
    c.position ∈ (tokenize input).map Token.start := by
  rw [tokenize, ← utf8ByteSize_eq, List.map_append, List.mem_append]
  cases hrest : c.rest with
  | nil => exact Or.inr (List.mem_singleton.2 (h.position_of_rest hrest))
  | cons l ls =>
    obtain ⟨rs, qs, hsplit, hposition, hplace⟩ := h
    refine Or.inl (List.mem_map.2 ⟨l.token, List.mem_map_of_mem ?_, ?_⟩)
    · rw [Lexeme.scan, hsplit, Run.place_append, Nat.zero_add, ← hposition, ← hplace, hrest]
      simp
    · cases qs with
      | nil => simp [hplace, Lexeme.place] at hrest
      | cons q qs =>
        rw [hplace, Lexeme.place] at hrest
        obtain ⟨rfl, -⟩ := List.cons.inj hrest
        rfl

end Stands

end Cursor

end CqlConsole
