import CqlConsole.Proofs.Toml.Strings
import CqlConsole.Toml.Reader

/-!
# Values read back

The value of a key is written as a string, a numeral or a word, and is read
back as far as the end of its line. Its first character tells which it is.
-/

set_option autoImplicit false

namespace CqlConsole.Toml

open CqlConsole.Number CqlConsole.Text

def Scalar.node : Scalar → Node
  | string s => .string s
  | natural n => .integer n
  | boolean b => .boolean b

section Numerals

variable {s rest : List Char}

theorem isGrouped_digits (hs : s ≠ []) (h : ∀ c ∈ s, c.isDigit = true) :
    isGrouped Char.isDigit s = true := by
  induction s with
  | nil => exact absurd rfl hs
  | cons c s ih =>
    obtain ⟨hc, hrest⟩ := List.forall_mem_cons.1 h
    unfold isGrouped
    split
    · rename_i heq
      cases heq
    · rename_i heq
      obtain ⟨rfl, -⟩ := List.cons.inj heq
      exact hc
    · rename_i heq
      obtain ⟨-, rfl⟩ := List.cons.inj heq
      cases hrest '_' List.mem_cons_self
    · rename_i hne _ heq
      obtain ⟨rfl, rfl⟩ := List.cons.inj heq
      rw [hc, Bool.true_and]
      refine ih (fun hnil => hne ?_) hrest
      rw [hnil]

theorem dropSign_digits (h : ∀ c ∈ s, c.isDigit = true) : dropSign s = s := by
  unfold dropSign
  split
  · cases h '+' List.mem_cons_self
  · cases h '-' List.mem_cons_self
  · rfl

theorem ungroup_digits (h : ∀ c ∈ s, c.isDigit = true) : ungroup s = s := by
  refine List.filter_eq_self.2 fun c hc => ?_
  rw [bne_iff_ne]
  rintro rfl
  cases h '_' hc

theorem isPlainNumber_naturalText (n : Nat) : isPlainNumber (naturalText n) = true := by
  have hdigits : ∀ c ∈ naturalText n, c.isDigit = true := fun c hc => isDigit_of_mem_naturalText hc
  rw [isPlainNumber, isGrouped_digits (naturalText_ne_nil n) hdigits, Bool.true_and]
  rcases Nat.eq_zero_or_pos n with rfl | hn
  · rfl
  · have hhead := head_naturalText hn
    simp only [Option.mem_def] at hhead
    simp [hhead]

theorem integer?_naturalText (n : Nat) : Toml.integer? (naturalText n) = some (n : Int) := by
  have hdigits : ∀ c ∈ naturalText n, c.isDigit = true := fun c hc => isDigit_of_mem_naturalText hc
  -- The letter of a base would be a digit.
  have hbase {c : Char} {t : List Char} (hc : c.isDigit = false) (d : Char) :
      naturalText n ≠ d :: c :: t := by
    intro heq
    rw [hdigits c (by simp [heq])] at hc
    cases hc
  unfold Toml.integer?
  split
  · rename_i heq
    exact absurd heq (hbase rfl '0')
  · rename_i heq
    exact absurd heq (hbase rfl '0')
  · rename_i heq
    exact absurd heq (hbase rfl '0')
  · rw [dropSign_digits hdigits, isPlainNumber_naturalText, if_pos rfl, ungroup_digits hdigits,
      integer?_of_digits hdigits, natural?_naturalText]
    rfl

theorem scalar?_naturalText (n : Nat) : scalar? (naturalText n) = some (.integer n) := by
  have hword {word : List Char} (c : Char) (hc : c ∈ word) (hdigit : c.isDigit = false) :
      naturalText n ≠ word := by
    rintro rfl
    rw [isDigit_of_mem_naturalText hc] at hdigit
    cases hdigit
  rw [scalar?, if_neg (hword 'e' (by decide) rfl), if_neg (hword 'e' (by decide) rfl),
    integer?_naturalText]

theorem scalarText_line (h : ∀ c ∈ s, isScalarChar c = true) (rest : List Char) :
    scalarText (s ++ '\n' :: rest) = s := by
  have htake : (s ++ '\n' :: rest).takeWhile isScalarChar = s := by
    rw [List.takeWhile_append_of_pos h, List.takeWhile_cons_of_neg (by decide), List.append_nil]
  rw [scalarText, htake, List.drop_left]
  rfl

end Numerals

section Values

variable {s t rest : List Char} {c : Char} {depth : Nat}

theorem lineString?_of_ne (hbasic : c ≠ '"') (hliteral : c ≠ '\'') :
    lineString? (c :: s) = none := by
  unfold lineString?
  split
  · rename_i heq
    exact absurd (List.cons.inj heq).1 hbasic
  · rename_i heq
    exact absurd (List.cons.inj heq).1 hliteral
  · rfl

theorem string?_of_ne (hbasic : c ≠ '"') (hliteral : c ≠ '\'') : string? (c :: s) = none := by
  unfold string?
  split
  · rename_i heq
    exact absurd (List.cons.inj heq).1 hbasic
  · rename_i heq
    exact absurd (List.cons.inj heq).1 hliteral
  · exact lineString?_of_ne hbasic hliteral

/-- A value that begins with no bracket or brace is a string, or it has no quotes. -/
theorem value?_of_ne (hbracket : c ≠ '[') (hbrace : c ≠ '\x7b') :
    value? depth (c :: s) =
      match string? (c :: s) with
      | some (text, rest) => some (.string (String.ofList text), rest)
      | none => (scalar? (scalarText (c :: s))).map fun v =>
          (v, (c :: s).drop (scalarText (c :: s)).length) := by
  refine value?.eq_3 depth (c :: s) ?_ ?_
  · intro _ _ _ heq
    exact hbracket (List.cons.inj heq).1
  · intro _ _ _ heq
    exact hbrace (List.cons.inj heq).1

theorem value?_of_string (hc : c = '"' ∨ c = '\'') (h : string? (c :: s) = some (t, rest)) :
    value? depth (c :: s) = some (.string (String.ofList t), rest) := by
  have hne : c ≠ '[' ∧ c ≠ '\x7b' := by rcases hc with rfl | rfl <;> decide
  rw [value?_of_ne hne.1 hne.2, h]

theorem value?_of_scalar {v : Node} (h : ∀ b ∈ c :: s, isScalarChar b = true)
    (hv : scalar? (c :: s) = some v) :
    value? depth (c :: (s ++ '\n' :: rest)) = some (v, '\n' :: rest) := by
  have hc := h c List.mem_cons_self
  have htext : scalarText (c :: (s ++ '\n' :: rest)) = c :: s := scalarText_line h rest
  rw [value?_of_ne (Run.ne_of_class hc rfl) (Run.ne_of_class hc rfl),
    string?_of_ne (Run.ne_of_class hc rfl) (Run.ne_of_class hc rfl), htext, hv]
  exact congrArg (fun u => some (v, u)) List.drop_left

theorem exists_writeString (s : List Char) :
    ∃ q t, writeString s = q :: t ∧ (q = '"' ∨ q = '\'') := by
  simp only [writeString]
  split_ifs
  · exact ⟨'"', _, rfl, .inl rfl⟩
  · exact ⟨'\'', _, rfl, .inr rfl⟩
  · exact ⟨'"', _, rfl, .inl rfl⟩
  · exact ⟨'\'', _, rfl, .inr rfl⟩
  · exact ⟨'"', _, rfl, .inl rfl⟩
  · exact ⟨'"', _, rfl, .inl rfl⟩

theorem value?_write (depth : Nat) (x : Scalar) (rest : List Char) :
    value? depth (x.write ++ '\n' :: rest) = some (x.node, '\n' :: rest) := by
  cases x with
  | string s =>
    obtain ⟨q, t, ht, hq⟩ := exists_writeString s.toList
    have hread : string? (writeString s.toList ++ '\n' :: rest) = some (s.toList, '\n' :: rest) :=
      string?_writeString s.toList (by simp) (by simp)
    rw [Scalar.write, Scalar.node]
    rw [ht] at hread ⊢
    rw [List.cons_append] at hread ⊢
    rw [value?_of_string hq hread, String.ofList_toList]
  | natural n =>
    obtain ⟨c, s, hs⟩ := List.exists_cons_of_ne_nil (naturalText_ne_nil n)
    have hchars : ∀ b ∈ c :: s, isScalarChar b = true := by
      intro b hb
      rw [← hs] at hb
      simp [isScalarChar, Char.isAlphanum, isDigit_of_mem_naturalText hb]
    have hv := scalar?_naturalText n
    rw [hs] at hv
    rw [Scalar.write, hs]
    exact value?_of_scalar hchars hv
  | boolean b =>
    cases b with
    | true =>
      exact value?_of_scalar (c := 't') (s := ['r', 'u', 'e']) (List.all_eq_true.1 rfl) rfl
    | false =>
      exact value?_of_scalar (c := 'f') (s := ['a', 'l', 's', 'e']) (List.all_eq_true.1 rfl) rfl

theorem exists_write (x : Scalar) : ∃ c t, x.write = c :: t ∧ isSpace c = false := by
  cases x with
  | string s =>
    obtain ⟨q, t, ht, hq⟩ := exists_writeString s.toList
    exact ⟨q, t, ht, by rcases hq with rfl | rfl <;> rfl⟩
  | natural n =>
    obtain ⟨c, s, hs⟩ := List.exists_cons_of_ne_nil (naturalText_ne_nil n)
    refine ⟨c, s, hs, ?_⟩
    have hc : c.isDigit = true := isDigit_of_mem_naturalText (by rw [hs]; exact List.mem_cons_self)
    rw [isSpace, Bool.or_eq_false_iff, beq_eq_false_iff_ne, beq_eq_false_iff_ne]
    constructor <;> rintro rfl <;> cases hc
  | boolean b =>
    cases b with
    | true => exact ⟨'t', _, rfl, rfl⟩
    | false => exact ⟨'f', _, rfl, rfl⟩

end Values

end CqlConsole.Toml
