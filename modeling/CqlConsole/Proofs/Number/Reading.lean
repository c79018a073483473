import CqlConsole.Number.Hex
import CqlConsole.Number.Numeral
import CqlConsole.Uuid
import Mathlib.Data.List.Basic

/-!
# Numerals and digits read back

Reading the text of a number, of bytes or of an identifier gives the value it
was written from. Numerals have no leading sign but a minus, bytes are pairs of
digits in lower case, and an identifier groups its thirty-two digits by signs
that reading takes out again.
-/

set_option autoImplicit false

namespace CqlConsole.Number

open CqlConsole.Text

section Numerals

theorem digitsValue_eq (n : Nat) (s : List Char) : digitsValue n s = Nat.ofDigitChars 10 s n := by
  induction s generalizing n with
  | nil => rfl
  | cons c s ih => exact ih _

theorem isDigit_of_mem_naturalText {n : Nat} {c : Char} (h : c ∈ naturalText n) :
    c.isDigit = true :=
  Nat.isDigit_of_mem_toDigits (by decide) (by decide) h

theorem naturalText_ne_nil (n : Nat) : naturalText n ≠ [] :=
  Nat.toDigits_ne_nil

theorem natural?_naturalText (n : Nat) : natural? (naturalText n) = some n := by
  have hdigits : isDigits (naturalText n) = true := by
    rw [isDigits, Bool.and_eq_true, Bool.not_eq_true', List.isEmpty_eq_false_iff,
      List.all_eq_true]
    exact ⟨naturalText_ne_nil n, fun c hc => isDigit_of_mem_naturalText hc⟩
  rw [natural?, if_pos hdigits, digitsValue_eq, naturalText,
    Nat.ofDigitChars_toDigits (by decide) (by decide)]

/-- There are no zeros in front, unless the zero is all of it. -/
theorem head_naturalText {n : Nat} (h : 0 < n) : '0' ∉ (naturalText n).head? := by
  induction n using Nat.strongRecOn with
  | _ n ih =>
    by_cases hn : n < 10
    · rw [naturalText, Nat.toDigits_of_lt_base hn, List.head?_cons, Option.mem_some,
        Nat.digitChar_eq_zero]
      omega
    · have htens := ih (n / 10) (by omega) (by omega)
      have happend := Nat.toDigits_append_toDigits (b := 10) (n := n / 10) (d := n % 10)
        (by decide) (by omega) (by omega)
      rw [Nat.div_add_mod] at happend
      rw [naturalText, ← happend, List.head?_append_of_ne_nil _ Nat.toDigits_ne_nil]
      exact htens

/-- A numeral without a sign is read as a natural number. -/
theorem integer?_of_digits {s : List Char} (h : ∀ c ∈ s, c.isDigit = true) :
    integer? s = (natural? s).map fun n => (n : Int) := by
  refine integer?.eq_3 s ?_ ?_
  · rintro t rfl
    cases h '-' (by simp)
  · rintro t rfl
    cases h '+' (by simp)

theorem integer?_integerText (n : Int) : integer? (integerText n) = some n := by
  cases n with
  | ofNat n =>
    rw [integerText, integer?_of_digits fun c hc => isDigit_of_mem_naturalText hc,
      natural?_naturalText]
    rfl
  | negSucc n =>
    rw [integerText, integer?, natural?_naturalText]
    rfl

end Numerals

section Hex

theorem isHexDigit_digitChar : ∀ d < 16, isHexDigit (Nat.digitChar d) = true := by
  decide

theorem hexValue_digitChar : ∀ d < 16, hexValue (Nat.digitChar d) = d := by
  decide

theorem isHexDigit_of_mem_hexOfBytes {bs : List UInt8} {c : Char} (h : c ∈ hexOfBytes bs) :
    isHexDigit c = true := by
  induction bs with
  | nil => cases h
  | cons b bs ih =>
    have hb := b.toNat_lt
    rcases List.mem_cons.1 h with rfl | h
    · exact isHexDigit_digitChar _ (by omega)
    · rcases List.mem_cons.1 h with rfl | h
      · exact isHexDigit_digitChar _ (by omega)
      · exact ih h

theorem bytesOfHex?_hexOfBytes (bs : List UInt8) : bytesOfHex? (hexOfBytes bs) = some bs := by
  induction bs with
  | nil => rfl
  | cons b bs ih =>
    have hb := b.toNat_lt
    have hhigh : b.toNat / 16 < 16 := by omega
    have hlow : b.toNat % 16 < 16 := by omega
    have hvalue : UInt8.ofNat (16 * (b.toNat / 16) + b.toNat % 16) = b := by
      rw [Nat.div_add_mod, UInt8.ofNat_toNat]
    simp [hexOfBytes, bytesOfHex?, isHexDigit_digitChar _ hhigh, isHexDigit_digitChar _ hlow,
      hexValue_digitChar _ hhigh, hexValue_digitChar _ hlow, hvalue, ih]

end Hex

end CqlConsole.Number

namespace CqlConsole.Uuid

open CqlConsole.Number

theorem length_digits (u : Uuid) : (hexOfBytes u.bytes).length = 32 := by
  rw [hexOfBytes_length, u.length_eq]

theorem length_grouped {digits : List Char} (h : digits.length = 32) :
    (grouped digits).length = 36 := by
  simp [grouped, h]

/-- The digits in groups, with and without the signs between them. -/
theorem exists_groups {digits : List Char} (h : digits.length = 32) :
    ∃ a b c d e : List Char, digits = a ++ (b ++ (c ++ (d ++ e))) ∧ a.length = 8 ∧ b.length = 4 ∧
      c.length = 4 ∧ d.length = 4 ∧ e.length = 12 ∧
      grouped digits = a ++ '-' :: (b ++ '-' :: (c ++ '-' :: (d ++ '-' :: e))) := by
  refine ⟨digits.take 8, (digits.drop 8).take 4, (digits.drop 12).take 4, (digits.drop 16).take 4,
    digits.drop 20, ?_, by simp [h], by simp [h], by simp [h], by simp [h], by simp [h], ?_⟩
  · have hb := List.take_append_drop 4 (digits.drop 8)
    have hc := List.take_append_drop 4 (digits.drop 12)
    have hd := List.take_append_drop 4 (digits.drop 16)
    rw [List.drop_drop] at hb hc hd
    rw [hd, hc, hb, List.take_append_drop]
  · simp only [grouped, List.append_assoc, List.cons_append]

/-- Taking the signs out of grouped digits leaves the digits. -/
theorem ungrouped?_grouped {digits : List Char} (h : digits.length = 32) :
    ungrouped? (grouped digits) = some digits := by
  obtain ⟨a, b, c, d, e, hdigits, ha, hb, hc, hd, he, hgrouped⟩ := exists_groups h
  have hsigns : (grouped digits).take 8 ++ ((grouped digits).drop 9).take 4 ++
      ((grouped digits).drop 14).take 4 ++ ((grouped digits).drop 19).take 4 ++
      (grouped digits).drop 24 = digits := by
    rw [hgrouped, hdigits]
    simp [List.drop_append, List.drop_eq_nil_of_le, ha, hb, hc, hd]
  rw [ungrouped?, hsigns, if_pos rfl]

theorem ofText?_text (u : Uuid) : ofText? u.text = some u := by
  have hlength : u.text.length = 36 := length_grouped u.length_digits
  have hbare : unwrapped u.text = u.text := by simp [unwrapped, hlength]
  have hdigits : ofDigits? (hexOfBytes u.bytes) = some u := by
    simp [ofDigits?, bytesOfHex?_hexOfBytes, u.length_eq]
  rw [ofText?, if_neg (by omega), hbare, text, ungrouped?_grouped u.length_digits,
    Option.bind_some, hdigits]

end CqlConsole.Uuid
