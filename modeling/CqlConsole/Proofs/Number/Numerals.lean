import CqlConsole.Proofs.Number.Overflow
import CqlConsole.Proofs.Number.Reading
import CqlConsole.Proofs.Token.Forms
import Mathlib.Data.Nat.Digits.Defs
import Mathlib.Tactic.Ring

/-!
# What a numeral stands for

Digits count for their places, a sign in front turns the number round, and an
exponent shifts the point. The readers of numerals come to these values, with
the digits on both sides of the point taken together and the point made up for
in the exponent.
-/

set_option autoImplicit false

namespace CqlConsole.Number

open CqlConsole.Form CqlConsole.Run CqlConsole.Text Computability

variable {s t : List Char}

def decimalValue (s : List Char) : Nat :=
  Nat.ofDigits 10 (s.reverse.map digitValue)

def signedValue : List Char → Int
  | '-' :: s => -(decimalValue s : Int)
  | '+' :: s => decimalValue s
  | s => decimalValue s

theorem decimalValue_append (s t : List Char) :
    decimalValue (s ++ t) = decimalValue s * 10 ^ t.length + decimalValue t := by
  simp only [decimalValue, List.reverse_append, List.map_append, Nat.ofDigits_append,
    List.length_map, List.length_reverse]
  ring

theorem digitsValue_zero (s : List Char) : digitsValue 0 s = decimalValue s := by
  rw [digitsValue_eq]
  induction s with
  | nil => rfl
  | cons c s ih =>
    have hhead : decimalValue [c] = c.toNat - '0'.toNat := by simp [decimalValue, digitValue]
    have hcons := decimalValue_append [c] s
    rw [List.singleton_append, hhead] at hcons
    rw [Nat.ofDigitChars_cons, Nat.ofDigitChars_eq_ofDigitChars_zero, ih, hcons]
    ring

section Signs

theorem natural?_of_digits (h : s ∈ many digit) : natural? s = some (decimalValue s) := by
  obtain ⟨hne, hall⟩ := mem_digits.1 h
  rw [natural?, isDigits, hne, hall, Bool.not_false, Bool.true_and, if_pos rfl,
    digitsValue_zero]

theorem signedValue_of_digits (h : s ∈ many digit) : signedValue s = decimalValue s := by
  have hall := List.all_eq_true.1 (mem_digits.1 h).2
  refine signedValue.eq_3 s ?_ ?_
  · rintro u rfl
    cases hall '-' (by simp)
  · rintro u rfl
    cases hall '+' (by simp)

/-- Digits after a sign, or without one, are read as the number they spell. -/
theorem integer?_of_signed_digits (h : s ∈ maybe (mark '+' + mark '-') * many digit) :
    integer? s = some (signedValue s) := by
  simp only [mem_maybe_mul, add_mul, Language.mem_add, mem_mark_mul] at h
  rcases h with h | ⟨u, hu, rfl⟩ | ⟨u, hu, rfl⟩
  · rw [integer?_of_digits (List.all_eq_true.1 (mem_digits.1 h).2), natural?_of_digits h,
      signedValue_of_digits h]
    rfl
  · rw [integer?, natural?_of_digits hu]
    rfl
  · rw [integer?, natural?_of_digits hu]
    rfl

theorem integer?_of_integer (h : s ∈ Form.integer) : integer? s = some (signedValue s) := by
  refine integer?_of_signed_digits ?_
  rw [Form.integer, mem_maybe_mul, mem_mark_mul] at h
  simp only [mem_maybe_mul, add_mul, Language.mem_add, mem_mark_mul]
  exact h.imp_right Or.inr

end Signs

section Points

def scale : List Char → Int
  | [] => 0
  | _ :: s => signedValue s

inductive Magnitude : List Char → ℚ → Prop
  | whole {w s : List Char} (hw : w ∈ many digit) (hs : s ∈ maybe exponent) :
    Magnitude (w ++ s) (decimalValue w * 10 ^ scale s)
  | pointed {w f s : List Char} (hw : w ∈ many digit) (hf : f ∈ digit∗) (hs : s ∈ maybe exponent) :
    Magnitude (w ++ '.' :: (f ++ s))
      ((decimalValue w + decimalValue f / 10 ^ f.length) * 10 ^ scale s)

/-- A decimal text is a numeral, or one after a minus sign. -/
theorem exists_magnitude (h : s ∈ decimal) : ∃ t x, Magnitude t x ∧ (s = t ∨ s = '-' :: t) := by
  have hnumeral : ∀ t, t ∈ many digit * tail → ∃ x, Magnitude t x := by
    intro t ht
    obtain ⟨w, hw, u, hu, rfl⟩ := Language.mem_mul.1 ht
    rw [tail, Language.mem_add, fraction, mul_assoc, mem_mark_mul] at hu
    rcases hu with ⟨v, hv, rfl⟩ | hu
    · obtain ⟨f, hf, r, hr, rfl⟩ := Language.mem_mul.1 hv
      exact ⟨_, .pointed hw hf hr⟩
    · exact ⟨_, .whole hw (Or.inr hu)⟩
  rw [decimal, Form.integer, mul_assoc, mem_maybe_mul, mem_mark_mul] at h
  rcases h with h | ⟨t, ht, rfl⟩
  · obtain ⟨x, hx⟩ := hnumeral s h
    exact ⟨s, x, hx, Or.inl rfl⟩
  · obtain ⟨x, hx⟩ := hnumeral t ht
    exact ⟨t, x, hx, Or.inr rfl⟩

theorem Magnitude.begins {x : ℚ} (h : Magnitude s x) : ∃ c r, s = c :: r ∧ c.isDigit = true := by
  have hword : ∀ w ∈ many digit, ∀ r, ∃ c r', w ++ r = c :: r' ∧ c.isDigit = true := by
    intro w hw r
    obtain ⟨hne, hall⟩ := mem_many_one.1 hw
    obtain ⟨c, w, rfl⟩ := List.exists_cons_of_ne_nil hne
    exact ⟨c, w ++ r, rfl, hall c List.mem_cons_self⟩
  cases h with
  | whole hw hs => exact hword _ hw _
  | pointed hw hf hs => exact hword _ hw _

/-- The decimal texts beyond the bound, by whether a minus sign stands in front. -/
inductive Overflows : Bool → List Char → Prop
  | plain {s : List Char} {x : ℚ} (h : Magnitude s x) (hx : overflowBound ≤ x) : Overflows false s
  | minus {s : List Char} {x : ℚ} (h : Magnitude s x) (hx : overflowBound ≤ x) :
    Overflows true ('-' :: s)

end Points

/-- A text that a word is written as begins with a letter. -/
theorem begins_of_lower {w : String} (h : lower s = w.toList)
    (hw : w.toList.all Char.isAlpha = true) (hne : w ≠ "") :
    ∃ c r, s = c :: r ∧ c.isAlpha = true := by
  have hplain := isPlainName_of_lower h hw hne
  cases s with
  | nil => cases hplain
  | cons c s =>
    rw [isPlainName, Bool.and_eq_true] at hplain
    exact ⟨c, s, rfl, hplain.1⟩

namespace Binary64

theorem exponentPart?_eq (h : s ∈ maybe exponent) : exponentPart? s = some (scale s) := by
  cases s with
  | nil => rfl
  | cons c s =>
    obtain ⟨hc, hs⟩ := mem_exponent.1 (h.resolve_left (List.cons_ne_nil c s))
    rw [exponentPart?, integer?_of_signed_digits (mem_signed_digits.2 hs), if_pos (by simpa using hc)]
    rfl

section Parts

variable {w f : List Char}

theorem unsigned?_whole (hw : w ∈ many digit) (hs : s ∈ maybe exponent) (negative : Bool) :
    unsigned? negative (w ++ s) = some (ofDecimal negative (decimalValue w) (scale s)) := by
  obtain ⟨hne, hall⟩ := mem_many_one.1 hw
  obtain ⟨htake, hdrop⟩ := dropWhile_of_avoids (avoids_maybe avoids_exponent) hall hs
  have hpoint : ∀ r, s ≠ '.' :: r := by
    rintro r rfl
    rcases (mem_exponent.1 (hs.resolve_left (List.cons_ne_nil '.' r))).1 with hc | hc <;> cases hc
  rw [unsigned?, htake, hdrop]
  split
  rename_i fraction rest hparts
  have hnone : fraction = [] ∧ rest = s := by
    split at hparts
    · exact absurd rfl (hpoint _)
    · cases hparts
      exact ⟨rfl, rfl⟩
  obtain ⟨rfl, rfl⟩ := hnone
  rw [if_neg (by simp [hne]), exponentPart?_eq hs, List.append_nil, digitsValue_zero]
  simp

theorem unsigned?_pointed (hw : w ∈ many digit) (hf : f ∈ digit∗) (hs : s ∈ maybe exponent)
    (negative : Bool) : unsigned? negative (w ++ '.' :: (f ++ s)) =
      some (ofDecimal negative (decimalValue (w ++ f)) (scale s - f.length)) := by
  obtain ⟨hne, hall⟩ := mem_many_one.1 hw
  obtain ⟨hfraction, hrest⟩ :=
    dropWhile_of_avoids (avoids_maybe avoids_exponent) (mem_one_star.1 hf) hs
  have htail : '.' :: (f ++ s) ∈ tail := mem_tail_dot.2 (hrest.symm ▸ hs)
  obtain ⟨htake, hdrop⟩ := dropWhile_of_avoids avoids_tail hall htail
  rw [unsigned?, htake, hdrop]
  simp only [hfraction, hrest]
  rw [if_neg (by simp [hne]), exponentPart?_eq hs, digitsValue_zero]
  rfl

end Parts

/-- A numeral is read as its digits and a power of ten that also makes up for the point. -/
theorem unsigned?_of_magnitude {x : ℚ} (h : Magnitude s x) :
    ∃ (n : Nat) (e : Int), x = n * 10 ^ e ∧
      ∀ negative, unsigned? negative s = some (ofDecimal negative n e) := by
  cases h with
  | whole hw hs => exact ⟨_, _, rfl, unsigned?_whole hw hs⟩
  | @pointed w f s hw hf hs =>
    refine ⟨decimalValue (w ++ f), scale s - f.length, ?_, unsigned?_pointed hw hf hs⟩
    rw [decimalValue_append, zpow_sub₀ (by norm_num), zpow_natCast]
    push_cast
    field_simp

section Words

theorem magnitude?_of_magnitude {x : ℚ} (h : Magnitude s x) (negative : Bool) :
    magnitude? negative s = unsigned? negative s := by
  obtain ⟨c, r, rfl, hc⟩ := h.begins
  have hother : ∀ w : String, w.toList.all Char.isAlpha = true → w ≠ "" →
      ¬lower (c :: r) = w.toList := by
    intro w hw hne heq
    obtain ⟨d, u, hcons, hd⟩ := begins_of_lower heq hw hne
    cases hcons
    rw [isAlpha_of_isDigit hc] at hd
    cases hd
  rw [magnitude?, if_neg (hother "nan" (by decide) (by decide)), if_neg]
  rw [Bool.or_eq_true, decide_eq_true_eq, decide_eq_true_eq, not_or]
  exact ⟨hother "inf" (by decide) (by decide), hother "infinity" (by decide) (by decide)⟩

theorem ofText?_cons {c : Char} (hminus : c ≠ '-') (hplus : c ≠ '+') :
    ofText? (c :: s) = magnitude? false (c :: s) := by
  refine ofText?.eq_3 _ ?_ ?_
  · intro r heq
    exact hminus (List.cons.inj heq).1
  · intro r heq
    exact hplus (List.cons.inj heq).1

theorem ofText?_of_magnitude {x : ℚ} (h : Magnitude s x) :
    ∃ (n : Nat) (e : Int), x = n * 10 ^ e ∧ ofText? s = some (ofDecimal false n e) ∧
      ofText? ('-' :: s) = some (ofDecimal true n e) := by
  obtain ⟨n, e, hx, hread⟩ := unsigned?_of_magnitude h
  refine ⟨n, e, hx, ?_, ?_⟩
  · obtain ⟨c, r, rfl, hc⟩ := h.begins
    rw [ofText?_cons (by rintro rfl; cases hc) (by rintro rfl; cases hc),
      magnitude?_of_magnitude h, hread]
  · rw [ofText?, magnitude?_of_magnitude h, hread]

theorem ofText?_of_notFinite (h : s ∈ notFinite) :
    ofText? s = some (if lower s = "infinity".toList then infinite false else nan) := by
  obtain ⟨w, hw, hs⟩ := h
  have hletters : ∀ v ∈ ["nan", "infinity"], v.toList.all Char.isAlpha = true ∧ v ≠ "" := by decide
  obtain ⟨c, r, rfl, hc⟩ := begins_of_lower hs (hletters w hw).1 (hletters w hw).2
  rw [ofText?_cons (by rintro rfl; cases hc) (by rintro rfl; cases hc), magnitude?, hs]
  rcases List.mem_pair.1 hw with rfl | rfl
  · simp
  · simp

theorem exists_ofText? (h : s ∈ decimal + notFinite) : ∃ x, ofText? s = some x := by
  rcases h with h | h
  · obtain ⟨t, x, ht, rfl | rfl⟩ := exists_magnitude h
    · obtain ⟨n, e, -, hplain, -⟩ := ofText?_of_magnitude ht
      exact ⟨_, hplain⟩
    · obtain ⟨n, e, -, -, hminus⟩ := ofText?_of_magnitude ht
      exact ⟨_, hminus⟩
  · exact ⟨_, ofText?_of_notFinite h⟩

theorem ofText?_of_overflows {b : Bool} (h : Overflows b s) : ofText? s = some (infinite b) := by
  cases h with
  | plain h hx =>
    obtain ⟨n, e, rfl, hplain, -⟩ := ofText?_of_magnitude h
    rw [hplain, ofDecimal_eq_infinite.2 ⟨rfl, hx⟩]
  | minus h hx =>
    obtain ⟨n, e, rfl, -, hminus⟩ := ofText?_of_magnitude h
    rw [hminus, ofDecimal_eq_infinite.2 ⟨rfl, hx⟩]

theorem ofText?_eq_infinite (h : s ∈ decimal + notFinite) {b : Bool} :
    ofText? s = some (infinite b) ↔
      lower s = "infinity".toList ∧ b = false ∨ Overflows b s := by
  constructor
  · intro hread
    rcases h with h | h
    · right
      obtain ⟨t, x, ht, rfl | rfl⟩ := exists_magnitude h
      · obtain ⟨n, e, rfl, hplain, -⟩ := ofText?_of_magnitude ht
        obtain ⟨rfl, hx⟩ := ofDecimal_eq_infinite.1 (Option.some.inj (hplain.symm.trans hread))
        exact .plain ht hx
      · obtain ⟨n, e, rfl, -, hminus⟩ := ofText?_of_magnitude ht
        obtain ⟨rfl, hx⟩ := ofDecimal_eq_infinite.1 (Option.some.inj (hminus.symm.trans hread))
        exact .minus ht hx
    · left
      rw [ofText?_of_notFinite h] at hread
      split at hread
      · rename_i hword
        cases hread
        exact ⟨hword, rfl⟩
      · cases hread
  · rintro (⟨hword, rfl⟩ | hover)
    · rw [ofText?_of_notFinite ⟨"infinity", by decide, hword⟩, if_pos hword]
    · exact ofText?_of_overflows hover

end Words

end Binary64

end CqlConsole.Number
