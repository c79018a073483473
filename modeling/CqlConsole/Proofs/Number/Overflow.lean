import CqlConsole.Number.Binary64
import Mathlib.Algebra.Order.Field.Power
import Mathlib.Data.Int.Log
import Mathlib.Data.Nat.Digits.Defs
import Mathlib.Data.Rat.Floor
import Mathlib.Tactic.Linarith
import Mathlib.Tactic.NormNum
import Mathlib.Tactic.Positivity

/-!
# What rounds to an infinity

A ratio is brought to fifty-three binary digits by the exponent that its binary
logarithm names. The greatest finite value has the greatest exponent and all
digits set, so whatever lies at least half a unit of its last digit beyond it is
carried over the greatest exponent. The digits of a decimal numeral, however
many there are, round to an infinity exactly from this bound on.
-/

set_option autoImplicit false

namespace CqlConsole.Number

def overflowBound : ℚ :=
  (2 ^ 53 - 1 / 2) * 2 ^ 971

theorem one_le_overflowBound : 1 ≤ overflowBound := by
  rw [overflowBound]
  exact one_le_mul_of_one_le_of_one_le (by norm_num) (one_le_pow₀ (by norm_num))

theorem overflowBound_pos : 0 < overflowBound :=
  zero_lt_one.trans_le one_le_overflowBound

theorem overflowBound_le_pow : overflowBound ≤ 10 ^ 400 := by
  calc overflowBound ≤ 2 ^ 53 * 2 ^ 971 := by
        rw [overflowBound]
        gcongr
        norm_num
    _ = 2 ^ 1024 := by rw [← pow_add]
    _ ≤ (2 ^ 13) ^ 100 := by
        rw [← pow_mul]
        gcongr <;> norm_num
    _ ≤ (10 ^ 4) ^ 100 := by
        gcongr
        norm_num
    _ = 10 ^ 400 := by rw [← pow_mul]

section Rounding

variable {n d k : Nat}

theorem nearestEven_le_of_lt (hd : 0 < d) (h : (n : ℚ) / d < k) : nearestEven n d ≤ k := by
  have hquotient : n / d < k := by
    rw [Nat.div_lt_iff_lt_mul hd]
    rw [div_lt_iff₀ (by positivity)] at h
    exact_mod_cast h
  unfold nearestEven
  dsimp only
  split_ifs <;> omega

/-- Rounding reaches an even number from half a unit below it on. -/
theorem le_nearestEven_iff (hd : 0 < d) (heven : k % 2 = 0) :
    k ≤ nearestEven n d ↔ (k : ℚ) - 1 / 2 ≤ n / d := by
  have hscaled : (k : ℚ) - 1 / 2 ≤ n / d ↔ 2 * (k * d) ≤ 2 * n + d := by
    rw [le_div_iff₀ (by positivity), ← @Nat.cast_le ℚ]
    push_cast
    constructor <;> intro h <;> linarith
  have hsplit := Nat.div_add_mod' n d
  have hrest := Nat.mod_lt n hd
  rw [hscaled]
  unfold nearestEven
  dsimp only
  -- The remainder matters only to the quotient one below `k`, which is odd, so that a tie goes up.
  rcases Nat.lt_trichotomy k (n / d + 1) with h | h | h
  · have hbelow : k * d ≤ n / d * d := Nat.mul_le_mul_right d (by omega)
    split_ifs <;> omega
  · have hexact : k * d = n / d * d + d := by rw [h, Nat.succ_mul]
    split_ifs <;> omega
  · have habove : (n / d + 2) * d ≤ k * d := Nat.mul_le_mul_right d (by omega)
    rw [Nat.add_mul] at habove
    split_ifs <;> omega

end Rounding

section Scaling

/-- A power as a ratio of two with natural exponents. -/
theorem zpow_eq_div {b : ℚ} (hb : b ≠ 0) (e : Int) : b ^ e = b ^ e.toNat / b ^ (-e).toNat := by
  rw [← zpow_natCast, ← zpow_natCast, ← zpow_sub₀ hb]
  congr 1
  omega

variable {num den : Nat} {q : Int}

theorem scaleBinary_pos (hden : 0 < den) : 0 < (scaleBinary num den q).2 :=
  Nat.mul_pos hden (Nat.pow_pos (by decide))

theorem scaleBinary_value : ((scaleBinary num den q).1 : ℚ) / (scaleBinary num den q).2 =
    num / den / 2 ^ q := by
  simp only [scaleBinary, Nat.pow_eq, Nat.cast_mul, Nat.cast_pow, Nat.cast_ofNat]
  rw [zpow_eq_div two_ne_zero q, mul_div_mul_comm, div_div_eq_mul_div, mul_div_assoc]

end Scaling

/-- The number of the digits gives the power of ten next above. -/
theorem naturalText_bounds {n : Nat} (hn : 0 < n) :
    (10 : ℚ) ^ (((naturalText n).length : Int) - 1) ≤ n ∧
      (n : ℚ) < 10 ^ ((naturalText n).length : Int) := by
  obtain ⟨k, hk⟩ : ∃ k, (naturalText n).length = k + 1 :=
    Nat.exists_eq_add_one.2 Nat.length_toDigits_pos
  have hhigh : n < 10 ^ (k + 1) :=
    (Nat.length_toDigits_le_iff (by decide) (by omega)).1 (le_of_eq hk)
  have hlow : 10 ^ k ≤ n := by
    rcases Nat.eq_zero_or_pos k with rfl | hpos
    · exact hn
    · by_contra hlt
      have hshort := (Nat.length_toDigits_le_iff (by decide) hpos).2 (not_le.1 hlt)
      rw [← naturalText, hk] at hshort
      omega
  rw [hk, Nat.cast_succ, add_sub_cancel_right]
  exact ⟨by exact_mod_cast hlow, by exact_mod_cast hhigh⟩

namespace Binary64

variable {num den : Nat}

theorem le_log_iff {x : ℚ} {e : Int} (hx : 0 < x) : 2 ^ e ≤ x ↔ e ≤ Int.log 2 x := by
  exact_mod_cast Int.zpow_le_iff_le_log (b := 2) (x := e) (by decide) hx

theorem log_lt_iff {x : ℚ} {e : Int} (hx : 0 < x) : x < 2 ^ e ↔ Int.log 2 x < e := by
  exact_mod_cast Int.lt_zpow_iff_log_lt (b := 2) (x := e) (by decide) hx

/-- The binary logarithm of a ratio lies less than one off the difference of the logarithms. -/
theorem log_bounds (hnum : 0 < num) (hden : 0 < den) :
    (2 : ℚ) ^ ((Nat.log2 num : Int) - Nat.log2 den - 1) < num / den ∧
      (num : ℚ) / den < 2 ^ ((Nat.log2 num : Int) - Nat.log2 den + 1) := by
  have htwo : (2 : ℚ) ≠ 0 := two_ne_zero
  have hden' : (0 : ℚ) < den := by exact_mod_cast hden
  have hlow : (2 : ℚ) ^ num.log2 ≤ num := by exact_mod_cast Nat.log2_self_le hnum.ne'
  have hhigh : (num : ℚ) < 2 ^ (num.log2 + 1) := by exact_mod_cast Nat.lt_log2_self
  have hlow' : (2 : ℚ) ^ den.log2 ≤ den := by exact_mod_cast Nat.log2_self_le hden.ne'
  have hhigh' : (den : ℚ) < 2 ^ (den.log2 + 1) := by exact_mod_cast Nat.lt_log2_self
  constructor
  · calc (2 : ℚ) ^ ((num.log2 : Int) - den.log2 - 1) = 2 ^ num.log2 / 2 ^ (den.log2 + 1) := by
          rw [sub_sub, zpow_sub₀ htwo]
          norm_cast
      _ < num / den := div_lt_div₀' hlow hhigh' (by positivity) hden'
  · calc (num : ℚ) / den < 2 ^ (num.log2 + 1) / 2 ^ den.log2 :=
          div_lt_div₀ hhigh hlow' (by positivity) (by positivity)
      _ = 2 ^ ((num.log2 : Int) - den.log2 + 1) := by
          rw [sub_add_eq_add_sub, zpow_sub₀ htwo]
          norm_cast

theorem exponentFor_eq (hnum : 0 < num) (hden : 0 < den) :
    exponentFor num den = max minExponent (Int.log 2 ((num : ℚ) / den) - 52) := by
  obtain ⟨hlow, hhigh⟩ := log_bounds hnum hden
  have hpos : (0 : ℚ) < num / den := by positivity
  unfold exponentFor
  dsimp only
  generalize hguess : (Nat.log2 num : Int) - Nat.log2 den - 53 = guess
  -- The guess is one too small exactly if the quotient has a digit too many.
  have hdigits : (scaleBinary num den guess).1 / (scaleBinary num den guess).2 < Nat.pow 2 53 ↔
      Int.log 2 ((num : ℚ) / den) < guess + 53 := by
    rw [← log_lt_iff hpos, zpow_add₀ two_ne_zero, ← div_lt_iff₀' (by positivity),
      ← scaleBinary_value, Nat.div_lt_iff_lt_mul (scaleBinary_pos hden),
      div_lt_iff₀ (by exact_mod_cast scaleBinary_pos hden)]
    norm_cast
  have hleast := (le_log_iff hpos).1 hlow.le
  have hgreatest := (log_lt_iff hpos).1 hhigh
  simp only [hdigits]
  split_ifs <;> congr 1 <;> omega

/-- What lies beyond the bound has a greater exponent, or the greatest one and no digit that is
not set. -/
theorem overflowBound_le_iff {x : ℚ} (hx : 0 < x) :
    overflowBound ≤ x ↔
      1023 < Int.log 2 x ∨
        Int.log 2 x = 1023 ∧ (2 : ℚ) ^ 53 - 1 / 2 ≤ x / 2 ^ maxExponent := by
  have hmantissa : (2 : ℚ) ^ 53 - 1 / 2 ≤ x / 2 ^ maxExponent ↔ overflowBound ≤ x := by
    rw [le_div_iff₀ (by positivity), overflowBound, maxExponent, zpow_ofNat]
  have habove : (2 : ℚ) ^ ((53 + 971 : ℕ) : Int) ≤ x → overflowBound ≤ x := by
    refine le_trans ?_
    rw [overflowBound, zpow_natCast, pow_add]
    gcongr
    norm_num
  have hbelow : overflowBound ≤ x → (2 : ℚ) ^ ((52 + 971 : ℕ) : Int) ≤ x := by
    refine le_trans ?_
    rw [overflowBound, zpow_natCast, pow_add]
    gcongr
    norm_num
  rw [le_log_iff hx] at habove hbelow
  rw [hmantissa]
  constructor
  · intro h
    have hlog := hbelow h
    by_cases hgreater : 1023 < Int.log 2 x
    · exact Or.inl hgreater
    · exact Or.inr ⟨by omega, h⟩
  · rintro (h | ⟨-, h⟩)
    · exact habove (by omega)
    · exact h

def mantissa (num den : Nat) : Nat :=
  let scaled := scaleBinary num den (exponentFor num den)
  nearestEven scaled.1 scaled.2

theorem finished_eq_infinite {negative b : Bool} {m : Nat} {q : Int} :
    (if maxExponent < q then infinite negative else finite negative m q) = infinite b ↔
      b = negative ∧ maxExponent < q := by
  split
  · rename_i hq
    simp [hq, eq_comm]
  · rename_i hq
    simp [hq]

theorem ofRatio_eq {negative : Bool} (hnum : num ≠ 0) :
    ofRatio negative num den =
      if mantissa num den = 2 ^ 53 then
        if maxExponent < exponentFor num den + 1 then infinite negative
        else finite negative (2 ^ 52) (exponentFor num den + 1)
      else if maxExponent < exponentFor num den then infinite negative
      else finite negative (mantissa num den) (exponentFor num den) := by
  have hpow : ∀ k, Nat.pow 2 k = 2 ^ k := fun _ => rfl
  rw [ofRatio, if_neg hnum]
  simp only [hpow]
  rw [← mantissa]
  split <;> rfl

theorem ofRatio_eq_infinite_iff {negative b : Bool} :
    ofRatio negative num den = infinite b ↔ b = negative ∧ num ≠ 0 ∧
      (maxExponent < exponentFor num den ∨
        exponentFor num den = maxExponent ∧ mantissa num den = 2 ^ 53) := by
  by_cases hnum : num = 0
  · simp [ofRatio, hnum]
  rw [ofRatio_eq hnum]
  simp only [ne_eq, hnum, not_false_eq_true, true_and]
  split
  · rename_i hm
    rw [finished_eq_infinite]
    refine and_congr_right fun _ => ?_
    simp only [hm, and_true]
    omega
  · rename_i hm
    rw [finished_eq_infinite]
    simp only [hm, and_false, or_false]

/-- At the greatest exponent the digits are all set and carried exactly if half a unit or less is
missing to the next power of two. -/
theorem mantissa_eq_iff (hden : 0 < den) {q : Int} (hq : exponentFor num den = q)
    (hlt : (num : ℚ) / den / 2 ^ q < 2 ^ 53) :
    mantissa num den = 2 ^ 53 ↔ (2 : ℚ) ^ 53 - 1 / 2 ≤ num / den / 2 ^ q := by
  have hscaled : 0 < (scaleBinary num den q).2 := scaleBinary_pos hden
  rw [← scaleBinary_value] at hlt ⊢
  have hle := nearestEven_le_of_lt (k := 2 ^ 53) hscaled (by exact_mod_cast hlt)
  have hreaches := le_nearestEven_iff (n := (scaleBinary num den q).1) (k := 2 ^ 53) hscaled rfl
  rw [Nat.cast_pow, Nat.cast_ofNat] at hreaches
  rw [← hreaches, mantissa, hq]
  exact ⟨ge_of_eq, le_antisymm hle⟩

/-- A ratio is carried over the greatest exponent exactly from the bound on. -/
theorem ofRatio_eq_infinite {negative b : Bool} (hden : 0 < den) :
    ofRatio negative num den = infinite b ↔ b = negative ∧ overflowBound ≤ (num : ℚ) / den := by
  rw [ofRatio_eq_infinite_iff]
  refine and_congr_right fun _ => ?_
  rcases Nat.eq_zero_or_pos num with rfl | hnum
  · have hbound := overflowBound_pos
    simp [hbound]
  have hpos : (0 : ℚ) < num / den := by positivity
  have hexponent := exponentFor_eq hnum hden
  rw [overflowBound_le_iff hpos]
  simp only [hnum.ne', ne_eq, not_false_eq_true, true_and]
  refine or_congr ?_ ?_
  · rw [hexponent, maxExponent, minExponent]
    omega
  · have hgreatest : exponentFor num den = maxExponent ↔ Int.log 2 ((num : ℚ) / den) = 1023 := by
      rw [hexponent, maxExponent, minExponent]
      omega
    rw [hgreatest]
    refine and_congr_right fun hlog => ?_
    have hlt : (num : ℚ) / den / 2 ^ maxExponent < 2 ^ 53 := by
      rw [div_lt_iff₀ (by positivity), ← zpow_natCast, ← zpow_add₀ two_ne_zero, log_lt_iff hpos,
        hlog, maxExponent]
      decide
    exact mantissa_eq_iff hden (hgreatest.2 hlog) hlt

/-- The digits of a numeral round to an infinity exactly if its value reaches the bound; the number
of the digits decides the same. -/
theorem ofDecimal_eq_infinite {negative b : Bool} {n : Nat} {e : Int} :
    ofDecimal negative n e = infinite b ↔ b = negative ∧ overflowBound ≤ (n : ℚ) * 10 ^ e := by
  have hten : (10 : ℚ) ≠ 0 := by norm_num
  have hnothing : ¬ofRatio negative 0 1 = infinite b := by simp [ofRatio]
  unfold ofDecimal
  dsimp only
  split_ifs with hn hmany hfew
  · have hmisses := overflowBound_pos
    simp [hn, hnothing, hmisses]
  · have hreaches : overflowBound ≤ (n : ℚ) * 10 ^ e := by
      calc overflowBound ≤ 10 ^ (400 : Int) := overflowBound_le_pow
        _ ≤ 10 ^ (((naturalText n).length : Int) - 1 + e) :=
            zpow_le_zpow_right₀ (by norm_num) (by omega)
        _ = 10 ^ (((naturalText n).length : Int) - 1) * 10 ^ e := zpow_add₀ hten _ _
        _ ≤ n * 10 ^ e := by
            gcongr
            exact (naturalText_bounds (Nat.pos_of_ne_zero hn)).1
    simp [hreaches, eq_comm]
  · have hmisses : (n : ℚ) * 10 ^ e < overflowBound := by
      calc (n : ℚ) * 10 ^ e < 10 ^ ((naturalText n).length : Int) * 10 ^ e := by
            gcongr
            exact (naturalText_bounds (Nat.pos_of_ne_zero hn)).2
        _ = 10 ^ ((naturalText n).length + e) := (zpow_add₀ hten _ _).symm
        _ ≤ 1 := zpow_le_one_of_nonpos₀ (by norm_num) (by omega)
        _ ≤ overflowBound := one_le_overflowBound
    simp [hnothing, hmisses]
  · have hden : 0 < Nat.pow 10 (-e).toNat := Nat.pow_pos (by decide)
    rw [ofRatio_eq_infinite hden, zpow_eq_div hten e, ← mul_div_assoc]
    simp only [Nat.pow_eq, Nat.cast_mul, Nat.cast_pow, Nat.cast_ofNat]

end Binary64

end CqlConsole.Number
