import CqlConsole.Proofs.Token.Depth
import Mathlib.Data.Nat.Count

/-!
# Parentheses that are closed

An opening parenthesis is closed by a closing one further behind, and no closing
one serves twice. The depth of a text does not tell whether all of them are
closed, as a closing parenthesis counts in front of an opening one as well. The
depths of all its ends do.
-/

set_option autoImplicit false

namespace CqlConsole.Token

def places (p : Token → Bool) (ts : List Token) : Finset Nat :=
  {i ∈ Finset.range ts.length | ts[i]?.any p = true}

/-- Every opening parenthesis has a closing one for itself further behind. -/
def AllClosed (ts : List Token) : Prop :=
  ∃ partner : Nat → Nat, Set.InjOn partner (places isOpenBracket ts) ∧
    ∀ i ∈ places isOpenBracket ts, i < partner i ∧ partner i ∈ places isCloseBracket ts

section Places

variable {p : Token → Bool} {t : Token} {ts : List Token} {i : Nat}

theorem mem_places : i ∈ places p ts ↔ ts[i]?.any p = true := by
  rw [places, Finset.mem_filter, Finset.mem_range, and_iff_right_iff_imp]
  intro h
  by_contra hlength
  rw [List.getElem?_eq_none (Nat.not_lt.1 hlength)] at h
  cases h

@[simp] theorem zero_mem_places : 0 ∈ places p (t :: ts) ↔ p t = true := by
  rw [mem_places, List.getElem?_cons_zero, Option.any_some]

@[simp] theorem succ_mem_places : i + 1 ∈ places p (t :: ts) ↔ i ∈ places p ts := by
  rw [mem_places, List.getElem?_cons_succ, mem_places]

theorem card_places (p : Token → Bool) (ts : List Token) : (places p ts).card = ts.countP p := by
  rw [places, ← Nat.count_eq_card_filter_range]
  induction ts with
  | nil => rfl
  | cons t ts ih =>
    rw [List.length_cons, Nat.count_succ', List.countP_cons, ← ih]
    simp

end Places

section Partners

variable {t : Token} {ts : List Token}

theorem AllClosed.depth_le (h : AllClosed ts) : depth ts ≤ 0 := by
  obtain ⟨partner, hinj, hpartner⟩ := h
  have hcard : (places isOpenBracket ts).card ≤ (places isCloseBracket ts).card :=
    Finset.card_le_card_of_injOn partner (fun i hi => (hpartner i hi).2) hinj
  rw [card_places, card_places] at hcard
  rw [depth_eq_count]
  omega

theorem AllClosed.tail (h : AllClosed (t :: ts)) : AllClosed ts := by
  obtain ⟨partner, hinj, hpartner⟩ := h
  have hbehind {i : Nat} (hi : i ∈ places isOpenBracket ts) :
      i < partner (i + 1) - 1 ∧ partner (i + 1) = partner (i + 1) - 1 + 1 := by
    have hlt := (hpartner (i + 1) (succ_mem_places.2 hi)).1
    omega
  refine ⟨fun i => partner (i + 1) - 1, fun i hi j hj heq => ?_, fun i hi => ⟨(hbehind hi).1, ?_⟩⟩
  · have hsame : partner (i + 1) = partner (j + 1) := by
      rw [(hbehind hi).2, (hbehind hj).2]
      exact congrArg Nat.succ heq
    exact Nat.succ.inj (hinj (succ_mem_places.2 hi) (succ_mem_places.2 hj) hsame)
  · have hclose := (hpartner (i + 1) (succ_mem_places.2 hi)).2
    rw [(hbehind hi).2] at hclose
    exact succ_mem_places.1 hclose

/-- Where the tokens close more than they open, a closing parenthesis is still free. -/
theorem exists_free (partner : Nat → Nat) (h : depth ts < 0) :
    ∃ k ∈ places isCloseBracket ts, k ∉ (places isOpenBracket ts).image partner := by
  refine Finset.exists_mem_notMem_of_card_lt_card (Finset.card_image_le.trans_lt ?_)
  rw [card_places, card_places]
  rw [depth_eq_count] at h
  omega

theorem AllClosed.cons (h : AllClosed ts) (hdepth : depth (t :: ts) ≤ 0) :
    AllClosed (t :: ts) := by
  obtain ⟨partner, hinj, hpartner⟩ := h
  -- What is open further behind keeps its partner, and one that opens now takes a free one.
  obtain ⟨k, hk⟩ : ∃ k, t.isOpenBracket = true →
      k ∈ places isCloseBracket ts ∧ k ∉ (places isOpenBracket ts).image partner := by
    by_cases hopen : t.isOpenBracket = true
    · rw [depth_cons, weight, if_pos hopen] at hdepth
      have hless : depth ts < 0 := by omega
      obtain ⟨k, hclose, hfree⟩ := exists_free partner hless
      exact ⟨k, fun _ => ⟨hclose, hfree⟩⟩
    · exact ⟨0, fun h => absurd h hopen⟩
  have hapart {j : Nat} (h0 : 0 ∈ places isOpenBracket (t :: ts))
      (hj : j ∈ places isOpenBracket ts) : k + 1 ≠ partner j + 1 := by
    intro heq
    refine (hk (zero_mem_places.1 h0)).2 ?_
    rw [Nat.succ.inj heq]
    exact Finset.mem_image_of_mem partner hj
  refine ⟨fun i => i.casesOn (k + 1) fun i => partner i + 1, ?_, ?_⟩
  · rintro (_ | i) hi (_ | j) hj heq
    · rfl
    · exact absurd heq (hapart hi (succ_mem_places.1 hj))
    · exact absurd heq.symm (hapart hj (succ_mem_places.1 hi))
    · exact congrArg Nat.succ
        (hinj (succ_mem_places.1 hi) (succ_mem_places.1 hj) (Nat.succ.inj heq))
  · rintro (_ | i) hi
    · exact ⟨k.succ_pos, succ_mem_places.2 (hk (zero_mem_places.1 hi)).1⟩
    · obtain ⟨hlt, hclose⟩ := hpartner i (succ_mem_places.1 hi)
      exact ⟨Nat.succ_lt_succ hlt, succ_mem_places.2 hclose⟩

/-- Everything is closed if no end of the tokens opens more than it closes. -/
theorem allClosed_iff : AllClosed ts ↔ ∀ rest, rest <:+ ts → depth rest ≤ 0 := by
  induction ts with
  | nil =>
    refine ⟨fun _ rest hrest => ?_, fun _ => ⟨id, by simp [places], by simp [places]⟩⟩
    rw [List.suffix_nil.1 hrest]
    exact Int.le_refl 0
  | cons t ts ih =>
    simp only [List.suffix_cons_iff, forall_eq_or_imp, ← ih]
    exact ⟨fun h => ⟨h.depth_le, h.tail⟩, fun h => h.2.cons h.1⟩

instance : DecidablePred AllClosed := fun ts =>
  decidable_of_iff (∀ rest ∈ ts.tails, depth rest ≤ 0) (by simp [allClosed_iff])

/-- Where nothing is closed before it is open, the depth of the whole is enough. -/
theorem allClosed_of_front (hfront : ∀ front, front <+: ts → 0 ≤ depth front) :
    AllClosed ts ↔ depth ts ≤ 0 := by
  refine ⟨AllClosed.depth_le, fun hdepth => allClosed_iff.2 ?_⟩
  rintro rest ⟨front, rfl⟩
  have hprefix := hfront front (List.prefix_append front rest)
  rw [depth_append] at hdepth
  omega

end Partners

end CqlConsole.Token
