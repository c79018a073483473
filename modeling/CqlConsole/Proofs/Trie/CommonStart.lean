import CqlConsole.Proofs.Text.Encoding
import CqlConsole.Proofs.Trie.Edges

/-!
# Where two texts part

A trie cuts its edges by what they have in common with a text. That part is measured
in bytes by reading the two texts side by side, and it is the greatest one: it ends
between two characters of both texts, also where the characters behind it begin with
the same bytes.
-/

set_option autoImplicit false

namespace CqlConsole

open CqlConsole.Text

section CommonPrefix

theorem commonPrefix_comm (s t : List Char) : commonPrefix s t = commonPrefix t s := by
  induction s generalizing t with
  | nil => cases t <;> rfl
  | cons a s ih =>
    cases t with
    | nil => rfl
    | cons b t =>
      by_cases hab : a = b
      · simp [commonPrefix, hab, ih t]
      · simp [commonPrefix, hab, Ne.symm hab]

theorem commonPrefix_prefix_left (s t : List Char) : commonPrefix s t <+: s := by
  obtain ⟨u, -, hu, -⟩ := exists_commonPrefix s t
  exact ⟨u, hu.symm⟩

theorem prefix_commonPrefix {p s t : List Char} (hs : p <+: s) (ht : p <+: t) :
    p <+: commonPrefix s t := by
  obtain ⟨u, rfl⟩ := hs
  obtain ⟨v, rfl⟩ := ht
  rw [commonPrefix_append]
  exact List.prefix_append p _

theorem commonPrefix_eq_nil_iff (s t : List Char) :
    commonPrefix s t = [] ↔ s = [] ∨ t = [] ∨ s.head? ≠ t.head? := by
  cases s with
  | nil => simp [commonPrefix]
  | cons a s =>
    cases t with
    | nil => simp [commonPrefix]
    | cons b t => simp [commonPrefix]

end CommonPrefix

section Size

/-- Reading on from byte `start`, the first difference comes behind the common start. Without one
the shorter text is the common start. -/
theorem firstDifference_getD (start : Nat) (s t : List Char) :
    (firstDifference start s t).getD (start + min (byteSize s) (byteSize t)) =
      start + byteSize (commonPrefix s t) := by
  induction s generalizing start t with
  | nil => simp [firstDifference, commonPrefix]
  | cons a s ih =>
    cases t with
    | nil => simp [firstDifference, commonPrefix]
    | cons b t =>
      by_cases hab : a = b
      · subst hab
        rw [firstDifference, if_pos rfl, commonPrefix, if_pos rfl, byteSize_cons, byteSize_cons,
          byteSize_cons, Nat.add_min_add_left, ← Nat.add_assoc, ih, Nat.add_assoc]
      · simp [firstDifference, commonPrefix, hab]

theorem commonPrefixSize_eq (a b : String) :
    commonPrefixSize a b = byteSize (commonPrefix a.toList b.toList) := by
  have h := firstDifference_getD 0 a.toList b.toList
  rwa [Nat.zero_add, Nat.zero_add] at h

/-- The bytes in front of the measured place are those of the common start. -/
theorem take_commonPrefixSize (a b : String) :
    (bytes a.toList).take (commonPrefixSize a b) = bytes (commonPrefix a.toList b.toList) := by
  rw [commonPrefixSize_eq]
  exact take_bytes (commonPrefix_prefix_left a.toList b.toList)

theorem commonPrefixSize_comm (a b : String) : commonPrefixSize a b = commonPrefixSize b a := by
  rw [commonPrefixSize_eq, commonPrefixSize_eq, commonPrefix_comm]

theorem isValid_commonPrefixSize (a b : String) :
    String.Pos.Raw.IsValid a ⟨commonPrefixSize a b⟩ :=
  (isValid_iff a _).2 ⟨_, commonPrefix_prefix_left a.toList b.toList, commonPrefixSize_eq a b⟩

/-- A start of the first text that the second one has as well is not longer. -/
theorem le_commonPrefixSize {a b : String} {m : Nat} (hm : String.Pos.Raw.IsValid a ⟨m⟩)
    (h : (bytes a.toList).take m <+: bytes b.toList) : m ≤ commonPrefixSize a b := by
  obtain ⟨p, hp, rfl⟩ := (isValid_iff a m).1 hm
  rw [take_bytes hp, bytes_prefix_iff] at h
  obtain ⟨u, hu⟩ := prefix_commonPrefix hp h
  rw [commonPrefixSize_eq, ← hu, byteSize_append]
  exact Nat.le_add_right _ _

theorem commonPrefixSize_eq_zero_iff (a b : String) :
    commonPrefixSize a b = 0 ↔ a = "" ∨ b = "" ∨ a.toList.head? ≠ b.toList.head? := by
  rw [commonPrefixSize_eq, byteSize_eq_zero_iff, commonPrefix_eq_nil_iff, String.toList_eq_nil_iff,
    String.toList_eq_nil_iff]

/-- Up to byte `n` two texts are the same and are cut between characters, and no longer start of the
first text that is cut so is a start of the second. -/
structure CommonUpTo (a b : String) (n : Nat) : Prop where
  left : String.Pos.Raw.IsValid a ⟨n⟩
  right : String.Pos.Raw.IsValid b ⟨n⟩
  same : (bytes a.toList).take n = (bytes b.toList).take n
  greatest (m : Nat) (hm : n < m) (hvalid : String.Pos.Raw.IsValid a ⟨m⟩) :
    ¬(bytes a.toList).take m <+: bytes b.toList

theorem commonUpTo_commonPrefixSize (a b : String) : CommonUpTo a b (commonPrefixSize a b) where
  left := isValid_commonPrefixSize a b
  right := by
    rw [commonPrefixSize_comm]
    exact isValid_commonPrefixSize b a
  same := by
    rw [take_commonPrefixSize, commonPrefixSize_comm, take_commonPrefixSize, commonPrefix_comm]
  greatest _ hm hvalid hstart :=
    absurd (le_commonPrefixSize hvalid hstart) (Nat.not_le.2 hm)

theorem CommonUpTo.eq_commonPrefixSize {a b : String} {n : Nat} (h : CommonUpTo a b n) :
    n = commonPrefixSize a b := by
  have hsame := (commonUpTo_commonPrefixSize a b).same
  apply Nat.le_antisymm
  · refine le_commonPrefixSize h.left ?_
    rw [h.same]
    exact List.take_prefix n _
  · by_contra hlt
    refine h.greatest _ (Nat.not_le.1 hlt) (isValid_commonPrefixSize a b) ?_
    rw [hsame]
    exact List.take_prefix _ _

end Size

/-- One number of bytes, the one that is measured, has these properties: so far both texts are the
same, the place is between two characters of each or at an end, and no longer start of the first is
a start of the second. It is zero if a text is empty or the first characters differ, and only then,
and it does not depend on which of the texts comes first. -/
theorem commonPrefixSize_greatest (a b : String) :
    (∀ n, CommonUpTo a b n ↔ n = commonPrefixSize a b) ∧
      (commonPrefixSize a b = 0 ↔ a = "" ∨ b = "" ∨ a.toList.head? ≠ b.toList.head?) ∧
      commonPrefixSize a b = commonPrefixSize b a := by
  refine ⟨fun n => ⟨CommonUpTo.eq_commonPrefixSize, ?_⟩, commonPrefixSize_eq_zero_iff a b,
    commonPrefixSize_comm a b⟩
  rintro rfl
  exact commonUpTo_commonPrefixSize a b

/-- Two accented letters have their first byte in common, which belongs to no common start. -/
theorem commonPrefixSize_greatest_accents :
    (bytes "né".toList).take 2 = (bytes "nè".toList).take 2 ∧
      commonPrefixSize "né" "nè" = 1 ∧ CommonUpTo "né" "nè" 1 ∧ ¬CommonUpTo "né" "nè" 2 := by
  obtain ⟨hparts, -⟩ := commonPrefixSize_greatest "né" "nè"
  have hsize : commonPrefixSize "né" "nè" = 1 := by decide +kernel
  rw [hsize] at hparts
  exact ⟨by decide +kernel, hsize, (hparts 1).2 rfl, fun h => absurd ((hparts 2).1 h) (by decide)⟩

end CqlConsole
