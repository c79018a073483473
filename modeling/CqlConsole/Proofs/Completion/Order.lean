import CqlConsole.Completion.Rank
import CqlConsole.Proofs.Text.Encoding

/-!
# The order of candidates is the order of their bytes

Ranking compares texts by their number of bytes and then byte by byte, which is
a strict order without ties between different texts. A ranked list is therefore
determined by its members: all lists of the same texts are ranked alike.
-/

set_option autoImplicit false

namespace CqlConsole.Completion

open CqlConsole.Text

/-- The first text has fewer bytes, or equally many and the smaller ones. -/
def Before (a b : String) : Prop :=
  (bytes a.toList).length < (bytes b.toList).length ∨
    (bytes a.toList).length = (bytes b.toList).length ∧ bytes a.toList < bytes b.toList

namespace Before

variable {a b c : String}

theorem irrefl (a : String) : ¬Before a a := by
  rintro (h | ⟨-, h⟩)
  · exact Nat.lt_irrefl _ h
  · exact List.lt_irrefl _ h

theorem trans (hab : Before a b) (hbc : Before b c) : Before a c := by
  rcases hab with hab | ⟨hab, hab'⟩
  · rcases hbc with hbc | ⟨hbc, -⟩
    · exact Or.inl (Nat.lt_trans hab hbc)
    · exact Or.inl (hbc ▸ hab)
  · rcases hbc with hbc | ⟨hbc, hbc'⟩
    · exact Or.inl (hab ▸ hbc)
    · exact Or.inr ⟨hab.trans hbc, List.lt_trans hab' hbc'⟩

theorem ne (h : Before a b) : a ≠ b := by
  intro heq
  rw [heq] at h
  exact irrefl b h

theorem asymm (h : Before a b) : ¬Before b a :=
  fun hba => irrefl a (h.trans hba)

end Before

theorem nil_lt_bytes_cons (c : Char) (s : List Char) : [] < bytes (c :: s) := by
  rw [bytes_cons]
  obtain ⟨b, u, hb⟩ := List.exists_cons_of_ne_nil (String.utf8EncodeChar_ne_nil (c := c))
  rw [hb, List.cons_append]
  exact List.nil_lt_cons b _

theorem compareChars_spec (s t : List Char) :
    match compareChars s t with
    | .lt => bytes s < bytes t
    | .eq => s = t
    | .gt => bytes t < bytes s := by
  induction s generalizing t with
  | nil =>
    cases t with
    | nil => rfl
    | cons d t => exact nil_lt_bytes_cons d t
  | cons c s ih =>
    cases t with
    | nil => exact nil_lt_bytes_cons c s
    | cons d t =>
      rcases Nat.lt_trichotomy c.toNat d.toNat with hlt | heq | hgt
      · simpa [compareChars, Nat.compare_eq_lt.2 hlt] using utf8EncodeChar_lt (bytes s) (bytes t) hlt
      · obtain rfl : c = d := Char.toNat_inj.1 heq
        have htail := ih t
        cases hcompare : compareChars s t with
        | lt =>
          rw [hcompare] at htail
          simpa [compareChars, hcompare] using List.append_left_lt htail
        | eq =>
          rw [hcompare] at htail
          simpa [compareChars, hcompare] using htail
        | gt =>
          rw [hcompare] at htail
          simpa [compareChars, hcompare] using List.append_left_lt htail
      · simpa [compareChars, Nat.compare_eq_gt.2 hgt] using utf8EncodeChar_lt (bytes t) (bytes s) hgt

theorem rank_spec (a b : String) :
    match rank a b with
    | .lt => Before a b
    | .eq => a = b
    | .gt => Before b a := by
  rw [rank, ← length_bytes, ← length_bytes]
  rcases Nat.lt_trichotomy (bytes a.toList).length (bytes b.toList).length with hlt | heq | hgt
  · rw [Nat.compare_eq_lt.2 hlt]
    exact Or.inl hlt
  · have hchars := compareChars_spec a.toList b.toList
    rw [Nat.compare_eq_eq.2 heq, Ordering.eq_then]
    cases hcompare : compareChars a.toList b.toList with
    | lt =>
      rw [hcompare] at hchars
      exact Or.inr ⟨heq, hchars⟩
    | eq =>
      rw [hcompare] at hchars
      exact String.toList_inj.1 hchars
    | gt =>
      rw [hcompare] at hchars
      exact Or.inr ⟨heq.symm, hchars⟩
  · rw [Nat.compare_eq_gt.2 hgt]
    exact Or.inl hgt

theorem rank_cases (a b : String) :
    rank a b = .lt ∧ Before a b ∨ rank a b = .eq ∧ a = b ∨ rank a b = .gt ∧ Before b a := by
  have h := rank_spec a b
  cases hrank : rank a b with
  | lt =>
    rw [hrank] at h
    exact Or.inl ⟨rfl, h⟩
  | eq =>
    rw [hrank] at h
    exact Or.inr (Or.inl ⟨rfl, h⟩)
  | gt =>
    rw [hrank] at h
    exact Or.inr (Or.inr ⟨rfl, h⟩)

theorem Before.trichotomy (a b : String) : Before a b ∨ a = b ∨ Before b a :=
  (rank_cases a b).imp And.right (Or.imp And.right And.right)

section Comparison

variable (a b : String)

theorem rank_eq_lt_iff : rank a b = .lt ↔ Before a b := by
  rcases rank_cases a b with ⟨h, hab⟩ | ⟨h, rfl⟩ | ⟨h, hba⟩
  · simp [h, hab]
  · simp [h, Before.irrefl]
  · simp [h, hba.asymm]

theorem rank_eq_eq_iff : rank a b = .eq ↔ a = b := by
  rcases rank_cases a b with ⟨h, hab⟩ | ⟨h, rfl⟩ | ⟨h, hba⟩
  · simp [h, hab.ne]
  · simp [h]
  · simp [h, hba.ne.symm]

theorem rank_eq_gt_iff : rank a b = .gt ↔ Before b a := by
  rcases rank_cases a b with ⟨h, hab⟩ | ⟨h, rfl⟩ | ⟨h, hba⟩
  · simp [h, hab.asymm]
  · simp [h, Before.irrefl]
  · simp [h, hba]

theorem isLE_rank_iff : (rank a b).isLE = true ↔ a = b ∨ Before a b := by
  rcases rank_cases a b with ⟨h, hab⟩ | ⟨h, rfl⟩ | ⟨h, hba⟩
  · simp [h, hab]
  · simp [h]
  · simp [h, hba.ne.symm, hba.asymm]

theorem isLE_rank_total : ((rank a b).isLE || (rank b a).isLE) = true := by
  rw [Bool.or_eq_true, isLE_rank_iff, isLE_rank_iff]
  rcases Before.trichotomy a b with hab | heq | hba
  · exact Or.inl (Or.inr hab)
  · exact Or.inl (Or.inl heq)
  · exact Or.inr (Or.inr hba)

theorem rank_bne_gt : (rank a b != .gt) = (rank a b).isLE := by
  cases rank a b <;> rfl

end Comparison

instance : Std.OrientedCmp rank where
  eq_swap {a b} := by
    rcases rank_cases a b with ⟨h, hab⟩ | ⟨h, rfl⟩ | ⟨h, hba⟩
    · rw [h, (rank_eq_gt_iff b a).2 hab, Ordering.swap_gt]
    · rw [h, Ordering.swap_eq]
    · rw [h, (rank_eq_lt_iff b a).2 hba, Ordering.swap_lt]

instance : Std.TransCmp rank where
  isLE_trans {a b c} hab hbc := by
    rw [isLE_rank_iff] at hab hbc ⊢
    rcases hab with rfl | hab
    · exact hbc
    · rcases hbc with rfl | hbc
      · exact Or.inr hab
      · exact Or.inr (hab.trans hbc)

instance : Std.LawfulEqCmp rank where
  compare_self {a} := (rank_eq_eq_iff a a).2 rfl
  eq_of_compare {a b} := (rank_eq_eq_iff a b).1

section Ranked

theorem mem_dropRepeats (s : String) (items : List String) : s ∈ dropRepeats items ↔ s ∈ items := by
  induction items using dropRepeats.induct with
  | case1 => rfl
  | case2 t => rfl
  | case3 rest t ih => simp [dropRepeats, ih]
  | case4 t u rest hne ih => simp [dropRepeats, hne, ih]

/-- In a list in order, equal members stand together, and dropping repeats keeps one of them. -/
theorem pairwise_dropRepeats {items : List String}
    (h : items.Pairwise fun a b => a = b ∨ Before a b) : (dropRepeats items).Pairwise Before := by
  induction items using dropRepeats.induct with
  | case1 => exact List.Pairwise.nil
  | case2 t => exact List.pairwise_singleton _ t
  | case3 rest t ih =>
    rw [dropRepeats, if_pos rfl]
    exact ih h.of_cons
  | case4 s t rest hne ih =>
    rw [dropRepeats, if_neg hne, List.pairwise_cons]
    obtain ⟨hs, hrest⟩ := List.pairwise_cons.1 h
    have hst : Before s t := (hs t (by simp)).resolve_left hne
    refine ⟨fun u hu => ?_, ih hrest⟩
    rw [mem_dropRepeats, List.mem_cons] at hu
    rcases hu with rfl | hu
    · exact hst
    · rcases (List.pairwise_cons.1 hrest).1 u hu with rfl | htu
      · exact hst
      · exact hst.trans htu

theorem mem_rankCandidates (s : String) (items : List String) :
    s ∈ rankCandidates items ↔ s ∈ items ∧ s ≠ "" := by
  rw [rankCandidates, mem_dropRepeats, List.mem_mergeSort, List.mem_filter]
  simp

theorem pairwise_rankCandidates (items : List String) :
    (rankCandidates items).Pairwise Before := by
  have hsorted : ((items.filter fun s => s ≠ "").mergeSort fun a b => (rank a b).isLE).Pairwise
      fun a b => (rank a b).isLE = true :=
    List.pairwise_mergeSort (fun _ _ _ => Std.TransCmp.isLE_trans) isLE_rank_total _
  simp only [rankCandidates, rank_bne_gt]
  exact pairwise_dropRepeats (hsorted.imp fun hab => (isLE_rank_iff _ _).1 hab)

theorem eq_of_pairwise_before {s t : List String} (hs : s.Pairwise Before) (ht : t.Pairwise Before)
    (h : ∀ u, u ∈ s ↔ u ∈ t) : s = t := by
  have hperm : s.Perm t :=
    (List.perm_ext_iff_of_nodup (hs.imp Before.ne) (ht.imp Before.ne)).2 h
  exact hperm.eq_of_pairwise (fun a b _ _ hab hba => absurd hba hab.asymm) hs ht

/-- The texts of `items` that are not empty, each of them once and in rising rank. -/
structure IsRanking (items ranked : List String) : Prop where
  rising : ranked.Pairwise fun s t => rank s t = .lt
  mem_iff (s : String) : s ∈ ranked ↔ s ∈ items ∧ s ≠ ""

theorem isRanking_iff (items ranked : List String) :
    IsRanking items ranked ↔ ranked = rankCandidates items := by
  constructor
  · intro h
    refine eq_of_pairwise_before (h.rising.imp fun hst => (rank_eq_lt_iff _ _).1 hst)
      (pairwise_rankCandidates items) fun s => ?_
    rw [h.mem_iff, mem_rankCandidates]
  · rintro rfl
    exact ⟨(pairwise_rankCandidates items).imp fun hst => (rank_eq_lt_iff _ _).2 hst,
      fun s => mem_rankCandidates s items⟩

/-- Ranking forgets the order of a list, how often a text stands in it, and the empty text. -/
theorem rankCandidates_eq_iff (items others : List String) :
    rankCandidates items = rankCandidates others ↔ ∀ s, s ≠ "" → (s ∈ items ↔ s ∈ others) := by
  constructor
  · intro h s hs
    have hmem : s ∈ rankCandidates items ↔ s ∈ rankCandidates others := by rw [h]
    rwa [mem_rankCandidates, mem_rankCandidates, and_iff_left hs, and_iff_left hs] at hmem
  · intro h
    refine eq_of_pairwise_before (pairwise_rankCandidates items) (pairwise_rankCandidates others)
      fun s => ?_
    rw [mem_rankCandidates, mem_rankCandidates]
    exact and_congr_left (h s)

end Ranked

/-- The order of candidates is total, and only equal texts are level in it: fewer bytes come first,
and equally many are compared one by one. A ranked list is the one list in that order that has each
text that is not empty, and has it once. So two lists are ranked alike if and only if they have the
same such texts, however these are arranged and repeated, and ranking again changes nothing. -/
theorem rankCandidates_canonical :
    Std.TransCmp rank ∧ Std.LawfulEqCmp rank ∧ (∀ a b, rank a b = .lt ↔ Before a b) ∧
      ∀ items : List String,
        (∀ ranked, IsRanking items ranked ↔ ranked = rankCandidates items) ∧
        (∀ others, rankCandidates others = rankCandidates items ↔
          ∀ s, s ≠ "" → (s ∈ others ↔ s ∈ items)) ∧
        rankCandidates (rankCandidates items) = rankCandidates items := by
  refine ⟨inferInstance, inferInstance, rank_eq_lt_iff, fun items =>
    ⟨isRanking_iff items, fun others => rankCandidates_eq_iff others items, ?_⟩⟩
  rw [rankCandidates_eq_iff]
  intro s hs
  rw [mem_rankCandidates, and_iff_left hs]

/-- An accented letter takes two bytes and comes behind two plain letters. -/
theorem rankCandidates_canonical_accent :
    rankCandidates ["users", "", "é", "ab", "users"] = ["ab", "é", "users"] ∧
      rankCandidates ["é", "users", "é", "ab"] =
        rankCandidates ["users", "", "é", "ab", "users"] := by
  obtain ⟨-, -, -, h⟩ := rankCandidates_canonical
  obtain ⟨hone, hsame, -⟩ := h ["users", "", "é", "ab", "users"]
  constructor
  · refine ((hone ["ab", "é", "users"]).1 ⟨by decide +kernel, fun s => ?_⟩).symm
    grind
  · refine (hsame ["é", "users", "é", "ab"]).2 fun s hs => ?_
    grind

end CqlConsole.Completion
