import CqlConsole.Proofs.Trie.Contents

/-!
# Completing a term in a trie

Wherever the way down ends, on a node, inside an edge or beside all of them,
completing a term gives what follows it in the stored texts that start with it.
It gives each remainder once, because siblings have no text in common.
-/

set_option autoImplicit false

namespace CqlConsole

namespace Forest

section Complete

variable {label s tail rest : List Char} {terminal : Bool} {children siblings f : Forest}

theorem complete_apart (h : label.head? ≠ s.head?) :
    (node label terminal children siblings).complete s = siblings.complete s := by
  rw [complete, if_pos (commonPrefix_of_head_ne h)]

theorem complete_ends (hl : label ≠ []) :
    (node label terminal children siblings).complete label =
      (if terminal then [[]] else []) ++ children.collect [] := by
  have hcommon := commonPrefix_along label []
  rw [List.append_nil] at hcommon
  simp [complete, hcommon, hl]

theorem complete_below (hl : label ≠ []) (hr : rest ≠ []) :
    (node label terminal children siblings).complete (label ++ rest) = children.complete rest := by
  simp [complete, commonPrefix_along, hl, hr]

theorem complete_cut (hs : s ≠ []) (ht : tail ≠ []) :
    (node (s ++ tail) terminal children siblings).complete s =
      (node tail terminal children nil).collect [] := by
  have hcommon := commonPrefix_append s tail []
  have hnil : commonPrefix tail [] = [] := by cases tail <;> rfl
  rw [hnil, List.append_nil] at hcommon
  simp [complete, hcommon, hs, ht, collect]

theorem complete_fork (hs : s ≠ []) (ht : tail ≠ []) (hr : rest ≠ [])
    (h : tail.head? ≠ rest.head?) :
    (node (s ++ tail) terminal children siblings).complete (s ++ rest) = [] := by
  have hcommon := commonPrefix_append s tail rest
  rw [commonPrefix_of_head_ne h, List.append_nil] at hcommon
  simp [complete, hcommon, hs, ht, hr]

theorem mem_complete (hf : f.Separated) (hs : s ≠ []) (u : List Char) :
    u ∈ f.complete s ↔ f.Stores (s ++ u) := by
  induction f, s, hs using insert_induction with
  | empty s hs => simp [complete, Stores]
  | apart label terminal children siblings s hs h ih =>
    have hhead : label.head? ≠ (s ++ u).head? := by rwa [List.head?_append_of_ne_nil s hs]
    rw [complete_apart h, stores_apart hhead (ne_nil_of_separated hf), ih hf.2.2]
  | ends label terminal children siblings hl =>
    rw [complete_ends hl, stores_along hf, List.mem_append, mem_collect]
    cases terminal <;> simp
  | below label terminal children siblings rest hs hr hl ih =>
    rw [complete_below hl hr, List.append_assoc, stores_along hf, ih hf.2.1]
    simp [hr]
  | cut common tail terminal children siblings hc ht =>
    have hhead : (common ++ tail).head? = (common ++ u).head? := by
      rw [List.head?_append_of_ne_nil common hc, List.head?_append_of_ne_nil common hc]
    rw [complete_cut hc ht, mem_collect, stores_of_head hf hhead]
    simp [Stores]
  | fork common tail rest terminal children siblings hs hc ht hr h =>
    have hhead : (common ++ tail).head? = (common ++ rest ++ u).head? := by
      rw [List.append_assoc, List.head?_append_of_ne_nil common hc,
        List.head?_append_of_ne_nil common hc]
    rw [complete_fork hc ht hr h, stores_of_head hf hhead]
    simp only [List.not_mem_nil, List.append_assoc, List.append_cancel_left_eq, false_iff,
      not_exists, not_and]
    intro v hv
    have hsame := congrArg List.head? hv
    rw [List.head?_append_of_ne_nil rest hr, List.head?_append_of_ne_nil tail ht] at hsame
    exact absurd hsame.symm h

theorem nodup_complete (hf : f.Separated) (hs : s ≠ []) : (f.complete s).Nodup := by
  induction f, s, hs using insert_induction with
  | empty s hs => exact List.nodup_nil
  | apart label terminal children siblings s hs h ih =>
    rw [complete_apart h]
    exact ih hf.2.2
  | ends label terminal children siblings hl =>
    have hchildren := nodup_collect hf.2.1
    have hnil : [] ∉ children.collect [] := fun h => not_stores_nil hf.2.1 (mem_collect.1 h)
    rw [complete_ends hl]
    cases terminal with
    | false => exact hchildren
    | true => exact List.nodup_cons.2 ⟨hnil, hchildren⟩
  | below label terminal children siblings rest hs hr hl ih =>
    rw [complete_below hl hr]
    exact ih hf.2.1
  | cut common tail terminal children siblings hc ht =>
    obtain ⟨d, u, rfl⟩ := List.exists_cons_of_ne_nil ht
    rw [complete_cut hc ht]
    exact nodup_collect ⟨⟨d, u, rfl, by simp [heads]⟩, hf.2.1, trivial⟩
  | fork common tail rest terminal children siblings hs hc ht hr h =>
    rw [complete_fork hc ht hr h]
    exact List.nodup_nil

end Complete

end Forest

namespace Trie

section Holds

variable {t : Trie} {S : Finset String}

theorem complete_empty (t : Trie) : t.complete "" = t.toList := by
  simp [complete, Forest.Node.complete, toList]

theorem complete_of_ne {term : String} (ht : term.toList ≠ []) :
    t.complete term = (t.forest.complete term.toList).map String.ofList := by
  rw [complete, Forest.Node.complete, if_neg ht]
  rfl

theorem Holds.mem_complete (h : Holds t S) (term u : String) :
    u ∈ t.complete term ↔ term ++ u ∈ S := by
  by_cases ht : term.toList = []
  · have hempty : term = "" := by simpa using ht
    rw [hempty, complete_empty, h.mem_toList, String.empty_append]
  · have hmem : ∀ v, v ∈ t.forest.complete term.toList ↔ term ++ String.ofList v ∈ S := by
      intro v
      rw [Forest.mem_complete h.separated ht, h.stores_iff, String.ofList_append,
        String.ofList_toList]
    rw [complete_of_ne ht, List.mem_map]
    constructor
    · rintro ⟨v, hv, rfl⟩
      exact (hmem v).1 hv
    · intro hu
      refine ⟨u.toList, (hmem u.toList).2 ?_, String.ofList_toList⟩
      rwa [String.ofList_toList]

theorem Holds.nodup_complete (h : Holds t S) (term : String) : (t.complete term).Nodup := by
  by_cases ht : term.toList = []
  · have hempty : term = "" := by simpa using ht
    rw [hempty, complete_empty]
    exact h.nodup_toList
  · rw [complete_of_ne ht]
    exact (Forest.nodup_complete h.separated ht).map fun _ _ => String.ofList_injective

end Holds

/-- Completing a term gives, each once, exactly the texts that make it a stored text. The empty
text is one of them if the term itself is stored, and the empty term gives all stored texts. -/
theorem complete_remainders (texts : List String) (term : String) :
    ((ofList texts).complete term).Nodup ∧
    (∀ u, u ∈ (ofList texts).complete term ↔ term ++ u ∈ storable texts) ∧
    ("" ∈ (ofList texts).complete term ↔ (ofList texts).contains term = true) ∧
    (ofList texts).complete "" = (ofList texts).toList := by
  have h := holds_ofList texts
  refine ⟨h.nodup_complete term, h.mem_complete term, ?_, complete_empty _⟩
  rw [h.mem_complete, String.append_empty, h.contains_iff (empty_not_storable texts)]

end Trie

end CqlConsole
