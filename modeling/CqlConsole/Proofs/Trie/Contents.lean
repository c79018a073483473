import CqlConsole.Proofs.Trie.Edges
import Mathlib.Data.Finset.Card
import Mathlib.Data.List.Nodup

/-!
# A trie is a finite set of texts

Whatever is inserted and in whatever order, a trie answers as the set of the
non-empty texts among them: what is in it, how many they are, whether a text is
new, and which texts there are, each of them once.
-/

set_option autoImplicit false

namespace CqlConsole

namespace Forest

section Insert

variable {f : Forest} {s : List Char}

theorem heads_insert (hs : s ≠ []) (c : Char) :
    c ∈ (f.insert s).1.heads ↔ s.head? = some c ∨ c ∈ f.heads := by
  induction f, s, hs using insert_induction with
  | empty s hs => simp [insert, leaf, heads]
  | apart label terminal children siblings s hs h ih =>
    rw [insert_apart h, heads, heads, List.mem_append, List.mem_append, ih]
    exact or_left_comm
  | ends label terminal children siblings hl =>
    rw [insert_ends hl]
    simp [heads]
  | below label terminal children siblings rest hs hr hl ih =>
    rw [insert_below hl hr]
    simp [heads, List.head?_append_of_ne_nil label hl]
  | cut common tail terminal children siblings hc ht =>
    rw [insert_cut hc ht]
    simp [heads, List.head?_append_of_ne_nil common hc]
  | fork common tail rest terminal children siblings hs hc ht hr h =>
    rw [insert_fork hc ht hr h]
    simp [heads, List.head?_append_of_ne_nil common hc]

theorem separated_insert (hs : s ≠ []) (hf : f.Separated) : (f.insert s).1.Separated := by
  induction f, s, hs using insert_induction with
  | empty s hs =>
    obtain ⟨c, u, rfl⟩ := List.exists_cons_of_ne_nil hs
    exact ⟨⟨c, u, rfl, by simp [heads]⟩, trivial, trivial⟩
  | apart label terminal children siblings s hs h ih =>
    obtain ⟨⟨c, l, rfl, hc⟩, hch, hsib⟩ := hf
    rw [insert_apart h]
    refine ⟨⟨c, l, rfl, ?_⟩, hch, ih hsib⟩
    rw [heads_insert hs]
    rintro (hhead | hmem)
    · exact h hhead.symm
    · exact hc hmem
  | ends label terminal children siblings hl =>
    rw [insert_ends hl]
    exact hf
  | below label terminal children siblings rest hs hr hl ih =>
    rw [insert_below hl hr]
    exact ⟨hf.1, ih hf.2.1, hf.2.2⟩
  | cut common tail terminal children siblings hc ht =>
    obtain ⟨⟨c, l, hl, hhead⟩, hch, hsib⟩ := hf
    obtain ⟨d, u, rfl⟩ := List.exists_cons_of_ne_nil ht
    obtain ⟨e, v, rfl⟩ := List.exists_cons_of_ne_nil hc
    rw [insert_cut hc ht]
    obtain ⟨rfl, _⟩ := List.cons.inj hl
    exact ⟨⟨e, v, rfl, hhead⟩, ⟨⟨d, u, rfl, by simp [heads]⟩, hch, trivial⟩, hsib⟩
  | fork common tail rest terminal children siblings hs hc ht hr h =>
    obtain ⟨⟨c, l, hl, hhead⟩, hch, hsib⟩ := hf
    obtain ⟨d, u, rfl⟩ := List.exists_cons_of_ne_nil ht
    obtain ⟨e, v, rfl⟩ := List.exists_cons_of_ne_nil hc
    obtain ⟨b, w, rfl⟩ := List.exists_cons_of_ne_nil hr
    rw [insert_fork hc ht hr h]
    obtain ⟨rfl, _⟩ := List.cons.inj hl
    have hd : d ∉ (leaf (b :: w)).heads := by simpa [leaf, heads] using h
    have hleaf : (leaf (b :: w)).Separated := ⟨⟨b, w, rfl, by simp [heads]⟩, trivial, trivial⟩
    exact ⟨⟨e, v, rfl, hhead⟩, ⟨⟨d, u, rfl, hd⟩, hch, hleaf⟩, hsib⟩

theorem stores_insert (hs : s ≠ []) (t : List Char) :
    (f.insert s).1.Stores t ↔ t = s ∨ f.Stores t := by
  induction f, s, hs using insert_induction generalizing t with
  | empty s hs => simp [insert, leaf, Stores]
  | apart label terminal children siblings s hs h ih =>
    rw [insert_apart h, Stores, Stores, ih]
    exact or_left_comm
  | ends label terminal children siblings hl =>
    rw [insert_ends hl]
    simp only [Stores]
    grind
  | below label terminal children siblings rest hs hr hl ih =>
    rw [insert_below hl hr]
    simp only [Stores, ih]
    grind
  | cut common tail terminal children siblings hc ht =>
    rw [insert_cut hc ht]
    simp only [Stores]
    grind
  | fork common tail rest terminal children siblings hs hc ht hr h =>
    rw [insert_fork hc ht hr h]
    simp only [Stores, leaf]
    grind

/-- The answer says whether the text was not stored before. -/
theorem answer_insert (hs : s ≠ []) (hf : f.Separated) :
    (f.insert s).2 = true ↔ ¬ f.Stores s := by
  induction f, s, hs using insert_induction with
  | empty s hs => simp [insert, Stores]
  | apart label terminal children siblings s hs h ih =>
    have hl : label ≠ [] := ne_nil_of_separated hf
    rw [insert_apart h, stores_apart h hl]
    exact ih hf.2.2
  | ends label terminal children siblings hl =>
    have hstores := stores_along (s := []) hf
    rw [List.append_nil] at hstores
    rw [insert_ends hl, hstores]
    simp [not_stores_nil hf.2.1]
  | below label terminal children siblings rest hs hr hl ih =>
    rw [insert_below hl hr, stores_along hf]
    simpa [hr] using ih hf.2.1
  | cut common tail terminal children siblings hc ht =>
    rw [insert_cut hc ht, stores_of_head hf (List.head?_append_of_ne_nil common hc)]
    simp [ht]
  | fork common tail rest terminal children siblings hs hc ht hr h =>
    have hhead : (common ++ tail).head? = (common ++ rest).head? := by
      rw [List.head?_append_of_ne_nil common hc, List.head?_append_of_ne_nil common hc]
    rw [insert_fork hc ht hr h, stores_of_head hf hhead]
    simp only [List.append_assoc, List.append_cancel_left_eq, true_iff, not_exists, not_and]
    -- Behind the common start the edge goes on otherwise than the text.
    rintro u rfl
    exact absurd (List.head?_append_of_ne_nil tail ht).symm h

end Insert

section Read

variable {f : Forest}

theorem contains_iff (hf : f.Separated) {s : List Char} (hs : s ≠ []) :
    f.contains s = true ↔ f.Stores s := by
  induction f generalizing s with
  | nil => simp [contains, Stores]
  | node label terminal children siblings ihc ihs =>
    by_cases hp : label <+: s
    · obtain ⟨rest, rfl⟩ := hp
      rw [stores_along hf, contains, if_pos (by simp), List.drop_left]
      by_cases hr : rest = []
      · simp [hr, not_stores_nil hf.2.1]
      · simp [hr, ihc hf.2.1 hr]
    · have hfalse : ¬ label.isPrefixOf s = true := by rwa [List.isPrefixOf_iff_prefix]
      rw [contains, if_neg hfalse, ihs hf.2.2 hs]
      constructor
      · exact .inr
      · rintro (⟨u, rfl, _⟩ | h)
        · exact absurd (List.prefix_append label u) hp
        · exact h

theorem collect_path (f : Forest) (path : List Char) :
    f.collect path = (f.collect []).map fun u => path ++ u := by
  induction f generalizing path with
  | nil => rfl
  | node label terminal children siblings ihc ihs =>
    rw [collect, collect, ihc (path ++ label), ihc ([] ++ label), ihs path]
    cases terminal <;> simp

theorem mem_collect {s : List Char} : s ∈ f.collect [] ↔ f.Stores s := by
  induction f generalizing s with
  | nil => simp [collect, Stores]
  | node label terminal children siblings ihc ihs =>
    rw [collect, collect_path children, List.nil_append, Stores, List.mem_append,
      List.mem_append, List.mem_map, ihs]
    simp only [ihc]
    cases terminal <;> grind

theorem nodup_collect (hf : f.Separated) : (f.collect []).Nodup := by
  induction f with
  | nil => exact List.nodup_nil
  | node label terminal children siblings ihc ihs =>
    -- A text of the node starts as its edge does, which no text of a sibling does.
    have hbelow : ∀ s ∈ (if terminal then [[] ++ label] else []) ++ children.collect ([] ++ label),
        s.head? = label.head? := by
      intro s hs
      rw [collect_path children, List.nil_append, List.mem_append, List.mem_map] at hs
      rcases hs with hs | ⟨u, _, rfl⟩
      · cases terminal <;> simp at hs
        rw [hs]
      · exact List.head?_append_of_ne_nil label (ne_nil_of_separated hf)
    have hnode : ((if terminal then [[] ++ label] else []) ++
        children.collect ([] ++ label)).Nodup := by
      have hinj : Function.Injective fun u => label ++ u := List.append_right_injective label
      have hchildren := (ihc hf.2.1).map hinj
      rw [collect_path children, List.nil_append]
      cases terminal with
      | false => exact hchildren
      | true =>
        refine List.nodup_cons.2 ⟨fun hmem => ?_, hchildren⟩
        obtain ⟨u, hu, hlabel⟩ := List.mem_map.1 hmem
        rw [List.append_right_eq_self.1 hlabel] at hu
        exact not_stores_nil hf.2.1 (mem_collect.1 hu)
    rw [collect]
    refine hnode.append (ihs hf.2.2) ?_
    intro s hs hsib
    exact head_ne_of_sibling hf (mem_collect.1 hsib) (hbelow s hs).symm

end Read

end Forest

namespace Trie

/-- The texts of a list that a trie stores. -/
def storable (texts : List String) : Finset String :=
  (texts.filter fun s => s ≠ "").toFinset

/-- The trie stores exactly the texts of the set. -/
structure Holds (t : Trie) (S : Finset String) : Prop where
  separated : t.forest.Separated
  stores_iff : ∀ s, t.forest.Stores s ↔ String.ofList s ∈ S
  root_unmarked : t.root.terminal = false
  size_eq : t.size = S.card

section Holds

variable {t : Trie} {S : Finset String}

theorem insert_of_empty {s : String} (hs : s.toList = []) : t.insert s = (t, false) :=
  if_pos hs

theorem insert_of_ne {s : String} (hs : s.toList ≠ []) :
    t.insert s =
      (⟨⟨t.root.label, t.root.terminal, (t.forest.insert s.toList).1⟩,
        if (t.forest.insert s.toList).2 then t.size + 1 else t.size⟩,
        (t.forest.insert s.toList).2) := by
  rw [insert, if_neg hs, Forest.Node.insert, if_neg hs]
  rfl

theorem holds_empty : Holds empty ∅ :=
  ⟨trivial, by simp [empty, forest, Forest.Stores], rfl, rfl⟩

theorem Holds.answer (h : Holds t S) (s : String) :
    (t.insert s).2 = true ↔ s ≠ "" ∧ s ∉ S := by
  by_cases hs : s.toList = []
  · have hempty : s = "" := by simpa using hs
    simp [insert, hempty]
  · have hne : s ≠ "" := by simpa using hs
    rw [insert_of_ne hs, Forest.answer_insert hs h.separated, h.stores_iff, String.ofList_toList]
    simp [hne]

theorem Holds.step (h : Holds t S) {s : String} (hs : s ≠ "") :
    Holds (t.insert s).1 (Insert.insert s S) := by
  have hlist : s.toList ≠ [] := by simpa using hs
  rw [insert_of_ne hlist]
  refine ⟨Forest.separated_insert hlist h.separated, fun u => ?_, h.root_unmarked, ?_⟩
  · rw [forest, Forest.stores_insert hlist, h.stores_iff, Finset.mem_insert, ← String.toList_inj,
      String.toList_ofList]
  · have hanswer := Forest.answer_insert hlist h.separated
    rw [h.stores_iff, String.ofList_toList] at hanswer
    by_cases hmem : s ∈ S
    · have hold : (t.forest.insert s.toList).2 = false := by simpa [hmem] using hanswer
      simp [hold, h.size_eq, hmem]
    · have hnew : (t.forest.insert s.toList).2 = true := hanswer.2 hmem
      simp [hnew, h.size_eq, hmem]

theorem storable_cons (s : String) (texts : List String) :
    storable (s :: texts) = if s = "" then storable texts else Insert.insert s (storable texts) := by
  by_cases hs : s = "" <;> simp [storable, hs]

theorem insertAll_append (t : Trie) (texts more : List String) :
    t.insertAll (texts ++ more) = (t.insertAll texts).insertAll more := by
  induction texts generalizing t with
  | nil => rfl
  | cons s texts ih => exact ih _

theorem Holds.run (h : Holds t S) (texts : List String) :
    Holds (t.insertAll texts) (S ∪ storable texts) := by
  induction texts generalizing t S with
  | nil => simpa [insertAll, storable] using h
  | cons s texts ih =>
    by_cases hs : s = ""
    · have hsame : (t.insert s).1 = t := by rw [insert_of_empty (by simp [hs])]
      rw [insertAll, hsame, storable_cons, if_pos hs]
      exact ih h
    · rw [insertAll, storable_cons, if_neg hs, Finset.union_insert, ← Finset.insert_union]
      exact ih (h.step hs)

theorem holds_ofList (texts : List String) : Holds (ofList texts) (storable texts) := by
  have h := holds_empty.run texts
  rwa [Finset.empty_union] at h

theorem Holds.contains_iff (h : Holds t S) (hS : "" ∉ S) (s : String) :
    t.contains s = true ↔ s ∈ S := by
  by_cases hs : s.toList = []
  · have hempty : s = "" := by simpa using hs
    simp [contains, hempty, hS]
  · have hstores := Forest.contains_iff h.separated hs
    rw [h.stores_iff, String.ofList_toList] at hstores
    simpa [contains, Forest.Node.contains, forest, hs] using hstores

theorem Holds.toList_eq (h : Holds t S) : t.toList = (t.forest.collect []).map String.ofList := by
  rw [toList, Forest.Node.collect, h.root_unmarked]
  rfl

theorem Holds.mem_toList (h : Holds t S) (s : String) : s ∈ t.toList ↔ s ∈ S := by
  rw [h.toList_eq, List.mem_map]
  constructor
  · rintro ⟨u, hu, rfl⟩
    exact (h.stores_iff u).1 (Forest.mem_collect.1 hu)
  · intro hs
    refine ⟨s.toList, Forest.mem_collect.2 ?_, String.ofList_toList⟩
    rwa [h.stores_iff, String.ofList_toList]

theorem Holds.nodup_toList (h : Holds t S) : t.toList.Nodup := by
  rw [h.toList_eq]
  exact (Forest.nodup_collect h.separated).map fun _ _ => String.ofList_injective

theorem empty_not_storable (texts : List String) : "" ∉ storable texts := by
  simp [storable]

end Holds

/-- A trie is the set of the non-empty texts that were inserted, in whatever order and however
often: it says of each insertion whether the text is new, of each text whether it is in the set,
how many there are, and lists each of them once. -/
theorem ofList_set (texts : List String) :
    (∀ s, ofList (texts ++ [s]) = ((ofList texts).insert s).1 ∧
      (((ofList texts).insert s).2 = true ↔ s ≠ "" ∧ s ∉ storable texts)) ∧
    (∀ s, (ofList texts).contains s = true ↔ s ∈ storable texts) ∧
    (ofList texts).size = (storable texts).card ∧
    ((ofList texts).isEmpty = true ↔ storable texts = ∅) ∧
    (ofList texts).toList.Nodup ∧
    ∀ s, s ∈ (ofList texts).toList ↔ s ∈ storable texts := by
  have h := holds_ofList texts
  refine ⟨fun s => ⟨?_, h.answer s⟩, h.contains_iff (empty_not_storable texts), h.size_eq, ?_,
    h.nodup_toList, h.mem_toList⟩
  · rw [ofList, insertAll_append]
    rfl
  · rw [isEmpty, beq_iff_eq, h.size_eq, Finset.card_eq_zero]

end Trie

end CqlConsole
