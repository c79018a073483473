import CqlConsole.Proofs.Trie.Remainders
import CqlConsole.Proofs.Trie.Shape

/-!
# The shape of a trie is determined by its texts

Two tries without needless nodes that store the same texts differ at most in the
order of siblings. The first edge towards a text is the longest start that all
stored texts with its first character have in common, because behind that edge
one of them ends or two of them part.
-/

set_option autoImplicit false

namespace CqlConsole

namespace Forest

/-- The same nodes, with the children of each node in any order. -/
inductive Reordered : Forest → Forest → Prop where
  | nil : Reordered nil nil
  | node (label : List Char) (terminal : Bool) {children children' siblings siblings' : Forest} :
      Reordered children children' → Reordered siblings siblings' →
      Reordered (node label terminal children siblings) (node label terminal children' siblings')
  | swap (label label' : List Char) (terminal terminal' : Bool)
      (children children' siblings : Forest) :
      Reordered (node label terminal children (node label' terminal' children' siblings))
        (node label' terminal' children' (node label terminal children siblings))
  | trans {f g h : Forest} : Reordered f g → Reordered g h → Reordered f h

namespace Reordered

variable {f g : Forest}

theorem refl (f : Forest) : f.Reordered f := by
  induction f with
  | nil => exact .nil
  | node label terminal children siblings ihc ihs => exact .node label terminal ihc ihs

theorem symm (h : f.Reordered g) : g.Reordered f := by
  induction h with
  | nil => exact .nil
  | node label terminal _ _ ihc ihs => exact .node label terminal ihc ihs
  | swap label label' terminal terminal' children children' siblings =>
    exact .swap label' label terminal' terminal children' children siblings
  | trans _ _ ih ih' => exact .trans ih' ih

theorem stores_iff (h : f.Reordered g) (s : List Char) : f.Stores s ↔ g.Stores s := by
  induction h generalizing s with
  | nil => rfl
  | node label terminal _ _ ihc ihs => simp only [Stores, ihc, ihs]
  | swap => exact or_left_comm
  | trans _ _ ih ih' => rw [ih, ih']

theorem mem_heads (h : f.Reordered g) (c : Char) : c ∈ f.heads ↔ c ∈ g.heads := by
  induction h with
  | nil => rfl
  | node label terminal _ _ _ ihs => simp only [heads, List.mem_append, ihs]
  | swap => simp only [heads, List.mem_append, or_left_comm]
  | trans _ _ ih ih' => rw [ih, ih']

theorem width_eq (h : f.Reordered g) : f.width = g.width := by
  induction h with
  | nil => rfl
  | node label terminal _ _ _ ihs => rw [width, width, ihs]
  | swap => rfl
  | trans _ _ ih ih' => rw [ih, ih']

theorem separated (h : f.Reordered g) (hf : f.Separated) : g.Separated := by
  induction h with
  | nil => exact trivial
  | node label terminal _ hs ihc ihs =>
    obtain ⟨⟨c, l, rfl, hc⟩, hchildren, hsiblings⟩ := hf
    exact ⟨⟨c, l, rfl, (hs.mem_heads c).not.1 hc⟩, ihc hchildren, ihs hsiblings⟩
  | swap =>
    obtain ⟨⟨c, l, rfl, hc⟩, hchildren, ⟨d, m, rfl, hd⟩, hchildren', hsiblings⟩ := hf
    simp only [heads, List.head?_cons, Option.toList_some, List.cons_append, List.nil_append,
      List.mem_cons, not_or] at hc
    refine ⟨⟨d, m, rfl, ?_⟩, hchildren', ⟨c, l, rfl, hc.2⟩, hchildren, hsiblings⟩
    simp [heads, hd, Ne.symm hc.1]
  | trans _ _ ih ih' => exact ih' (ih hf)

theorem branching (h : f.Reordered g) (hf : f.Branching) : g.Branching := by
  induction h with
  | nil => exact trivial
  | node label terminal hc _ ihc ihs => exact ⟨hc.width_eq ▸ hf.1, ihc hf.2.1, ihs hf.2.2⟩
  | swap => exact ⟨hf.2.2.1, hf.2.2.2.1, hf.1, hf.2.1, hf.2.2.2.2⟩
  | trans _ _ ih ih' => exact ih' (ih hf)

end Reordered

section Stores

variable {label label' : List Char} {terminal terminal' : Bool}
  {children children' siblings siblings' f g : Forest}

theorem exists_front {c : Char} (hc : c ∈ f.heads) :
    ∃ label terminal children siblings,
      f.Reordered (node label terminal children siblings) ∧ label.head? = some c := by
  induction f with
  | nil => cases hc
  | node label terminal children siblings _ ih =>
    rcases List.mem_append.1 hc with hc | hc
    · exact ⟨label, terminal, children, siblings, .refl _, Option.mem_toList.1 hc⟩
    · obtain ⟨label', terminal', children', siblings', h, hhead⟩ := ih hc
      have hfront := (Reordered.node label terminal (.refl children) h).trans
        (.swap label label' terminal terminal' children children' siblings')
      exact ⟨label', terminal', children', _, hfront, hhead⟩

theorem exists_stores (hb : (node label terminal children siblings).Branching) :
    ∃ s, (node label terminal children siblings).Stores (label ++ s) := by
  induction children generalizing label terminal siblings with
  | nil =>
    have hterminal : terminal = true := hb.1.resolve_right (by simp [width])
    exact ⟨[], Or.inl ⟨[], rfl, Or.inl ⟨rfl, hterminal⟩⟩⟩
  | node below terminal' children' siblings' ih _ =>
    obtain ⟨s, hs⟩ := ih hb.2.1
    exact ⟨below ++ s, Or.inl ⟨below ++ s, rfl, Or.inr hs⟩⟩

/-- Behind the first edge a stored text ends, or two of them part. -/
theorem parts_behind (hf : (node label terminal children siblings).Separated)
    (hb : (node label terminal children siblings).Branching) :
    ∃ s t, (node label terminal children siblings).Stores (label ++ s) ∧
      (node label terminal children siblings).Stores (label ++ t) ∧
      (s = [] ∨ s.head? ≠ t.head?) := by
  rcases hb.1 with rfl | hwidth
  · have hends : (node label true children siblings).Stores (label ++ []) :=
      (stores_along hf).2 (Or.inl ⟨rfl, rfl⟩)
    exact ⟨[], [], hends, hends, Or.inl rfl⟩
  · cases children with
    | nil => simp [width] at hwidth
    | node l t c rest =>
      cases rest with
      | nil => simp [width] at hwidth
      | node l' t' c' rest =>
        obtain ⟨s, hs⟩ := exists_stores hb.2.1
        obtain ⟨s', hs'⟩ := exists_stores hb.2.1.2.2
        refine ⟨l ++ s, l' ++ s', (stores_along hf).2 (Or.inr hs),
          (stores_along hf).2 (Or.inr (Or.inr hs')), Or.inr ?_⟩
        obtain ⟨⟨a, u, rfl, ha⟩, -, ⟨b, v, rfl, -⟩, -⟩ := hf.2.1
        intro heq
        obtain rfl : a = b := Option.some.inj heq
        exact ha (by simp [heads])

/-- What all stored texts with the first character of the first edge start with is a start of
that edge. -/
theorem prefix_label (hf : (node label terminal children siblings).Separated)
    (hb : (node label terminal children siblings).Branching) {p : List Char}
    (h : ∀ s, (node label terminal children siblings).Stores s → s.head? = label.head? → p <+: s) :
    p <+: label := by
  have hl := ne_nil_of_separated hf
  obtain ⟨s, t, hs, ht, hparts⟩ := parts_behind hf hb
  have hps := h _ hs (List.head?_append_of_ne_nil label hl)
  have hpt := h _ ht (List.head?_append_of_ne_nil label hl)
  rcases List.prefix_or_prefix_of_prefix hps (List.prefix_append label s) with hp | ⟨q, rfl⟩
  · exact hp
  · rw [List.prefix_append_right_inj] at hps hpt
    rcases q with - | ⟨c, q⟩
    · rw [List.append_nil]
    · obtain ⟨s', rfl⟩ := hps
      obtain ⟨t', rfl⟩ := hpt
      simp at hparts

theorem label_eq (hf : (node label terminal children siblings).Separated)
    (hfb : (node label terminal children siblings).Branching)
    (hg : (node label' terminal' children' siblings').Separated)
    (hgb : (node label' terminal' children' siblings').Branching)
    (hhead : label.head? = label'.head?)
    (h : ∀ s, (node label terminal children siblings).Stores s ↔
      (node label' terminal' children' siblings').Stores s) : label = label' := by
  have hle : label <+: label' := prefix_label hg hgb fun s hs hsame => by
    obtain ⟨u, rfl, -⟩ := (stores_of_head hf (hhead.trans hsame.symm)).1 ((h s).2 hs)
    exact List.prefix_append label u
  have hge : label' <+: label := prefix_label hf hfb fun s hs hsame => by
    obtain ⟨u, rfl, -⟩ := (stores_of_head hg (hhead.symm.trans hsame.symm)).1 ((h s).1 hs)
    exact List.prefix_append label' u
  exact hle.eq_of_length_le hge.length_le

theorem stores_children (hf : (node label terminal children siblings).Separated) (s : List Char) :
    children.Stores s ↔ s ≠ [] ∧ (node label terminal children siblings).Stores (label ++ s) := by
  rw [stores_along hf]
  constructor
  · intro h
    refine ⟨?_, Or.inr h⟩
    rintro rfl
    exact not_stores_nil hf.2.1 h
  · rintro ⟨hs, ⟨hnil, -⟩ | h⟩
    · exact absurd hnil hs
    · exact h

theorem stores_siblings (hf : (node label terminal children siblings).Separated) (s : List Char) :
    siblings.Stores s ↔
      label.head? ≠ s.head? ∧ (node label terminal children siblings).Stores s := by
  constructor
  · exact fun h => ⟨head_ne_of_sibling hf h, Or.inr h⟩
  · rintro ⟨hhead, h⟩
    exact (stores_apart hhead (ne_nil_of_separated hf)).1 h

theorem eq_nil_of_stores (hb : f.Branching) (h : ∀ s, ¬f.Stores s) : f = nil := by
  cases f with
  | nil => rfl
  | node label terminal children siblings =>
    obtain ⟨s, hs⟩ := exists_stores hb
    exact absurd hs (h _)

/-- Without needless nodes, the stored texts determine the forest up to the order of siblings. -/
theorem reordered_of_stores (hf : f.Separated) (hfb : f.Branching) (hg : g.Separated)
    (hgb : g.Branching) (h : ∀ s, f.Stores s ↔ g.Stores s) : f.Reordered g := by
  induction f generalizing g with
  | nil =>
    rw [eq_nil_of_stores hgb fun s => (h s).not.1 id]
    exact .nil
  | node label terminal children siblings ihc ihs =>
    -- The node of the other forest for the same first character is brought to its front.
    obtain ⟨s, hs⟩ := exists_stores hfb
    obtain ⟨c, hc, hhead⟩ := head_of_stores hg ((h _).1 hs)
    rw [List.head?_append_of_ne_nil label (ne_nil_of_separated hf)] at hhead
    obtain ⟨label', terminal', children', siblings', hfront, hhead'⟩ := exists_front hc
    have hg' := hfront.separated hg
    have hgb' := hfront.branching hgb
    have hsame : ∀ s, (node label terminal children siblings).Stores s ↔
        (node label' terminal' children' siblings').Stores s :=
      fun s => (h s).trans (hfront.stores_iff s)
    obtain rfl := label_eq hf hfb hg' hgb' (hhead.trans hhead'.symm) hsame
    have hterminal : terminal = terminal' := by
      have hends := hsame (label ++ [])
      rw [stores_along hf, stores_along hg'] at hends
      simpa [not_stores_nil hf.2.1, not_stores_nil hg'.2.1] using hends
    subst hterminal
    have hchildren : children.Reordered children' := ihc hf.2.1 hfb.2.1 hg'.2.1 hgb'.2.1 fun s => by
      rw [stores_children hf, stores_children hg', hsame]
    have hsiblings : siblings.Reordered siblings' := ihs hf.2.2 hfb.2.2 hg'.2.2 hgb'.2.2 fun s => by
      rw [stores_siblings hf, stores_siblings hg', hsame]
    exact (Reordered.node label terminal hchildren hsiblings).trans hfront.symm

end Stores

end Forest

namespace Trie

variable {t t' : Trie} {S : Finset String}

theorem Holds.reordered (h : Holds t S) (h' : Holds t' S) (hc : Compact t) (hc' : Compact t') :
    t.forest.Reordered t'.forest :=
  Forest.reordered_of_stores hc.separated hc.branching hc'.separated hc'.branching
    fun s => (h.stores_iff s).trans (h'.stores_iff s).symm

theorem Holds.complete_perm (h : Holds t S) (h' : Holds t' S) (term : String) :
    (t.complete term).Perm (t'.complete term) := by
  rw [List.perm_ext_iff_of_nodup (h.nodup_complete term) (h'.nodup_complete term)]
  exact fun u => (h.mem_complete term u).trans (h'.mem_complete term u).symm

end Trie

end CqlConsole
