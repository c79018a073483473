import CqlConsole.Trie
import Mathlib.Data.List.Basic

/-!
# Edges of a trie

What the nodes of a trie store is what their edges spell. A text meets an edge
in one of three ways: it shares nothing with it, it runs along the whole of it,
or it leaves it halfway. Inserting follows these cases, and it keeps siblings
apart: at every depth their edges start with different characters.
-/

set_option autoImplicit false

namespace CqlConsole

section CommonPrefix

theorem commonPrefix_append (p u v : List Char) :
    commonPrefix (p ++ u) (p ++ v) = p ++ commonPrefix u v := by
  induction p with
  | nil => rfl
  | cons a p ih => simp [commonPrefix, ih]

theorem commonPrefix_of_head_ne {u v : List Char} (h : u.head? ≠ v.head?) :
    commonPrefix u v = [] := by
  cases u with
  | nil => rfl
  | cons a u =>
    cases v with
    | nil => rfl
    | cons b v =>
      have hab : a ≠ b := by
        rintro rfl
        exact h rfl
      simp [commonPrefix, hab]

/-- Behind their common start two texts go on differently, unless both end there. -/
theorem exists_commonPrefix (s t : List Char) :
    ∃ u v, s = commonPrefix s t ++ u ∧ t = commonPrefix s t ++ v ∧
      (u = [] ∧ v = [] ∨ u.head? ≠ v.head?) := by
  induction s generalizing t with
  | nil =>
    cases t with
    | nil => exact ⟨[], [], rfl, rfl, .inl ⟨rfl, rfl⟩⟩
    | cons b t => exact ⟨[], b :: t, rfl, rfl, .inr (by simp)⟩
  | cons a s ih =>
    cases t with
    | nil => exact ⟨a :: s, [], rfl, rfl, .inr (by simp)⟩
    | cons b t =>
      by_cases hab : a = b
      · obtain ⟨u, v, hu, hv, h⟩ := ih t
        refine ⟨u, v, ?_, ?_, h⟩
        · rw [commonPrefix, if_pos hab, List.cons_append, ← hu]
        · rw [commonPrefix, if_pos hab, List.cons_append, ← hv, hab]
      · refine ⟨a :: s, b :: t, ?_, ?_, .inr (by simpa using hab)⟩ <;> simp [commonPrefix, hab]

end CommonPrefix

inductive Meeting (label : List Char) : List Char → Prop where
  | apart {s : List Char} (h : label.head? ≠ s.head?) : Meeting label s
  | along (rest : List Char) (hlabel : label ≠ []) : Meeting label (label ++ rest)
  | inside (common tail rest : List Char) (hlabel : label = common ++ tail)
      (hcommon : common ≠ []) (htail : tail ≠ []) (h : tail.head? ≠ rest.head?) :
      Meeting label (common ++ rest)

theorem meeting {label s : List Char} (hs : s ≠ []) : Meeting label s := by
  obtain ⟨u, v, hu, hv, huv⟩ := exists_commonPrefix label s
  generalize commonPrefix label s = p at hu hv
  subst hu hv
  rcases eq_or_ne p [] with rfl | hp
  · rcases huv with ⟨rfl, rfl⟩ | hne
    · exact absurd rfl hs
    · exact .apart hne
  · rcases eq_or_ne u [] with rfl | hu
    · rw [List.append_nil]
      exact .along v hp
    · rcases huv with ⟨hnil, _⟩ | hne
      · exact absurd hnil hu
      · exact .inside p u v rfl hp hu hne

namespace Forest

/-- The text is spelled by the edges down to a terminal node. -/
def Stores : Forest → List Char → Prop
  | nil, _ => False
  | node label terminal children siblings, s =>
    (∃ u, s = label ++ u ∧ (u = [] ∧ terminal = true ∨ children.Stores u)) ∨ siblings.Stores s

def heads : Forest → List Char
  | nil => []
  | node label _ _ siblings => label.head?.toList ++ siblings.heads

/-- No edge is empty, and at every depth siblings start with different characters. -/
def Separated : Forest → Prop
  | nil => True
  | node label _ children siblings =>
    (∃ c s, label = c :: s ∧ c ∉ siblings.heads) ∧ children.Separated ∧ siblings.Separated

section Stores

variable {label s : List Char} {terminal : Bool} {children siblings f : Forest}

theorem head_of_stores (hf : f.Separated) (h : f.Stores s) : ∃ c ∈ f.heads, s.head? = some c := by
  induction f with
  | nil => cases h
  | node label terminal children siblings _ ih =>
    obtain ⟨⟨c, l, rfl, _⟩, _, hs⟩ := hf
    rcases h with ⟨u, rfl, _⟩ | h
    · exact ⟨c, by simp [heads], rfl⟩
    · obtain ⟨d, hd, hh⟩ := ih hs h
      exact ⟨d, by simp [heads, hd], hh⟩

theorem not_stores_nil (hf : f.Separated) : ¬f.Stores [] := by
  intro h
  obtain ⟨c, _, hc⟩ := head_of_stores hf h
  cases hc

theorem ne_nil_of_separated (hf : (node label terminal children siblings).Separated) :
    label ≠ [] := by
  obtain ⟨⟨c, l, rfl, _⟩, _⟩ := hf
  simp

theorem stores_apart (h : label.head? ≠ s.head?) (hl : label ≠ []) :
    (node label terminal children siblings).Stores s ↔ siblings.Stores s := by
  constructor
  · rintro (⟨u, rfl, _⟩ | hs)
    · exact absurd (List.head?_append_of_ne_nil _ hl).symm h
    · exact hs
  · exact .inr

/-- A text of a sibling does not start as the first edge does. -/
theorem head_ne_of_sibling (hf : (node label terminal children siblings).Separated)
    (h : siblings.Stores s) : label.head? ≠ s.head? := by
  obtain ⟨⟨c, l, rfl, hc⟩, _, hsiblings⟩ := hf
  obtain ⟨d, hd, hs⟩ := head_of_stores hsiblings h
  intro hhead
  obtain rfl : c = d := Option.some.inj (hhead.trans hs)
  exact hc hd

theorem stores_of_head (hf : (node label terminal children siblings).Separated)
    (h : label.head? = s.head?) :
    (node label terminal children siblings).Stores s ↔
      ∃ u, s = label ++ u ∧ (u = [] ∧ terminal = true ∨ children.Stores u) := by
  constructor
  · rintro (hu | hsib)
    · exact hu
    · exact absurd h (head_ne_of_sibling hf hsib)
  · exact .inl

/-- Below the first edge the rest of the text decides. -/
theorem stores_along (hf : (node label terminal children siblings).Separated) :
    (node label terminal children siblings).Stores (label ++ s) ↔
      s = [] ∧ terminal = true ∨ children.Stores s := by
  have hl := ne_nil_of_separated hf
  rw [stores_of_head hf (List.head?_append_of_ne_nil _ hl).symm]
  constructor
  · rintro ⟨u, hu, h⟩
    rwa [List.append_cancel_left hu]
  · exact fun h => ⟨s, rfl, h⟩

end Stores

section Insert

variable {label s common tail rest : List Char} {terminal : Bool} {children siblings : Forest}

theorem insert_apart (h : label.head? ≠ s.head?) :
    (node label terminal children siblings).insert s =
      (node label terminal children (siblings.insert s).1, (siblings.insert s).2) := by
  rw [insert, if_pos (commonPrefix_of_head_ne h)]

theorem commonPrefix_along (label rest : List Char) :
    commonPrefix label (label ++ rest) = label := by
  have h := commonPrefix_append label [] rest
  rw [List.append_nil] at h
  simpa [commonPrefix] using h

theorem insert_ends (hl : label ≠ []) :
    (node label terminal children siblings).insert label =
      (node label true children siblings, !terminal) := by
  have h := commonPrefix_along label []
  rw [List.append_nil] at h
  simp [insert, h, hl]

theorem insert_below (hl : label ≠ []) (hr : rest ≠ []) :
    (node label terminal children siblings).insert (label ++ rest) =
      (node label terminal (children.insert rest).1 siblings, (children.insert rest).2) := by
  simp [insert, commonPrefix_along, hl, hr]

theorem insert_cut (hc : common ≠ []) (ht : tail ≠ []) :
    (node (common ++ tail) terminal children siblings).insert common =
      (node common true (node tail terminal children nil) siblings, true) := by
  have hcommon := commonPrefix_append common tail []
  have hnil : commonPrefix tail [] = [] := by cases tail <;> rfl
  rw [hnil, List.append_nil] at hcommon
  simp [insert, hcommon, hc, ht]

theorem insert_fork (hc : common ≠ []) (ht : tail ≠ []) (hr : rest ≠ [])
    (h : tail.head? ≠ rest.head?) :
    (node (common ++ tail) terminal children siblings).insert (common ++ rest) =
      (node common false (node tail terminal children (leaf rest)) siblings, true) := by
  have hcommon := commonPrefix_append common tail rest
  rw [commonPrefix_of_head_ne h, List.append_nil] at hcommon
  simp [insert, hcommon, hc, ht, hr]

/-- Inserting a text, case by case: the way down ends in an empty forest, on a node, or inside
an edge, which is cut there. -/
@[elab_as_elim]
theorem insert_induction {motive : Forest → (s : List Char) → s ≠ [] → Prop}
    (empty : ∀ s hs, motive nil s hs)
    (apart : ∀ label terminal children siblings s hs, label.head? ≠ s.head? →
      motive siblings s hs → motive (node label terminal children siblings) s hs)
    (ends : ∀ label terminal children siblings hl,
      motive (node label terminal children siblings) label hl)
    (below : ∀ label terminal children siblings rest hs hr, label ≠ [] →
      motive children rest hr → motive (node label terminal children siblings) (label ++ rest) hs)
    (cut : ∀ common tail terminal children siblings hc, tail ≠ [] →
      motive (node (common ++ tail) terminal children siblings) common hc)
    (fork : ∀ common tail rest terminal children siblings hs, common ≠ [] → tail ≠ [] →
      rest ≠ [] → tail.head? ≠ rest.head? →
      motive (node (common ++ tail) terminal children siblings) (common ++ rest) hs)
    (f : Forest) (s : List Char) (hs : s ≠ []) : motive f s hs := by
  induction f generalizing s with
  | nil => exact empty s hs
  | node label terminal children siblings ihc ihs =>
    cases meeting hs with
    | apart h => exact apart label terminal children siblings s hs h (ihs s hs)
    | along rest hl =>
      rcases eq_or_ne rest [] with rfl | hr
      · simp only [List.append_nil]
        exact ends label terminal children siblings hl
      · exact below label terminal children siblings rest hs hr hl (ihc rest hr)
    | inside common tail rest hlabel hc ht h =>
      subst hlabel
      rcases eq_or_ne rest [] with rfl | hr
      · simp only [List.append_nil]
        exact cut common tail terminal children siblings hc ht
      · exact fork common tail rest terminal children siblings hs hc ht hr h

end Insert

end Forest

end CqlConsole
