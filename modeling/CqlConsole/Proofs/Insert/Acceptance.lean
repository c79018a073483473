import CqlConsole.Proofs.Insert.Grammar
import CqlConsole.Proofs.Insert.TokenWalk
import Mathlib.Data.List.Basic

/-!
# The language of each state

The tokens that a state accepts, in terms of the symbols they spell. A state
that takes one token accepts a symbol and then what the next state accepts, a
state that hands tokens on accepts what any of its receivers accepts, and the
three lists of the grammar are loops of one kind.
-/

set_option autoImplicit false

namespace CqlConsole.Insert

def Accepts (st : Statement) (s : State) (d : Draft) (ts : List Token) : Prop :=
  accept s d ts = .ok st

section Accept

variable {s next : State} {e : Effect} {t : Token} {st : Statement}

theorem accepts_nil (d : Draft) :
    Accepts st s d [] ↔ s.isAccepting = true ∧ st = d.statement := by
  cases h : s.isAccepting <;>
    simp [Accepts, accept, readFrom, h, bind, Except.bind, Reading.complete, eq_comm]

theorem complete_prepend (t : Token) (r : Except SyntaxError Reading) :
    r.map (Reading.prepend t) >>= Reading.complete = r >>= Reading.complete := by
  cases r <;> rfl

theorem complete_trailing {d : Draft} {ts : List Token} :
    readTrailing s d ts >>= Reading.complete = .ok st ↔ ts = [] ∧ st = d.statement := by
  cases ts with
  | nil => simp [readTrailing, bind, Except.bind, Reading.complete, eq_comm]
  | cons u us =>
    rw [readTrailing]
    split_ifs <;> simp [bind, Except.bind, Reading.complete]

theorem accepts_advance (d : Draft) (ts : List Token) (h : s.react t = .advance next e) :
    Accepts st s d (t :: ts) ↔ Accepts st next (d.apply e t) ts := by
  rw [Accepts, accept, readFrom_advance d ts h, complete_prepend, Accepts, accept]

theorem accepts_handOn (d : Draft) (ts : List Token) (h : s.react t = .handOn next e) :
    Accepts st s d (t :: ts) ↔ Accepts st next (d.apply e t) (t :: ts) := by
  rw [Accepts, accept, readFrom_handOn d ts h, Accepts, accept]

theorem accepts_finish (d : Draft) (ts : List Token) (h : s.react t = .finish) :
    Accepts st s d (t :: ts) ↔ ts = [] ∧ st = d.statement := by
  rw [Accepts, accept, readFrom_finish d ts h, complete_prepend, complete_trailing]

theorem not_accepts_stuck (d : Draft) (ts : List Token) (h : s.react t = .stuck) :
    ¬ Accepts st s d (t :: ts) := by
  rw [Accepts, accept]
  by_cases hk : t.kind = .error
  · simp [readFrom_error s d ts hk, bind, Except.bind]
  · simp [readFrom_stuck d ts h hk, bind, Except.bind, Reading.complete]

theorem accepts_takeIf {test : Token → Bool} {d : Draft} {ts : List Token}
    (h : ∀ t, s.react t = State.takeIf (test t) next e) (hs : s.isAccepting = false) :
    Accepts st s d ts ↔
      ∃ t us, ts = t :: us ∧ test t = true ∧ Accepts st next (d.apply e t) us := by
  cases ts with
  | nil => simp [accepts_nil, hs]
  | cons t us =>
    by_cases ht : test t = true
    · have hr : s.react t = .advance next e := by simp [h, State.takeIf, ht]
      rw [accepts_advance d us hr]
      simp [ht]
    · have hr : s.react t = .stuck := by simp [h, State.takeIf, ht]
      have hn : ¬ Accepts st s d (t :: us) := not_accepts_stuck d us hr
      simp [hn, ht]

end Accept

/-- The tokens start with some that spell `xs`, and `P` holds of those that follow. -/
def Spells (xs : List Symbol) (P : List Token → Prop) (ts : List Token) : Prop :=
  ∃ us vs, ts = us ++ vs ∧ us.map symbol = xs ∧ P vs

section Spells

variable {x : Symbol} {xs ys : List Symbol} {P Q : List Token → Prop} {ts : List Token}

theorem spells_nil : Spells [] P ts ↔ P ts := by
  simp [Spells]

theorem spells_cons :
    Spells (x :: xs) P ts ↔ ∃ t us, ts = t :: us ∧ symbol t = x ∧ Spells xs P us := by
  constructor
  · rintro ⟨us, vs, rfl, hx, hP⟩
    obtain ⟨t, us, rfl, ht, hu⟩ := List.map_eq_cons_iff.1 hx
    exact ⟨t, us ++ vs, rfl, ht, us, vs, rfl, hu, hP⟩
  · rintro ⟨t, us, rfl, ht, us, vs, rfl, hu, hP⟩
    exact ⟨t :: us, vs, rfl, by simp [ht, hu], hP⟩

theorem spells_append : Spells (xs ++ ys) P ts ↔ Spells xs (Spells ys P) ts := by
  induction xs generalizing ts with
  | nil => rw [List.nil_append, spells_nil]
  | cons x xs ih => simp only [List.cons_append, spells_cons, ih]

theorem spells_congr (h : ∀ us, P us ↔ Q us) : Spells xs P ts ↔ Spells xs Q ts := by
  simp only [Spells, h]

theorem spells_exists {α : Type} {P : α → List Token → Prop} :
    Spells xs (fun us => ∃ a, P a us) ts ↔ ∃ a, Spells xs (P a) ts := by
  constructor
  · rintro ⟨us, vs, hts, hx, a, hP⟩
    exact ⟨a, us, vs, hts, hx, hP⟩
  · rintro ⟨a, us, vs, hts, hx, hP⟩
    exact ⟨us, vs, hts, hx, a, hP⟩

theorem spells_or :
    Spells xs (fun us => P us ∨ Q us) ts ↔ Spells xs P ts ∨ Spells xs Q ts := by
  constructor
  · rintro ⟨us, vs, hts, hx, hP | hQ⟩
    · exact .inl ⟨us, vs, hts, hx, hP⟩
    · exact .inr ⟨us, vs, hts, hx, hQ⟩
  · rintro (⟨us, vs, hts, hx, hP⟩ | ⟨us, vs, hts, hx, hQ⟩)
    · exact ⟨us, vs, hts, hx, .inl hP⟩
    · exact ⟨us, vs, hts, hx, .inr hQ⟩

theorem spells_and {p : Prop} :
    Spells xs (fun us => P us ∧ p) ts ↔ Spells xs P ts ∧ p := by
  constructor
  · rintro ⟨us, vs, hts, hx, hP, hp⟩
    exact ⟨⟨us, vs, hts, hx, hP⟩, hp⟩
  · rintro ⟨⟨us, vs, hts, hx, hP⟩, hp⟩
    exact ⟨us, vs, hts, hx, hP, hp⟩

/-- Tokens that spell `xs` and then `ys` spell both together. -/
theorem spells_map : Spells xs (fun us => us.map symbol = ys) ts ↔ ts.map symbol = xs ++ ys := by
  constructor
  · rintro ⟨us, vs, rfl, hx, hy⟩
    rw [List.map_append, hx, hy]
  · intro h
    obtain ⟨us, vs, rfl, hx, hy⟩ := List.map_eq_append_iff.1 h
    exact ⟨us, vs, rfl, hx, hy⟩

/-- A loop: `S` goes on with an item or leaves to `E`, so it takes a list of items. -/
theorem spells_loop {α σ : Type} (item : α → List Symbol) (add : σ → α → σ)
    (S E : σ → List Token → Prop) (hne : ∀ a, item a ≠ [])
    (h : ∀ d ts, S d ts ↔ (∃ a, Spells (item a) (S (add d a)) ts) ∨ E d ts)
    (d : σ) (ts : List Token) :
    S d ts ↔ ∃ as : List α, Spells (as.flatMap item) (E (as.foldl add d)) ts := by
  constructor
  · intro hS
    -- An item spells at least one token, so what is left for the loop gets shorter.
    induction hn : ts.length using Nat.strongRecOn generalizing d ts with
    | ind n ih =>
      rcases (h d ts).1 hS with ⟨a, us, vs, rfl, ha, hv⟩ | hE
      · have hu : us ≠ [] := by
          rintro rfl
          exact hne a ha.symm
        have hlen : vs.length < n := by
          have := List.length_pos_of_ne_nil hu
          simp only [List.length_append] at hn
          omega
        obtain ⟨as, hs⟩ := ih vs.length hlen (add d a) vs hv rfl
        refine ⟨a :: as, ?_⟩
        rw [List.flatMap_cons, spells_append]
        exact ⟨us, vs, rfl, ha, hs⟩
      · exact ⟨[], spells_nil.2 hE⟩
  · rintro ⟨as, hs⟩
    induction as generalizing d ts with
    | nil => exact (h d ts).2 (.inr (spells_nil.1 hs))
    | cons a as ih =>
      rw [List.flatMap_cons, spells_append] at hs
      obtain ⟨us, vs, hts, ha, hv⟩ := hs
      exact (h d ts).2 (.inl ⟨a, us, vs, hts, ha, ih (add d a) vs hv⟩)

end Spells

end CqlConsole.Insert
