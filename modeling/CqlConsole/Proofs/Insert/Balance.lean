import CqlConsole.Proofs.Insert.TokenWalk
import CqlConsole.Proofs.Token.Depth

/-!
# Balance of parentheses

A state knows how many parentheses are open: one inside of a list, and none
elsewhere. So a complete statement closes what it opens, and where an incomplete
one breaks off tells its depth.
-/

set_option autoImplicit false

namespace CqlConsole.Insert

namespace State

def depth : State → Int
  | firstColumn | moreColumns | nextColumn | columnsClose => 1
  | firstValue | moreValues | nextValue | valuesClose => 1
  | _ => 0

def openLists : List State :=
  [firstColumn, moreColumns, nextColumn, firstValue, moreValues, nextValue]

def closings : List State :=
  [columnsClose, valuesClose]

section Steps

variable {s s' : State} {e : Effect} {t : Token}

theorem depth_of_advance (h : s.react t = .advance s' e) :
    s'.depth = s.depth + t.weight ∧ s' ∉ closings ∧ t.kind ≠ .semicolon := by
  cases s <;> simp only [react, takeIf, finishOn] at h <;>
    grind [depth, closings, Token.weight, Token.isKeyword, Token.isOpenBracket,
      Token.isCloseBracket, Token.is, isTerm, TokenKind.isConstant]

theorem depth_of_handOn (h : s.react t = .handOn s' e) : s'.depth = s.depth := by
  cases s <;> simp only [react, takeIf, finishOn] at h <;> grind [depth]

theorem depth_of_finish (h : s.react t = .finish) : s.depth + t.weight = 0 := by
  cases s <;> simp only [react, takeIf, finishOn] at h <;>
    grind [depth, Token.weight_of_kind, isAccepting]

/-- The state that takes the token or refuses it, after it was handed on. -/
theorem exists_receiver (s : State) (t : Token) :
    ∃ s' : State, s'.depth = s.depth ∧ (∀ next e, s'.react t ≠ .handOn next e) ∧
      landing s (s.path t) = landing s' (s'.path t) := by
  cases hr : s.react t with
  | handOn next e =>
    refine ⟨next, depth_of_handOn hr, react_receiver (mem_receivers hr) t, ?_⟩
    rw [path_handOn hr, landing]
  | _ => exact ⟨s, rfl, by simp [hr], rfl⟩

theorem depth_of_moved (h : landing s (s.path t) = .moved s') :
    s'.depth = s.depth + t.weight ∧ s' ∉ closings ∧ t.kind ≠ .semicolon := by
  obtain ⟨k, hdepth, hlast, hlanding⟩ := exists_receiver s t
  rw [hlanding] at h
  cases hr : k.react t with
  | advance next e =>
    simp only [path, hr, landing, Landing.moved.injEq] at h
    rw [← h, ← hdepth]
    exact depth_of_advance hr
  | handOn next e => exact absurd hr (hlast next e)
  | finish => simp [path, hr, landing] at h
  | stuck => simp [path, hr, landing] at h

theorem depth_of_finished (h : landing s (s.path t) = .finished s') :
    s.depth + t.weight = 0 := by
  obtain ⟨k, hdepth, hlast, hlanding⟩ := exists_receiver s t
  rw [hlanding] at h
  rw [← hdepth]
  cases hr : k.react t with
  | advance next e => simp [path, hr, landing] at h
  | handOn next e => exact absurd hr (hlast next e)
  | finish => exact depth_of_finish hr
  | stuck => simp [path, hr, landing] at h

end Steps

theorem depth_of_isAccepting {s : State} (h : s.isAccepting = true) : s.depth = 0 := by
  cases s <;> first | rfl | cases h

end State

/-- What an outcome says of the tokens that were read from depth `n` on. -/
def Balanced (n : Int) (ts : List Token) : Outcome → Prop
  | .complete => n + Token.depth ts = 0 ∧ ∀ t ∈ ts, t.kind ≠ .error
  | .incomplete s =>
    n + Token.depth ts = s.depth ∧ s ∉ State.closings ∧
      ∀ t ∈ ts, t.kind ≠ .error ∧ t.kind ≠ .semicolon
  | .rejected _ _ => True

section Walk

variable {n : Int} {s : State} {d : Draft} {t : Token} {ts : List Token} {r : Reading}
  {o : Outcome}

theorem balanced_cons (he : t.kind ≠ .error) (hk : t.kind ≠ .semicolon)
    (h : Balanced (n + t.weight) ts o) : Balanced n (t :: ts) o := by
  cases o with
  | complete =>
    obtain ⟨hdepth, hkinds⟩ := h
    refine ⟨?_, List.forall_mem_cons.2 ⟨he, hkinds⟩⟩
    rw [Token.depth_cons, ← Int.add_assoc, hdepth]
  | incomplete s =>
    obtain ⟨hdepth, hs, hkinds⟩ := h
    refine ⟨?_, hs, List.forall_mem_cons.2 ⟨⟨he, hk⟩, hkinds⟩⟩
    rw [Token.depth_cons, ← Int.add_assoc, hdepth]
  | rejected s t => trivial

theorem outcome_of_prepend {w : Except SyntaxError Reading}
    (h : w.map (Reading.prepend t) = .ok r) : ∃ q, w = .ok q ∧ r.outcome = q.outcome := by
  cases w with
  | error e => cases h
  | ok q =>
    cases h
    exact ⟨q, rfl, rfl⟩

/-- Behind the terminator the statement is complete, or it is rejected. -/
theorem readTrailing_cases (h : readTrailing s d ts = .ok r) :
    ts = [] ∧ r.outcome = .complete ∨ ∃ s t, r.outcome = .rejected s t := by
  cases ts with
  | nil =>
    cases h
    exact .inl ⟨rfl, rfl⟩
  | cons t ts =>
    rw [readTrailing] at h
    split_ifs at h
    cases h
    exact .inr ⟨s, t, rfl⟩

theorem balanced_readFrom (h : readFrom s d ts = .ok r) (hs : s ∉ State.closings) :
    Balanced s.depth ts r.outcome := by
  -- Where a token lands decides the case, and the depth of the state goes along with the tokens.
  induction ts generalizing s d r with
  | nil =>
    cases h
    by_cases ha : s.isAccepting = true
    · have hdepth := State.depth_of_isAccepting ha
      simp [ha, Balanced, hdepth]
    · simp [ha, Balanced, hs]
  | cons t ts ih =>
    rw [readFrom] at h
    split_ifs at h with he
    cases hl : landing s (s.path t) with
    | moved next =>
      simp only [hl] at h
      obtain ⟨hdepth, hnext, hk⟩ := State.depth_of_moved hl
      obtain ⟨q, hq, houtcome⟩ := outcome_of_prepend h
      rw [houtcome]
      refine balanced_cons he hk ?_
      rw [← hdepth]
      exact ih hq hnext
    | finished s' =>
      simp only [hl] at h
      have hdepth := State.depth_of_finished hl
      obtain ⟨q, hq, houtcome⟩ := outcome_of_prepend h
      rw [houtcome]
      rcases readTrailing_cases hq with ⟨rfl, hcomplete⟩ | ⟨k, u, hrejected⟩
      · rw [hcomplete]
        simp [Balanced, hdepth, he]
      · rw [hrejected]
        trivial
    | refused s' =>
      simp only [hl] at h
      cases h
      trivial

end Walk

end CqlConsole.Insert

namespace CqlConsole

open CqlConsole.Insert

/-- The parentheses of an input that is read to its end are those that are open there. -/
theorem balanced_inspect {input : String} {r : Reading} (h : inspect input = .ok r) :
    Balanced 0 (solidTokens input) r.outcome := by
  obtain ⟨first, ts, hsolid, hinsert⟩ := insert_of_inspect h
  rw [inspect_of_insert hsolid hinsert] at h
  simp only [Token.isKeyword, Token.is, Bool.and_eq_true, beq_iff_eq] at hinsert
  rw [hsolid]
  refine balanced_cons (by simp [hinsert]) (by simp [hinsert]) ?_
  rw [Token.weight_of_kind (by simp [hinsert]), Int.add_zero]
  exact balanced_readFrom h (by decide)

end CqlConsole
