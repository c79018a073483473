import CqlConsole.Proofs.Insert.Placement

/-!
# How a walk ends

Whether tokens are read to their end depends on the state and on their kinds and
texts alone, and not on what was built before or where they stand.
-/

set_option autoImplicit false

namespace CqlConsole.Insert

def Reading.IsOpen (r : Reading) : Prop :=
  r.outcome = .complete ∨ ∃ s, r.outcome = .incomplete s

/-- From the state on, the tokens are read to their end. -/
def Reads (s : State) (ts : List Token) : Prop :=
  ∃ r, readFrom s {} ts = .ok r ∧ r.IsOpen

section Draft

variable {s next : State} {e : Effect} {t : Token} (ts : List Token)

theorem outcome_prepend (t : Token) (r : Except SyntaxError Reading) :
    (r.map (Reading.prepend t)).map Reading.outcome = r.map Reading.outcome := by
  cases r <;> rfl

theorem outcome_readTrailing (s : State) (d d' : Draft) :
    (readTrailing s d ts).map Reading.outcome = (readTrailing s d' ts).map Reading.outcome := by
  cases ts with
  | nil => rfl
  | cons t ts =>
    rw [readTrailing, readTrailing]
    split <;> rfl

theorem outcome_readFrom (s : State) (d d' : Draft) :
    (readFrom s d ts).map Reading.outcome = (readFrom s d' ts).map Reading.outcome := by
  induction ts generalizing s d d' with
  | nil => rfl
  | cons t ts ih =>
    rw [readFrom, readFrom]
    by_cases he : t.kind = .error
    · rw [if_pos he, if_pos he]
    · rw [if_neg he, if_neg he]
      cases landing s (s.path t) with
      | moved next =>
        simp only [outcome_prepend]
        exact ih next _ _
      | finished state =>
        simp only [outcome_prepend]
        exact outcome_readTrailing ts state _ _
      | refused state => rfl

theorem isOpen_iff_outcome (r : Except SyntaxError Reading) :
    (∃ q, r = .ok q ∧ q.IsOpen) ↔
      ∃ o, r.map Reading.outcome = .ok o ∧ (o = .complete ∨ ∃ s, o = .incomplete s) := by
  cases r <;> simp [Except.map, Reading.IsOpen]

theorem reads_iff (s : State) (d : Draft) :
    (∃ r, readFrom s d ts = .ok r ∧ r.IsOpen) ↔ Reads s ts := by
  rw [Reads, isOpen_iff_outcome, isOpen_iff_outcome, outcome_readFrom ts s d {}]

theorem reads_nil (s : State) : Reads s [] := by
  refine ⟨_, rfl, ?_⟩
  by_cases h : s.isAccepting = true <;> simp [Reading.IsOpen, h]

theorem reads_advance (h : s.react t = .advance next e) : Reads s (t :: ts) ↔ Reads next ts := by
  rw [← reads_iff ts next (({} : Draft).apply e t), Reads, readFrom_advance {} ts h]
  rw [isOpen_iff_outcome, isOpen_iff_outcome, outcome_prepend]

theorem reads_handOn (h : s.react t = .handOn next e) :
    Reads s (t :: ts) ↔ Reads next (t :: ts) := by
  rw [← reads_iff (t :: ts) next (({} : Draft).apply e t), Reads, readFrom_handOn {} ts h]

theorem not_reads_stuck (h : s.react t = .stuck) : ¬Reads s (t :: ts) := by
  rintro ⟨r, hr, hopen⟩
  by_cases he : t.kind = .error
  · rw [readFrom_error s {} ts he] at hr
    cases hr
  · rw [readFrom_stuck {} ts h he] at hr
    cases hr
    simp [Reading.IsOpen] at hopen

theorem isOpen_unplaced (r : Reading) : r.unplaced.IsOpen ↔ r.IsOpen := by
  obtain ⟨st, outcome, backlog⟩ := r
  cases outcome <;> simp [Reading.IsOpen, Reading.unplaced, Outcome.unplaced]

theorem reads_unplaced (s : State) : Reads s (ts.map Token.unplaced) ↔ Reads s ts := by
  have hread : readFrom s {} (ts.map Token.unplaced) = (readFrom s {} ts).map Reading.unplaced :=
    readFrom_unplaced s {} ts
  rw [Reads, Reads, hread]
  cases readFrom s {} ts with
  | error e => simp [Except.map]
  | ok r => simp [Except.map, isOpen_unplaced]

end Draft

end CqlConsole.Insert

namespace CqlConsole

open CqlConsole.Insert

theorem inspect_isOpen {input : String} {first : Token} {ts : List Token}
    (h : solidTokens input = first :: ts) (hi : first.isKeyword "insert" = true) :
    (∃ r, inspect input = .ok r ∧ r.IsOpen) ↔ Reads .into ts := by
  rw [inspect_of_insert h hi, Reads]

end CqlConsole
