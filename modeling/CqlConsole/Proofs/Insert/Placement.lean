import CqlConsole.Proofs.Insert.TokenWalk
import CqlConsole.Proofs.Token.Pieces

/-!
# Places have no part in the grammar

What a state does with a token depends on the kind and the text of the token.
So a walk over the same tokens at other places takes the same transitions, and
builds the same statement up to the places of the tokens in it.
-/

set_option autoImplicit false

namespace CqlConsole.Insert

def Statement.unplaced (s : Statement) : Statement :=
  { s with
    values := s.values.map Token.unplaced
    ttl := s.ttl.map Token.unplaced
    timestamp := s.timestamp.map Token.unplaced }

def Draft.unplaced (d : Draft) : Draft :=
  { d with statement := d.statement.unplaced }

def Outcome.unplaced : Outcome → Outcome
  | .rejected s t => .rejected s t.unplaced
  | outcome => outcome

def Reading.unplaced (r : Reading) : Reading where
  statement := r.statement.unplaced
  outcome := r.outcome.unplaced
  backlog := r.backlog.map Token.unplaced

theorem text_parts (s : Statement) :
    s.text = "INSERT INTO " ++ s.qualifiedTable ++ s.bodyText ++
      (if s.ifNotExists then " IF NOT EXISTS" else "") ++ s.usingText ++ ";" := rfl

theorem options_unplaced (s : Statement) : s.unplaced.options = s.options := by
  simp only [Statement.options, Statement.unplaced, Option.map_map]
  rfl

theorem text_unplaced (s : Statement) : s.unplaced.text = s.text := by
  have htext : Token.text ∘ Token.unplaced = Token.text := rfl
  have hvalues : s.unplaced.values.map Token.text = s.values.map Token.text := by
    rw [Statement.unplaced, List.map_map, htext]
  have hbody : s.unplaced.bodyText = s.bodyText := by
    rw [Statement.bodyText, Statement.bodyText, hvalues]
    rfl
  have husing : s.unplaced.usingText = s.usingText := by
    rw [Statement.usingText, Statement.usingText, options_unplaced]
  have htable : s.unplaced.qualifiedTable = s.qualifiedTable := rfl
  have hclause : s.unplaced.ifNotExists = s.ifNotExists := rfl
  rw [text_parts, text_parts, hbody, husing, htable, hclause]

theorem react_unplaced (s : State) (t : Token) : s.react t.unplaced = s.react t := by
  cases s <;> rfl

theorem path_unplaced (s : State) (t : Token) : s.path t.unplaced = s.path t := by
  simp only [State.path, react_unplaced]

theorem apply_unplaced (d : Draft) (e : Effect) (t : Token) :
    d.unplaced.apply e t.unplaced = (d.apply e t).unplaced := by
  cases e with
  | pushValue => simp [Draft.apply, Draft.unplaced, Statement.unplaced]
  | usingValue =>
    obtain ⟨s, pending, option⟩ := d
    rcases option with _ | _ | _ <;> rfl
  | _ => rfl

theorem applyPath_unplaced (d : Draft) (t : Token) (path : List (State × Transition)) :
    d.unplaced.applyPath t.unplaced path = (d.applyPath t path).unplaced := by
  induction path generalizing d with
  | nil => rfl
  | cons p path ih =>
    obtain ⟨s, transition⟩ := p
    cases transition <;> simp only [Draft.applyPath, apply_unplaced, ih]

theorem prepend_unplaced (t : Token) (r : Except SyntaxError Reading) :
    (r.map (Reading.prepend t)).map Reading.unplaced =
      (r.map Reading.unplaced).map (Reading.prepend t.unplaced) := by
  cases r <;> rfl

theorem readTrailing_unplaced (s : State) (d : Draft) (ts : List Token) :
    readTrailing s d.unplaced (ts.map Token.unplaced) =
      (readTrailing s d ts).map Reading.unplaced := by
  cases ts with
  | nil => rfl
  | cons t ts =>
    have hk : t.unplaced.kind = t.kind := rfl
    rw [List.map_cons, readTrailing, readTrailing, hk]
    split <;> rfl

theorem readFrom_unplaced (s : State) (d : Draft) (ts : List Token) :
    readFrom s d.unplaced (ts.map Token.unplaced) =
      (readFrom s d ts).map Reading.unplaced := by
  induction ts generalizing s d with
  | nil =>
    rw [List.map_nil, readFrom, readFrom]
    split <;> rfl
  | cons t ts ih =>
    have hk : t.unplaced.kind = t.kind := rfl
    rw [List.map_cons, readFrom, readFrom, hk, path_unplaced, applyPath_unplaced]
    by_cases he : t.kind = .error
    · simp only [if_pos he]
      rfl
    · simp only [if_neg he]
      cases landing s (s.path t) with
      | moved next => simp only [ih, prepend_unplaced]
      | finished state => simp only [readTrailing_unplaced, prepend_unplaced]
      | refused state => rfl

theorem complete_unplaced (r : Reading) :
    r.unplaced.complete = r.complete.map Statement.unplaced := by
  obtain ⟨s, outcome, backlog⟩ := r
  cases outcome <;> rfl

/-- The same tokens at other places complete the same statement. -/
theorem accept_unplaced (s : State) (d : Draft) (ts : List Token) :
    accept s d.unplaced (ts.map Token.unplaced) = (accept s d ts).map Statement.unplaced := by
  rw [accept, accept, readFrom_unplaced]
  cases readFrom s d ts with
  | error e => rfl
  | ok r => exact complete_unplaced r

end CqlConsole.Insert

namespace CqlConsole

open CqlConsole.Insert

theorem readTokens_unplaced (ts : List Token) :
    readTokens (ts.map Token.unplaced) = (readTokens ts).map Reading.unplaced := by
  cases ts with
  | nil => rfl
  | cons first ts =>
    have hkind : first.unplaced.kind = first.kind := rfl
    have htext : first.unplaced.text = first.text := rfl
    rw [List.map_cons, readTokens, readTokens, hkind, htext]
    cases first.kind with
    | keyword =>
      simp only
      split_ifs
      · exact readFrom_unplaced .into {} ts
      · rfl
      · rfl
    | _ => rfl

end CqlConsole
