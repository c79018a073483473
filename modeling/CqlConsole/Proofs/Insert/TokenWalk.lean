import CqlConsole.Proofs.Token.Solid
import CqlConsole.Statement

/-!
# The walk over solid tokens

What a walk says of a statement depends on the solid tokens of the input alone.
`readFrom` is the walk without positions and white space; each answer of a
state to a token is one equation for it.
-/

set_option autoImplicit false

namespace CqlConsole.Insert

namespace State

theorem react_error (s : State) {t : Token} (h : t.kind = .error) : s.react t = .stuck := by
  cases s <;> simp [react, takeIf, finishOn, isTerm, TokenKind.isConstant, Token.isKeyword,
    Token.isOpenBracket, Token.isCloseBracket, Token.is, h]

def receivers : List State :=
  [jsonKeyword, columnsOpen, columnsClose, valuesClose, ifKeyword, usingKeyword]

theorem mem_receivers {s next : State} {e : Effect} {t : Token}
    (h : s.react t = .handOn next e) : next ∈ receivers := by
  cases s <;> simp only [react, takeIf, finishOn] at h <;> grind [receivers]

theorem react_receiver {s : State} (h : s ∈ receivers) (t : Token) (next : State) (e : Effect) :
    s.react t ≠ .handOn next e := by
  simp only [receivers, List.mem_cons, List.not_mem_nil, or_false] at h
  rcases h with rfl | rfl | rfl | rfl | rfl | rfl <;> simp only [react, takeIf, finishOn] <;>
    split_ifs <;> simp

theorem path_handOn {s next : State} {e : Effect} {t : Token}
    (h : s.react t = .handOn next e) :
    s.path t = (s, .handOn next e) :: next.path t := by
  have hn := react_receiver (mem_receivers h) t
  simp only [path, h]

end State

def Reading.prepend (t : Token) (r : Reading) : Reading :=
  { r with backlog := t :: r.backlog }

def readTrailing (s : State) (d : Draft) : List Token → Except SyntaxError Reading
  | [] => .ok ⟨d.statement, .complete, []⟩
  | t :: _ =>
    if t.kind = .error then .error (.invalidToken t.text)
    else .ok ⟨d.statement, .rejected s t, [t]⟩

def readFrom (s : State) (d : Draft) : List Token → Except SyntaxError Reading
  | [] => .ok ⟨d.statement, if s.isAccepting then .complete else .incomplete s, []⟩
  | t :: ts =>
    if t.kind = .error then .error (.invalidToken t.text)
    else
      match landing s (s.path t) with
      | .moved next => (readFrom next (d.applyPath t (s.path t)) ts).map (Reading.prepend t)
      | .finished state =>
        (readTrailing state (d.applyPath t (s.path t)) ts).map (Reading.prepend t)
      | .refused state => .ok ⟨(d.applyPath t (s.path t)).statement, .rejected state t, [t]⟩

theorem readFrom_error (s : State) (d : Draft) {t : Token} (ts : List Token)
    (h : t.kind = .error) : readFrom s d (t :: ts) = .error (.invalidToken t.text) := by
  simp [readFrom, h]

theorem readFrom_advance {s next : State} {e : Effect} {t : Token} (d : Draft) (ts : List Token)
    (h : s.react t = .advance next e) :
    readFrom s d (t :: ts) = (readFrom next (d.apply e t) ts).map (Reading.prepend t) := by
  have hk : t.kind ≠ .error := by
    intro hk
    simp [s.react_error hk] at h
  have hp : s.path t = [(s, .advance next e)] := by simp [State.path, h]
  simp [readFrom, hk, hp, landing, Draft.applyPath]

theorem readFrom_handOn {s next : State} {e : Effect} {t : Token} (d : Draft) (ts : List Token)
    (h : s.react t = .handOn next e) :
    readFrom s d (t :: ts) = readFrom next (d.apply e t) (t :: ts) := by
  simp only [readFrom, State.path_handOn h, landing, Draft.applyPath]

theorem readFrom_finish {s : State} {t : Token} (d : Draft) (ts : List Token)
    (h : s.react t = .finish) :
    readFrom s d (t :: ts) = (readTrailing s d ts).map (Reading.prepend t) := by
  have hk : t.kind ≠ .error := by
    intro hk
    simp [s.react_error hk] at h
  have hp : s.path t = [(s, .finish)] := by simp [State.path, h]
  simp [readFrom, hk, hp, landing, Draft.applyPath]

theorem readFrom_stuck {s : State} {t : Token} (d : Draft) (ts : List Token)
    (h : s.react t = .stuck) (hk : t.kind ≠ .error) :
    readFrom s d (t :: ts) = .ok ⟨d.statement, .rejected s t, [t]⟩ := by
  have hp : s.path t = [(s, .stuck)] := by simp [State.path, h]
  simp [readFrom, hk, hp, landing, Draft.applyPath]

theorem reading_prepend (t : Token) (steps : List Step) (w : Walk) :
    (w.prepend t steps).reading = w.reading.map (Reading.prepend t) := by
  cases h : w.outcome <;> simp [Walk.reading, Walk.prepend, Reading.prepend, h, Except.map]

theorem trailing_reading (s : State) (d : Draft) (c : Cursor) :
    (Walk.trailing d s c).reading = readTrailing s d c.solid := by
  cases hc : c.solid with
  | nil =>
    have hk := Cursor.nextSolid_of_nil hc
    simp [Walk.trailing, hk, Walk.reading, readTrailing, Except.map]
  | cons t ts =>
    have ht := (Cursor.nextSolid_of_cons hc).1
    have hk := (Cursor.solid_kind (c := c) (t := t) (by simp [hc])).2
    by_cases he : t.kind = .error
    · simp [Walk.trailing, ht, he, Walk.reading, readTrailing, Except.map]
    · simp only [Walk.trailing, ht, readTrailing, if_neg he]
      rfl

/-- White space and positions have no part in what a walk reads. -/
theorem walk_reading (s : State) (d : Draft) (p : Nat) (ls : List Lexeme) :
    (Walk.ofLexemes s d p ls).reading = readFrom s d (Cursor.solid ⟨p, ls⟩) := by
  induction ls generalizing s d p with
  | nil => rfl
  | cons l ls ih =>
    rw [Cursor.solid_cons p l.stop]
    by_cases hw : l.kind = .whitespace
    · have ht : l.token.kind = .whitespace := hw
      rw [if_pos hw, ← ih s d l.stop]
      simp only [Walk.ofLexemes, ht]
    · have ht : l.token.kind ≠ .whitespace := hw
      rw [if_neg hw, readFrom]
      by_cases he : l.token.kind = .error
      · simp [Walk.ofLexemes, he, Walk.reading, Except.map]
      · simp only [Walk.ofLexemes, if_neg he]
        cases hl : landing s (s.path l.token) with
        | moved next =>
          simp only [reading_prepend, ih]
        | finished state =>
          simp only [reading_prepend, trailing_reading]
        | refused state =>
          simp [Walk.reading, Except.map]

def accept (s : State) (d : Draft) (ts : List Token) : Except SyntaxError Statement :=
  readFrom s d ts >>= Reading.complete

end CqlConsole.Insert

namespace CqlConsole

open CqlConsole.Insert

def readTokens : List Token → Except SyntaxError Reading
  | [] => .error .empty
  | first :: ts =>
    match first.kind with
    | .error => .error (.invalidToken first.text)
    | .keyword =>
      if first.text = "insert" then readFrom .into {} ts
      else if first.text ∈ statementKeywords then
        .error (.unsupported (String.ofList (Text.upper first.text.toList)))
      else .error (.unexpected "statement keyword" first.text)
    | _ => .error (.unexpected "statement keyword" first.text)

theorem inspect_eq (input : String) : inspect input = readTokens (solidTokens input) := by
  rw [← Cursor.solid_ofInput, inspect, inspectSteps]
  cases hs : (Cursor.ofInput input).solid with
  | nil =>
    have hk := Cursor.nextSolid_of_nil hs
    simp only [hk, readTokens]
  | cons first ts =>
    obtain ⟨hfirst, hrest⟩ := Cursor.nextSolid_of_cons hs
    have hk := (Cursor.solid_kind (c := Cursor.ofInput input) (t := first) (by simp [hs])).2
    simp only [hfirst, readTokens]
    cases hkind : first.kind with
    | endOfInput => exact absurd hkind hk
    | keyword =>
      simp only [Walk.ofCursor, walk_reading, ← hrest]
      split_ifs <;> rfl
    | _ => rfl

theorem inspect_of_insert {input : String} {first : Token} {ts : List Token}
    (h : solidTokens input = first :: ts) (hi : first.isKeyword "insert" = true) :
    inspect input = readFrom .into {} ts := by
  simp only [Token.isKeyword, Token.is, Bool.and_eq_true, beq_iff_eq] at hi
  simp only [inspect_eq, h, readTokens, hi, if_true]

theorem insert_of_inspect {input : String} {r : Reading} (h : inspect input = .ok r) :
    ∃ first ts, solidTokens input = first :: ts ∧ first.isKeyword "insert" = true := by
  rw [inspect_eq] at h
  cases hs : solidTokens input with
  | nil =>
    rw [hs] at h
    cases h
  | cons first ts =>
    refine ⟨first, ts, rfl, ?_⟩
    rw [hs, readTokens] at h
    split at h
    · cases h
    · rename_i hk
      split_ifs at h with hi
      simp [Token.isKeyword, Token.is, hk, hi]
    · cases h

/-- The statements that are read are those that the tokens behind the first keyword complete. -/
theorem parse_eq_ok {input : String} {s : Statement} :
    parse input = .ok s ↔ ∃ first ts, solidTokens input = first :: ts ∧
      first.isKeyword "insert" = true ∧ accept .into {} ts = .ok s := by
  constructor
  · intro h
    cases hr : inspect input with
    | error e => simp [parse, hr, bind, Except.bind] at h
    | ok r =>
      obtain ⟨first, ts, hs, hi⟩ := insert_of_inspect hr
      refine ⟨first, ts, hs, hi, ?_⟩
      rw [accept, ← inspect_of_insert hs hi]
      exact h
  · rintro ⟨first, ts, hs, hi, h⟩
    rw [parse, inspect_of_insert hs hi]
    exact h

end CqlConsole
