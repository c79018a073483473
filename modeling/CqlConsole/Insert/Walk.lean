import CqlConsole.Error
import CqlConsole.Insert.State
import CqlConsole.Insert.Statement
import CqlConsole.Token.Cursor

/-!
# Walking over an INSERT statement

The walk feeds the tokens of the input to the states and builds the statement
on the way. It stops at the end of the input, at a terminator, at a token that
has no place, or at one that is no token at all. What was built so far is kept,
together with the tokens that were read and the transitions they took.
-/

set_option autoImplicit false

namespace CqlConsole.Insert

inductive UsingName where
  | ttl
  | timestamp
  deriving DecidableEq, Repr

structure Draft where
  statement : Statement := {}
  pending : Option String := none
  option : Option UsingName := none
  deriving DecidableEq, Repr

namespace Draft

def apply (d : Draft) (effect : Effect) (t : Token) : Draft :=
  let s := d.statement
  match effect with
  | .none => d
  | .pending => { d with pending := some t.text }
  | .keyspaceFromPending =>
    { d with statement := { s with keyspace := d.pending }, pending := none }
  | .tableFromPending =>
    { d with statement := { s with table := d.pending.getD "" }, pending := none }
  | .setTable => { d with statement := { s with table := t.text } }
  | .pushColumn => { d with statement := { s with columns := s.columns ++ [t.text] } }
  | .pushValue => { d with statement := { s with values := s.values ++ [t] } }
  | .setJson => { d with statement := { s with json := true } }
  | .jsonPayload => { d with statement := { s with payload := some t.text } }
  | .ifNotExists => { d with statement := { s with ifNotExists := true } }
  | .usingOption => { d with option := some (if t.isKeyword "ttl" then .ttl else .timestamp) }
  | .usingValue =>
    match d.option with
    | some .ttl => { d with statement := { s with ttl := some t }, option := none }
    | some .timestamp => { d with statement := { s with timestamp := some t }, option := none }
    | none => d

def applyPath (d : Draft) (t : Token) : List (State × Transition) → Draft
  | [] => d
  | (_, .advance _ effect) :: rest => (d.apply effect t).applyPath t rest
  | (_, .handOn _ effect) :: rest => (d.apply effect t).applyPath t rest
  | (_, .finish) :: rest => d.applyPath t rest
  | (_, .stuck) :: rest => d.applyPath t rest

end Draft

structure Step where
  state : State
  token : Token
  transition : Transition
  deriving DecidableEq, Repr

def Step.display (s : Step) : String :=
  "insert: " ++ s.state.label ++ " on " ++ s.token.display ++ " -> " ++ s.transition.display

inductive Outcome where
  | complete
  | incomplete (state : State)
  | rejected (state : State) (token : Token)
  deriving DecidableEq, Repr

inductive Landing where
  | moved (state : State)
  | finished (state : State)
  | refused (state : State)
  deriving DecidableEq, Repr

def landing : State → List (State × Transition) → Landing
  | s, [] => .moved s
  | _, (_, .advance next _) :: rest => landing next rest
  | _, (_, .handOn next _) :: rest => landing next rest
  | _, (state, .finish) :: _ => .finished state
  | _, (state, .stuck) :: _ => .refused state

structure Walk where
  statement : Statement
  outcome : Except SyntaxError Outcome
  /-- The tokens read, white space left out, up to the one that stopped the walk. -/
  backlog : List Token
  steps : List Step
  cursor : Cursor

namespace Walk

def prepend (t : Token) (steps : List Step) (w : Walk) : Walk :=
  { w with backlog := t :: w.backlog, steps := steps ++ w.steps }

def trailing (d : Draft) (s : State) (c : Cursor) : Walk :=
  let (t, after) := c.nextSolid
  match t.kind with
  | .endOfInput => ⟨d.statement, .ok .complete, [], [], after⟩
  | .error => ⟨d.statement, .error (.invalidToken t.text), [], [], after⟩
  | _ => ⟨d.statement, .ok (.rejected s t), [t], [], after⟩

def ofLexemes (s : State) (d : Draft) : Nat → List Lexeme → Walk
  | position, [] =>
    ⟨d.statement, .ok (if s.isAccepting then .complete else .incomplete s), [], [],
      ⟨position, []⟩⟩
  | _, l :: ls =>
    let t := l.token
    match t.kind with
    | .whitespace => ofLexemes s d l.stop ls
    | .error => ⟨d.statement, .error (.invalidToken t.text), [], [], ⟨l.stop, ls⟩⟩
    | _ =>
      let path := s.path t
      let steps := path.map fun p => ⟨p.1, t, p.2⟩
      let draft := d.applyPath t path
      match landing s path with
      | .moved next => (ofLexemes next draft l.stop ls).prepend t steps
      | .finished state => (trailing draft state ⟨l.stop, ls⟩).prepend t steps
      | .refused state =>
        ⟨draft.statement, .ok (.rejected state t), [t], steps, ⟨l.stop, ls⟩⟩

def ofCursor (c : Cursor) : Walk :=
  ofLexemes .into {} c.position c.rest

end Walk

structure Reading where
  statement : Statement
  outcome : Outcome
  backlog : List Token
  deriving DecidableEq, Repr

def Walk.reading (w : Walk) : Except SyntaxError Reading :=
  w.outcome.map fun outcome => ⟨w.statement, outcome, w.backlog⟩

namespace Reading

def isComplete (r : Reading) : Bool :=
  r.outcome == .complete

def complete (r : Reading) : Except SyntaxError Statement :=
  match r.outcome with
  | .complete => .ok r.statement
  | .incomplete state => .error (.incomplete state.expected)
  | .rejected state token => .error (.unexpected state.expected token.text)

end Reading

end CqlConsole.Insert
