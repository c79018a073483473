import CqlConsole.Proofs.Insert.TokenWalk

/-!
# How far a statement is built

A statement is built in stages, and the state of the walk tells the stage: which
parts are there, and which are not there yet. A name waits for its role only in
front of a dot or a bracket, and an option waits for its value only in front of
that value, so no change to the statement ever lacks what it needs.
-/

set_option autoImplicit false

namespace CqlConsole.Insert

inductive Stage where
  | start
  | named
  | columns
  | values
  | json
  | row
  deriving DecidableEq, Repr

def State.stage : State → Stage
  | into | tableName | maybeDot | table => .start
  | maybeJson | jsonKeyword | columnsOpen | firstColumn => .named
  | moreColumns | nextColumn | columnsClose | valuesKeyword | valuesOpen | firstValue => .columns
  | moreValues | nextValue | valuesClose => .values
  | jsonString => .json
  | clauses | ifKeyword | notKeyword | existsKeyword => .row
  | usingKeyword | usingOption | usingValue | moreUsing => .row

def isSetting (t : Token) : Bool :=
  t.kind == .integer || t.kind == .questionMark

namespace Statement

structure Listed (s : Statement) : Prop where
  columns : s.columns ≠ []
  values : s.values ≠ []
  terms : ∀ t ∈ s.values, isTerm t = true
  json : s.json = false
  payload : s.payload = none

structure Document (s : Statement) : Prop where
  columns : s.columns = []
  values : s.values = []
  json : s.json = true
  payload : s.payload.isSome = true

def body (s : Statement) : Statement :=
  { s with ifNotExists := false, ttl := none, timestamp := none }

def At (s : Statement) : Stage → Prop
  | .start => s = { keyspace := s.keyspace }
  | .named => s.table ≠ "" ∧ s = { keyspace := s.keyspace, table := s.table }
  | .columns =>
    s.table ≠ "" ∧ s.columns ≠ [] ∧
      s = { keyspace := s.keyspace, table := s.table, columns := s.columns }
  | .values => s.table ≠ "" ∧ s.Listed ∧ s = s.body
  | .json => s.table ≠ "" ∧ s = { keyspace := s.keyspace, table := s.table, json := true }
  | .row =>
    s.table ≠ "" ∧ (s.body.Listed ∨ s.body.Document) ∧
      (∀ t ∈ s.ttl, isSetting t = true) ∧ ∀ t ∈ s.timestamp, isSetting t = true

structure Sound (s : Statement) : Prop where
  json_of_payload : s.payload.isSome = true → s.json = true
  no_lists_of_json : s.json = true → s.columns = [] ∧ s.values = []
  columns_of_values : s.values ≠ [] → s.columns ≠ []
  terms : ∀ t ∈ s.values, t.kind.isConstant = true ∨ t.kind = .questionMark
  ttl : ∀ t ∈ s.ttl, t.kind = .integer ∨ t.kind = .questionMark
  timestamp : ∀ t ∈ s.timestamp, t.kind = .integer ∨ t.kind = .questionMark
  row_of_clause : s.ifNotExists = true ∨ s.ttl.isSome = true ∨ s.timestamp.isSome = true →
    s.values ≠ [] ∨ s.payload.isSome = true
  table_of_row : s.columns ≠ [] ∨ s.values ≠ [] ∨ s.json = true → s.table ≠ ""

end Statement

def Transition.move? : Transition → Option (State × Effect)
  | advance next effect | handOn next effect => some (next, effect)
  | finish | stuck => none

namespace Effect

def leads : Effect → Stage → Stage → Bool
  | none, g, g' => g == g' || g == .values && g' == .row
  | pending, g, g' | keyspaceFromPending, g, g' => g == .start && g' == .start
  | tableFromPending, g, g' | setTable, g, g' => g == .start && g' == .named
  | pushColumn, g, g' => (g == .named || g == .columns) && g' == .columns
  | pushValue, g, g' => (g == .columns || g == .values) && g' == .values
  | setJson, g, g' => g == .named && g' == .json
  | jsonPayload, g, g' => g == .json && g' == .row
  | ifNotExists, g, g' | usingOption, g, g' | usingValue, g, g' => g == .row && g' == .row

def Takes (t : Token) : Effect → Prop
  | pending | setTable | pushColumn => (t.kind == .identifier) = true
  | pushValue => isTerm t = true
  | usingValue => isSetting t = true
  | _ => True

end Effect

structure State.Moves (s next : State) (e : Effect) (t : Token) : Prop where
  stage : e.leads s.stage next.stage = true
  takes : e.Takes t
  from_maybeDot : s = .maybeDot ↔ e = .keyspaceFromPending ∨ e = .tableFromPending
  to_maybeDot : next = .maybeDot ↔ e = .pending
  from_usingValue : s = .usingValue ↔ e = .usingValue
  to_usingValue : next = .usingValue ↔ e = .usingOption

def State.passing : List State :=
  [.jsonKeyword, .columnsOpen, .columnsClose, .valuesClose, .ifKeyword]

section Steps

variable {s next : State} {e : Effect} {t : Token}

theorem moves_of_react (h : (s.react t).move? = some (next, e)) : s.Moves next e t := by
  cases s <;> simp only [State.react, State.takeIf, State.finishOn] at h
  all_goals
    repeat' split at h
    all_goals cases h <;> constructor <;> first | decide | assumption | trivial

/-- A token takes one transition, or it is handed on and takes one more. -/
theorem path_cases (s : State) (t : Token) :
    s.path t = [(s, s.react t)] ∧ (∀ next e, s.react t ≠ .handOn next e) ∨
      ∃ next e, s.react t = .handOn next e ∧
        s.path t = [(s, .handOn next e), (next, next.react t)] ∧
        ∀ next' e', next.react t ≠ .handOn next' e' := by
  cases hr : s.react t with
  | handOn next e =>
    exact .inr ⟨next, e, rfl, by simp [State.path, hr],
      State.react_receiver (State.mem_receivers hr) t⟩
  | _ => exact .inl ⟨by simp [State.path, hr], by simp⟩

theorem not_passing_of_advance (h : s.react t = .advance next e) : next ∉ State.passing := by
  cases s <;> simp only [State.react, State.takeIf, State.finishOn] at h <;> grind [State.passing]

theorem advance_of_landing {k : State} (hlast : ∀ next e, s.react t ≠ .handOn next e)
    (h : landing k [(s, s.react t)] = .moved next) : ∃ e, s.react t = .advance next e := by
  cases hr : s.react t with
  | advance next' e =>
    rw [hr] at h
    cases h
    exact ⟨e, rfl⟩
  | handOn next' e => exact absurd hr (hlast next' e)
  | finish | stuck =>
    rw [hr] at h
    cases h

theorem not_passing_of_moved (h : landing s (s.path t) = .moved next) : next ∉ State.passing := by
  rcases path_cases s t with ⟨hp, hlast⟩ | ⟨k, e, -, hp, hlast⟩
  · rw [hp] at h
    obtain ⟨e, hr⟩ := advance_of_landing hlast h
    exact not_passing_of_advance hr
  · rw [hp, landing] at h
    obtain ⟨e, hr⟩ := advance_of_landing hlast h
    exact not_passing_of_advance hr

end Steps

namespace Statement.At

variable {s : Statement} {t : Token}

theorem setKeyspace (h : s.At .start) (k : Option String) : { s with keyspace := k }.At .start := by
  have hs : s = { keyspace := s.keyspace } := h
  exact congrArg (fun s : Statement => { s with keyspace := k }) hs

theorem setTable (h : s.At .start) {n : String} (hn : n ≠ "") : { s with table := n }.At .named :=
  ⟨hn, congrArg (fun s : Statement => { s with table := n }) h⟩

theorem firstColumn (h : s.At .named) (c : String) :
    { s with columns := s.columns ++ [c] }.At .columns := by
  obtain ⟨htable, hs⟩ := h
  refine ⟨htable, by simp, ?_⟩
  rw [hs]

theorem nextColumn (h : s.At .columns) (c : String) :
    { s with columns := s.columns ++ [c] }.At .columns := by
  obtain ⟨htable, -, hs⟩ := h
  refine ⟨htable, by simp, ?_⟩
  rw [hs]

theorem firstValue (h : s.At .columns) (ht : isTerm t = true) :
    { s with values := s.values ++ [t] }.At .values := by
  obtain ⟨htable, hcolumns, hs⟩ := h
  have hvalues : s.values = [] := congrArg Statement.values hs
  refine ⟨htable, ⟨hcolumns, by simp, by simp [hvalues, ht], ?_, ?_⟩, ?_⟩
  · exact congrArg Statement.json hs
  · exact congrArg Statement.payload hs
  · rw [hs]
    rfl

theorem nextValue (h : s.At .values) (ht : isTerm t = true) :
    { s with values := s.values ++ [t] }.At .values := by
  obtain ⟨htable, ⟨hcolumns, -, hterms, hjson, hpayload⟩, hs⟩ := h
  refine ⟨htable, ⟨hcolumns, by simp, ?_, hjson, hpayload⟩, ?_⟩
  · intro u hu
    rcases List.mem_append.1 hu with hu | hu
    · exact hterms u hu
    · rwa [List.mem_singleton.1 hu]
  · exact congrArg (fun s : Statement => { s with values := s.values ++ [t] }) hs

theorem row (h : s.At .values) : s.At .row := by
  obtain ⟨htable, hlisted, hs⟩ := h
  have httl : s.ttl = none := congrArg Statement.ttl hs
  have htimestamp : s.timestamp = none := congrArg Statement.timestamp hs
  rw [hs] at hlisted
  exact ⟨htable, .inl hlisted, by simp [httl], by simp [htimestamp]⟩

theorem setJson (h : s.At .named) : { s with json := true }.At .json :=
  ⟨h.1, congrArg (fun s : Statement => { s with json := true }) h.2⟩

theorem setPayload (h : s.At .json) (p : String) : { s with payload := some p }.At .row := by
  obtain ⟨htable, hs⟩ := h
  have httl : s.ttl = none := congrArg Statement.ttl hs
  have htimestamp : s.timestamp = none := congrArg Statement.timestamp hs
  refine ⟨htable, .inr ⟨?_, ?_, ?_, rfl⟩, by simp [httl], by simp [htimestamp]⟩
  · exact congrArg Statement.columns hs
  · exact congrArg Statement.values hs
  · exact congrArg Statement.json hs

theorem setTtl (h : s.At .row) (ht : isSetting t = true) : { s with ttl := some t }.At .row :=
  ⟨h.1, h.2.1, by simp [ht], h.2.2.2⟩

theorem setTimestamp (h : s.At .row) (ht : isSetting t = true) :
    { s with timestamp := some t }.At .row :=
  ⟨h.1, h.2.1, h.2.2.1, by simp [ht]⟩

/-- A change leads from one stage to the next, if it has what it needs. -/
theorem apply {d : Draft} {e : Effect} {g g' : Stage} (h : d.statement.At g)
    (hleads : e.leads g g' = true) (htakes : e.Takes t) (htext : t.kind = .identifier → t.text ≠ "")
    (hpending : e = .tableFromPending → d.pending.getD "" ≠ "") :
    (d.apply e t).statement.At g' := by
  cases e <;> simp only [Effect.leads, Bool.and_eq_true, Bool.or_eq_true, beq_iff_eq] at hleads
  case none =>
    rcases hleads with rfl | ⟨rfl, rfl⟩
    · exact h
    · exact h.row
  case pushColumn =>
    obtain ⟨rfl | rfl, rfl⟩ := hleads
    · exact h.firstColumn t.text
    · exact h.nextColumn t.text
  case pushValue =>
    obtain ⟨rfl | rfl, rfl⟩ := hleads
    · exact h.firstValue htakes
    · exact h.nextValue htakes
  all_goals obtain ⟨rfl, rfl⟩ := hleads
  case pending => exact h
  case keyspaceFromPending => exact h.setKeyspace d.pending
  case tableFromPending => exact h.setTable (hpending rfl)
  case setTable => exact h.setTable (htext (beq_iff_eq.1 htakes))
  case setJson => exact h.setJson
  case jsonPayload => exact h.setPayload t.text
  case ifNotExists => exact h
  case usingOption => exact h
  case usingValue =>
    obtain ⟨s, pending, option⟩ := d
    rcases option with _ | _ | _
    · exact h
    · exact h.setTtl htakes
    · exact h.setTimestamp htakes

theorem sound_row (h : s.At .row) : s.Sound := by
  obtain ⟨htable, hrow, httl, htimestamp⟩ := h
  have hsetting : ∀ t : Token, isSetting t = true → t.kind = .integer ∨ t.kind = .questionMark := by
    simp [isSetting]
  rcases hrow with ⟨hcolumns, hvalues, hterms, hjson, hpayload⟩ |
    ⟨hcolumns, hvalues, hjson, hpayload⟩
  · exact {
      json_of_payload := fun hp => absurd hpayload (Option.isSome_iff_ne_none.1 hp)
      no_lists_of_json := fun hj => absurd (hj.symm.trans hjson) (by decide)
      columns_of_values := fun _ => hcolumns
      terms := fun t ht => by simpa [isTerm] using hterms t ht
      ttl := fun t ht => hsetting t (httl t ht)
      timestamp := fun t ht => hsetting t (htimestamp t ht)
      row_of_clause := fun _ => .inl hvalues
      table_of_row := fun _ => htable }
  · exact {
      json_of_payload := fun _ => hjson
      no_lists_of_json := fun _ => ⟨hcolumns, hvalues⟩
      columns_of_values := fun hv => absurd hvalues hv
      terms := fun t ht => absurd ht (hvalues ▸ List.not_mem_nil)
      ttl := fun t ht => hsetting t (httl t ht)
      timestamp := fun t ht => hsetting t (htimestamp t ht)
      row_of_clause := fun _ => .inr hpayload
      table_of_row := fun _ => htable }

theorem sound {g : Stage} (h : s.At g) : s.Sound := by
  cases g with
  | start =>
    have hs : s = { keyspace := s.keyspace } := h
    rw [hs]
    constructor <;> simp
  | named =>
    rw [h.2]
    constructor <;> simp
  | columns =>
    obtain ⟨htable, -, hs⟩ := h
    rw [hs]
    constructor <;> simp [htable]
  | values => exact h.row.sound_row
  | json =>
    obtain ⟨htable, hs⟩ := h
    rw [hs]
    constructor <;> simp [htable]
  | row => exact h.sound_row

end Statement.At

theorem pending_apply (d : Draft) (e : Effect) (t : Token) :
    (d.apply e t).pending =
      match e with
      | .pending => some t.text
      | .keyspaceFromPending | .tableFromPending => none
      | _ => d.pending := by
  obtain ⟨s, pending, option⟩ := d
  cases e with
  | usingValue => rcases option with _ | _ | _ <;> rfl
  | _ => rfl

theorem option_apply (d : Draft) (e : Effect) (t : Token) :
    (d.apply e t).option =
      match e with
      | .usingOption => some (if t.isKeyword "ttl" then .ttl else .timestamp)
      | .usingValue => none
      | _ => d.option := by
  obtain ⟨s, pending, option⟩ := d
  cases e with
  | usingValue => rcases option with _ | _ | _ <;> rfl
  | _ => rfl

structure Draft.Fits (s : State) (d : Draft) : Prop where
  statement : d.statement.At s.stage
  pending : d.pending.isSome = true ↔ s = .maybeDot
  named : ∀ n ∈ d.pending, n ≠ ""
  option : d.option.isSome = true ↔ s = .usingValue

def Landing.state : Landing → State
  | moved s | finished s | refused s => s

namespace Draft.Fits

variable {s next : State} {d : Draft} {e : Effect} {t : Token}

theorem start : Draft.Fits .into {} :=
  ⟨rfl, by simp, by simp, by simp⟩

theorem pending_of_move (h : d.Fits s) (hm : s.Moves next e t)
    (he : e = .keyspaceFromPending ∨ e = .tableFromPending) : d.pending.isSome = true :=
  h.pending.2 (hm.from_maybeDot.2 he)

theorem option_of_move (h : d.Fits s) (hm : s.Moves next e t) (he : e = .usingValue) :
    d.option.isSome = true :=
  h.option.2 (hm.from_usingValue.2 he)

/-- A move of the state and its change to the draft keep them fitting each other. -/
theorem apply (h : d.Fits s) (hm : s.Moves next e t) (ht : t.kind = .identifier → t.text ≠ "") :
    (d.apply e t).Fits next := by
  have hpending := h.pending.trans hm.from_maybeDot
  have hoption := h.option.trans hm.from_usingValue
  refine ⟨?_, ?_, ?_, ?_⟩
  · refine h.statement.apply hm.stage hm.takes ht fun he => ?_
    obtain ⟨n, hn⟩ := Option.isSome_iff_exists.1 (hpending.2 (.inr he))
    rw [hn]
    exact h.named n hn
  · rw [hm.to_maybeDot, pending_apply]
    cases e <;> simp [hpending]
  · have htakes := hm.takes
    rw [pending_apply]
    cases e with
    | pending => simpa using ht (beq_iff_eq.1 htakes)
    | keyspaceFromPending | tableFromPending => simp
    | _ => exact h.named
  · rw [hm.to_usingValue, option_apply]
    cases e <;> simp [hoption]

/-- Wherever a token is on its path, the draft fits the state that it has come to. -/
theorem along (h : d.Fits s) (ht : t.kind = .identifier → t.text ≠ "")
    {before after : List (State × Transition)} {k : State} {r : Transition}
    (hpath : s.path t = before ++ (k, r) :: after) :
    k.react t = r ∧ (d.applyPath t before).Fits k := by
  rcases path_cases s t with ⟨hp, -⟩ | ⟨next, e, hr, hp, -⟩
  · rw [hp, List.singleton_eq_append_iff] at hpath
    obtain ⟨rfl, hpath⟩ | ⟨-, hpath⟩ := hpath
    · cases hpath
      exact ⟨rfl, h⟩
    · cases hpath
  · rw [hp] at hpath
    cases before with
    | nil =>
      cases hpath
      exact ⟨hr, h⟩
    | cons p before =>
      obtain ⟨rfl, hrest⟩ := List.cons.inj hpath
      obtain ⟨rfl, hrest⟩ | ⟨-, hrest⟩ := List.singleton_eq_append_iff.1 hrest
      · cases hrest
        exact ⟨rfl, h.apply (moves_of_react (by rw [hr]; rfl)) ht⟩
      · cases hrest

theorem applyStep (h : d.Fits s) (ht : t.kind = .identifier → t.text ≠ "")
    (hr : ∀ next e, s.react t ≠ .handOn next e) :
    (d.applyPath t [(s, s.react t)]).Fits (landing s [(s, s.react t)]).state := by
  cases hreact : s.react t with
  | advance next e => exact h.apply (moves_of_react (by rw [hreact]; rfl)) ht
  | handOn next e => exact absurd hreact (hr next e)
  | finish => exact h
  | stuck => exact h

/-- The draft behind the path of a token fits the state in which the path ends. -/
theorem applyPath (h : d.Fits s) (ht : t.kind = .identifier → t.text ≠ "") :
    (d.applyPath t (s.path t)).Fits (landing s (s.path t)).state := by
  rcases path_cases s t with ⟨hp, hlast⟩ | ⟨next, e, hr, hp, hlast⟩
  · rw [hp]
    exact h.applyStep ht hlast
  · rw [hp]
    exact (h.apply (moves_of_react (by rw [hr]; rfl)) ht).applyStep ht hlast

end Draft.Fits

theorem text_ne_empty {l : Lexeme} (h : l.token.kind = .identifier) : l.token.text ≠ "" := by
  have hkind : l.kind = .identifier := h
  intro htext
  have hsource : l.source = [] := by
    simpa [Lexeme.token, Lexeme.text, hkind] using htext
  rw [Lexeme.kind, hsource] at hkind
  cases hkind

namespace Walk

/-- From the cursor on, the walk comes to ask for a token in a state, with a draft, in front of
some lexemes. -/
inductive Asks (c : Cursor) : State → Draft → Nat → List Lexeme → Prop where
  | start : Asks c .into {} c.position c.rest
  | blank {s d p l ls} (before : Asks c s d p (l :: ls)) (kind : l.token.kind = .whitespace) :
      Asks c s d l.stop ls
  | moved {s d p l ls next} (before : Asks c s d p (l :: ls)) (solid : l.token.kind ≠ .whitespace)
      (proper : l.token.kind ≠ .error) (landed : landing s (s.path l.token) = .moved next) :
      Asks c next (d.applyPath l.token (s.path l.token)) l.stop ls

structure Resumes (w later : Walk) : Prop where
  statement : w.statement = later.statement
  outcome : w.outcome = later.outcome
  cursor : w.cursor = later.cursor
  backlog : later.backlog <:+ w.backlog
  steps : later.steps <:+ w.steps

section Asks

variable {c : Cursor} {s : State} {d : Draft} {p : Nat} {ls : List Lexeme}

theorem Asks.resumes (h : Asks c s d p ls) : (ofCursor c).Resumes (ofLexemes s d p ls) := by
  induction h with
  | start => exact ⟨rfl, rfl, rfl, List.suffix_rfl, List.suffix_rfl⟩
  | blank before kind ih => rwa [ofLexemes, kind] at ih
  | @moved s d p l ls next before solid proper landed ih =>
    rw [ofLexemes] at ih
    split at ih
    · contradiction
    · contradiction
    · simp only [landed] at ih
      obtain ⟨hstatement, houtcome, hcursor, hbacklog, hsteps⟩ := ih
      refine ⟨hstatement, houtcome, hcursor, ?_, ?_⟩
      · exact (List.suffix_cons _ _).trans hbacklog
      · exact (List.suffix_append _ _).trans hsteps

theorem Asks.fits (h : Asks c s d p ls) : d.Fits s ∧ s ∉ State.passing := by
  induction h with
  | start => exact ⟨.start, by decide⟩
  | blank before kind ih => exact ih
  | @moved s d p l ls next before solid proper landed ih =>
    have happly := ih.1.applyPath (t := l.token) text_ne_empty
    rw [landed] at happly
    exact ⟨happly, not_passing_of_moved landed⟩

theorem trailing_statement (d : Draft) (s : State) (c : Cursor) :
    (trailing d s c).statement = d.statement := by
  rw [trailing]
  split
  split <;> rfl

theorem sound_ofLexemes (h : d.Fits s) (p : Nat) (ls : List Lexeme) :
    (ofLexemes s d p ls).statement.Sound := by
  induction ls generalizing s d p with
  | nil => exact h.statement.sound
  | cons l ls ih =>
    have happly := h.applyPath (t := l.token) text_ne_empty
    rw [ofLexemes]
    split
    · exact ih h l.stop
    · exact h.statement.sound
    · cases hl : landing s (s.path l.token) with
      | moved next =>
        rw [hl] at happly
        simp only [hl]
        exact ih happly l.stop
      | finished state =>
        simp only [hl]
        show (trailing _ _ _).statement.Sound
        rw [trailing_statement]
        exact happly.statement.sound
      | refused state =>
        simp only [hl]
        exact happly.statement.sound

end Asks

theorem statement_of_reading {w : Walk} {r : Reading} (h : w.reading = .ok r) :
    r.statement = w.statement := by
  rw [Walk.reading] at h
  cases houtcome : w.outcome with
  | error e => simp [houtcome, Except.map] at h
  | ok o =>
    simp only [houtcome, Except.map, Except.ok.injEq] at h
    rw [← h]

end Walk

end CqlConsole.Insert

namespace CqlConsole

open CqlConsole.Insert

/-- The statement that is read is the one that the walk behind the first word leaves. -/
theorem sound_of_inspect {input : String} {r : Reading} (h : inspect input = .ok r) :
    r.statement.Sound := by
  simp only [inspect, inspectSteps] at h
  split at h
  · cases h
  · cases h
  · split_ifs at h
    rw [Walk.statement_of_reading h]
    exact Walk.sound_ofLexemes .start _ _
  · cases h

/-- Wherever the walk asks for a token, a name waits for its role exactly in front of a dot or a
bracket, an option waits for its value exactly in front of it, and the state is none of those that
tokens are only handed on to. What resumes there ends as the whole walk does. On the path of a
token, no change finds the name or the option missing that it needs. Whether a statement is
complete or not, its parts fit together. -/
theorem walk_keeps_stages :
    (∀ c s d p ls, Walk.Asks c s d p ls →
      (Walk.ofCursor c).Resumes (Walk.ofLexemes s d p ls) ∧
      (d.pending.isSome = true ↔ s = .maybeDot) ∧
      (d.option.isSome = true ↔ s = .usingValue) ∧
      s ∉ State.passing ∧
      ∀ (l : Lexeme) before k r after, s.path l.token = before ++ (k, r) :: after →
        ∀ next e, r.move? = some (next, e) →
          (e = .keyspaceFromPending ∨ e = .tableFromPending →
            (d.applyPath l.token before).pending.isSome = true) ∧
          (e = .usingValue → (d.applyPath l.token before).option.isSome = true)) ∧
    (∀ c r, (Walk.ofCursor c).reading = .ok r → r.statement.Sound) ∧
    ∀ input r, inspect input = .ok r → r.statement.Sound := by
  have hreading : ∀ c r, (Walk.ofCursor c).reading = .ok r → r.statement.Sound := by
    intro c r h
    have hsound := Walk.sound_ofLexemes .start c.position c.rest
    rw [Walk.reading] at h
    cases houtcome : (Walk.ofCursor c).outcome with
    | error e =>
      rw [houtcome] at h
      cases h
    | ok o =>
      rw [houtcome] at h
      cases h
      exact hsound
  refine ⟨fun c s d p ls h => ?_, hreading, ?_⟩
  · obtain ⟨hfits, hpassing⟩ := h.fits
    refine ⟨h.resumes, hfits.pending, hfits.option, hpassing, ?_⟩
    intro l before k r after hpath next e hmove
    obtain ⟨hreact, hdraft⟩ := hfits.along text_ne_empty hpath
    rw [← hreact] at hmove
    have hmoves := moves_of_react hmove
    exact ⟨hdraft.pending_of_move hmoves, hdraft.option_of_move hmoves⟩
  · intro input r h
    obtain ⟨first, ts, hsolid, hinsert⟩ := insert_of_inspect h
    rw [← Cursor.solid_ofInput] at hsolid
    refine hreading (Cursor.ofInput input).nextSolid.2 r ?_
    rw [← h, inspect_of_insert (by rw [← Cursor.solid_ofInput, hsolid]) hinsert, Walk.ofCursor,
      walk_reading, ← (Cursor.nextSolid_of_cons hsolid).2]

/-- A name that waits for its role, and a statement whose second option is refused. -/
theorem walk_keeps_stages_name :
    (Walk.Asks (.ofInput "into t") .maybeDot { pending := some "t" } 6 [] ∧
      ({ pending := some "t" } : Draft).pending.isSome = true) ∧
    ∃ r, inspect "insert into t json '1' using ttl 5 and 6" = .ok r ∧ r.statement.Sound ∧
      r.statement.ttl.isSome = true := by
  have hstart : Walk.Asks (.ofInput "into t") .into {} 0
      [⟨0, "into".toList⟩, ⟨4, [' ']⟩, ⟨5, ['t']⟩] := .start
  have hinto : Walk.Asks (.ofInput "into t") .tableName {} 4 [⟨4, [' ']⟩, ⟨5, ['t']⟩] :=
    .moved hstart (by decide) (by decide) rfl
  have hname : Walk.Asks (.ofInput "into t") .maybeDot { pending := some "t" } 6 [] :=
    .moved (.blank hinto rfl) (by decide) (by decide) rfl
  refine ⟨⟨hname, (walk_keeps_stages.1 _ _ _ _ _ hname).2.1.2 rfl⟩, ?_⟩
  have hinspect : ∃ r, inspect "insert into t json '1' using ttl 5 and 6" = .ok r ∧
      r.statement.ttl.isSome = true := ⟨_, rfl, rfl⟩
  obtain ⟨r, hr, httl⟩ := hinspect
  exact ⟨r, hr, walk_keeps_stages.2.2 _ r hr, httl⟩

end CqlConsole
