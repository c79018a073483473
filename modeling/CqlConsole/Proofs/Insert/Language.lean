import CqlConsole.Proofs.Insert.Acceptance

/-!
# The walk accepts the grammar

One lemma for each part of the grammar says what the state in front of it
accepts: the part, and then what the state behind it accepts. Put together they
say that the walk completes exactly the sentences, with the statement that the
tree spells.
-/

set_option autoImplicit false

namespace CqlConsole.Insert

section Steps

variable {s next : State} {e : Effect} {d : Draft} {ts : List Token} {st : Statement}

theorem accepts_mark {test : Token → Bool} {x : Symbol} {d' : Draft}
    (h : ∀ t, s.react t = State.takeIf (test t) next e) (hs : s.isAccepting = false)
    (hx : ∀ {t}, symbol t = x ↔ test t = true) (hd : ∀ t, d.apply e t = d') :
    Accepts st s d ts ↔ Spells [x] (Accepts st next d') ts := by
  simp only [accepts_takeIf h hs, spells_cons, spells_nil, hx, hd]

theorem accepts_kept {p : Token → Prop} {test : Token → Bool}
    (h : ∀ t, s.react t = State.takeIf (test t) next e) (hs : s.isAccepting = false)
    (hp : ∀ t, test t = true ↔ p t) (hk : ∀ t : { t // p t }, symbol t.val = .kept t.val) :
    Accepts st s d ts ↔ ∃ t : { t // p t },
      Spells [.kept t.val] (Accepts st next (d.apply e t.val)) ts := by
  simp only [accepts_takeIf h hs, spells_cons, spells_nil]
  constructor
  · rintro ⟨t, us, rfl, ht, hu⟩
    exact ⟨⟨t, (hp t).1 ht⟩, t, us, rfl, hk ⟨t, (hp t).1 ht⟩, hu⟩
  · rintro ⟨n, t, us, rfl, ht, hu⟩
    obtain rfl := eq_of_symbol_kept ht
    exact ⟨n.val, us, rfl, (hp n.val).2 n.property, hu⟩

theorem accepts_name (h : ∀ t, s.react t = State.takeIf (t.kind == .identifier) next e)
    (hs : s.isAccepting = false) :
    Accepts st s d ts ↔ ∃ t : Name,
      Spells [.kept t.val] (Accepts st next (d.apply e t.val)) ts :=
  accepts_kept h hs (fun t => by simp) symbol_name

theorem accepts_term (h : ∀ t, s.react t = State.takeIf (isTerm t) next e)
    (hs : s.isAccepting = false) :
    Accepts st s d ts ↔ ∃ t : Term,
      Spells [.kept t.val] (Accepts st next (d.apply e t.val)) ts := by
  refine accepts_kept h hs (fun t => ?_) symbol_term
  obtain ⟨k, text, i, j⟩ := t
  cases k <;> simp [isTerm, termKinds, TokenKind.isConstant]

/-- The states of a list: `s` behind a member goes on to `next` at a comma and hands a bracket on to
`close`, which takes the one that ends the list. -/
structure InList (s next close after : State) : Prop where
  react_eq (t : Token) : s.react t = match t.kind with
    | .comma => .advance next .none
    | .bracket => .handOn close .none
    | _ => .stuck
  isAccepting_eq : s.isAccepting = false
  close_react_eq (t : Token) : close.react t = State.takeIf t.isCloseBracket after .none
  close_isAccepting_eq : close.isAccepting = false

theorem accepts_more {close after : State} (h : InList s next close after) :
    Accepts st s d ts ↔ Spells [.comma] (Accepts st next d) ts ∨ Accepts st close d ts := by
  obtain ⟨h, hs, hc, hcs⟩ := h
  rw [accepts_takeIf hc hcs]
  simp only [spells_cons, spells_nil, symbol_comma]
  cases ts with
  | nil => simp [accepts_nil, hs]
  | cons t us =>
    by_cases hcomma : t.kind = .comma
    · have hr : s.react t = .advance next .none := by rw [h, hcomma]
      rw [accepts_advance d us hr]
      simp [hcomma, Token.isCloseBracket, Token.is, Draft.apply]
    by_cases hbracket : t.kind = .bracket
    · have hr : s.react t = .handOn close .none := by rw [h, hbracket]
      rw [accepts_handOn d us hr, accepts_takeIf hc hcs]
      simp [hbracket, Draft.apply]
    · have hr : s.react t = .stuck := by
        rw [h]
        split <;> trivial
      have hn : ¬ Accepts st s d (t :: us) := not_accepts_stuck d us hr
      simp [hn, hcomma, hbracket, Token.isCloseBracket, Token.is]

/-- What follows the first member of a list, up to the bracket that closes it. -/
theorem accepts_further {p : Token → Prop} {close after : State} (h : InList s next close after)
    (hn : ∀ d ts, Accepts st next d ts ↔ ∃ t : { t // p t },
      Spells [.kept t.val] (Accepts st s (d.apply e t.val)) ts) :
    Accepts st s d ts ↔ ∃ as : List { t // p t },
      Spells (furtherSymbols (as.map Subtype.val))
        (Accepts st close (as.foldl (fun d t => d.apply e t.val) d)) ts := by
  have hstep : ∀ d ts, Accepts st s d ts ↔
      (∃ t : { t // p t }, Spells [.comma, .kept t.val] (Accepts st s (d.apply e t.val)) ts) ∨
        Accepts st close d ts := by
    intro d ts
    rw [accepts_more h, spells_congr (hn d), spells_exists]
    simp only [← spells_append, List.singleton_append]
  have hloop := spells_loop (fun t : { t // p t } => [.comma, .kept t.val])
    (fun d t => d.apply e t.val) (Accepts st s) (Accepts st close) (by simp) hstep d ts
  simpa only [furtherSymbols, List.flatMap_map] using hloop

/-- The keyword and the bracket in front of a row go to different states. -/
theorem accepts_branch {d' : Draft} {t : Token} (us : List Token)
    (h : s.react t = match t.kind with
      | .keyword => .handOn .jsonKeyword e
      | .bracket => .handOn .columnsOpen e
      | _ => .stuck)
    (hd : d.apply e t = d') :
    Accepts st s d (t :: us) ↔
      Accepts st .jsonKeyword d' (t :: us) ∨ Accepts st .columnsOpen d' (t :: us) := by
  have hj : Accepts st .jsonKeyword d' (t :: us) ↔ _ := accepts_takeIf (fun _ => rfl) rfl
  have hc : Accepts st .columnsOpen d' (t :: us) ↔ _ := accepts_takeIf (fun _ => rfl) rfl
  by_cases hkeyword : t.kind = .keyword
  · rw [hkeyword] at h
    rw [accepts_handOn d us h, hd, hc]
    simp [hkeyword, Token.isOpenBracket, Token.is]
  by_cases hbracket : t.kind = .bracket
  · rw [hbracket] at h
    rw [accepts_handOn d us h, hd, hj]
    simp [hbracket, Token.isKeyword, Token.is]
  · have hr : s.react t = .stuck := by
      rw [h]
      split <;> trivial
    have hn : ¬ Accepts st s d (t :: us) := not_accepts_stuck d us hr
    rw [hj, hc]
    simp [hn, hkeyword, hbracket, Token.isKeyword, Token.isOpenBracket, Token.is]

/-- Where the statement may end, a keyword goes on with the options. -/
theorem accepts_closing {word : String}
    (h : ∀ t, s.react t = if t.isKeyword word then .advance next .none else s.finishOn t)
    (hs : s.isAccepting = true) :
    Accepts st s d ts ↔ Spells [.keyword word] (Accepts st next d) ts ∨
      ∃ terminated, ts.map symbol = Clauses.endSymbols terminated ∧ st = d.statement := by
  simp only [spells_cons, spells_nil, symbol_keyword]
  cases ts with
  | nil => simp [accepts_nil, hs, Clauses.endSymbols]
  | cons t us =>
    have hend : (∃ terminated, (t :: us).map symbol = Clauses.endSymbols terminated ∧
        st = d.statement) ↔ t.kind = .semicolon ∧ us = [] ∧ st = d.statement := by
      simp [Clauses.endSymbols, symbol_semicolon, and_assoc]
    rw [hend]
    by_cases hword : t.isKeyword word = true
    · have hr : s.react t = .advance next .none := by rw [h, if_pos hword]
      have hk : t.kind = .keyword := by
        simp only [Token.isKeyword, Token.is, Bool.and_eq_true, beq_iff_eq] at hword
        exact hword.1
      rw [accepts_advance d us hr]
      simp [hword, hk, Draft.apply]
    by_cases hsemicolon : t.kind = .semicolon
    · have hr : s.react t = .finish := by
        rw [h, if_neg hword, State.finishOn, if_pos ⟨hsemicolon, hs⟩]
      rw [accepts_finish d us hr]
      simp [hword, hsemicolon]
    · have hr : s.react t = .stuck := by
        rw [h, if_neg hword, State.finishOn, if_neg fun hf => hsemicolon hf.1]
      have hn : ¬ Accepts st s d (t :: us) := not_accepts_stuck d us hr
      simp [hn, hword, hsemicolon]

end Steps

namespace Draft

def addColumns (d : Draft) (cs : List Name) : Draft :=
  cs.foldl (fun d c => d.apply .pushColumn c.val) d

def addValues (d : Draft) (vs : List Term) : Draft :=
  vs.foldl (fun d v => d.apply .pushValue v.val) d

def setJson (d : Draft) : Draft :=
  { d with statement := { d.statement with json := true } }

def fill (d : Draft) : Row → Draft
  | .listed c cs v vs => (d.addColumns (c :: cs)).addValues (v :: vs)
  | .json p => d.setJson.apply .jsonPayload p.val

def target (d : Draft) : Option Name → Name → Draft
  | none, t => { d with pending := none, statement := { d.statement with table := t.val.text } }
  | some k, t =>
    { d with
      pending := none
      statement := { d.statement with keyspace := some k.val.text, table := t.val.text } }

def put (d : Draft) (x : Setting) : Draft :=
  match x.name with
  | .ttl => { d with statement := { d.statement with ttl := some x.value }, option := none }
  | .timestamp =>
    { d with statement := { d.statement with timestamp := some x.value }, option := none }

def putAll (d : Draft) (xs : List Setting) : Draft :=
  xs.foldl put d

def condition (d : Draft) (ifNotExists : Bool) : Draft :=
  if ifNotExists then { d with statement := { d.statement with ifNotExists := true } } else d

end Draft

section Rows

variable {d : Draft} {ts : List Token} {st : Statement}

theorem accepts_columnsOpen :
    Accepts st .columnsOpen d ts ↔ ∃ (c : Name) (cs : List Name),
      Spells ([.openBracket, .kept c.val] ++ furtherSymbols (cs.map Subtype.val))
        (Accepts st .columnsClose (d.addColumns (c :: cs))) ts := by
  have hfirst : ∀ us, Accepts st .firstColumn d us ↔ ∃ c : Name,
      Spells [.kept c.val] (Accepts st .moreColumns (d.apply .pushColumn c.val)) us :=
    fun us => accepts_name (fun _ => rfl) rfl
  have hmore : ∀ (c : Name) us, Accepts st .moreColumns (d.apply .pushColumn c.val) us ↔
      ∃ cs : List Name, Spells (furtherSymbols (cs.map Subtype.val))
        (Accepts st .columnsClose (d.addColumns (c :: cs))) us :=
    fun c us => accepts_further ⟨fun _ => rfl, rfl, fun _ => rfl, rfl⟩
      fun _ _ => accepts_name (fun _ => rfl) rfl
  rw [accepts_mark (fun _ => rfl) rfl symbol_openBracket (fun _ => rfl), spells_congr hfirst]
  simp only [spells_congr (hmore _), spells_exists, ← spells_append, List.cons_append,
    List.nil_append]

theorem accepts_columnsClose :
    Accepts st .columnsClose d ts ↔ ∃ (v : Term) (vs : List Term),
      Spells ([.closeBracket, .keyword "values", .openBracket, .kept v.val] ++
          furtherSymbols (vs.map Subtype.val) ++ [.closeBracket])
        (Accepts st .clauses (d.addValues (v :: vs))) ts := by
  have hkeyword : ∀ us, Accepts st .valuesKeyword d us ↔
      Spells [.keyword "values"] (Accepts st .valuesOpen d) us :=
    fun us => accepts_mark (fun _ => rfl) rfl symbol_keyword (fun _ => rfl)
  have hopen : ∀ us, Accepts st .valuesOpen d us ↔
      Spells [.openBracket] (Accepts st .firstValue d) us :=
    fun us => accepts_mark (fun _ => rfl) rfl symbol_openBracket (fun _ => rfl)
  have hfirst : ∀ us, Accepts st .firstValue d us ↔ ∃ v : Term,
      Spells [.kept v.val] (Accepts st .moreValues (d.apply .pushValue v.val)) us :=
    fun us => accepts_term (fun _ => rfl) rfl
  have hmore : ∀ (v : Term) us, Accepts st .moreValues (d.apply .pushValue v.val) us ↔
      ∃ vs : List Term, Spells (furtherSymbols (vs.map Subtype.val))
        (Accepts st .valuesClose (d.addValues (v :: vs))) us :=
    fun v us => accepts_further ⟨fun _ => rfl, rfl, fun _ => rfl, rfl⟩
      fun _ _ => accepts_term (fun _ => rfl) rfl
  have hclose : ∀ (d : Draft) us, Accepts st .valuesClose d us ↔
      Spells [.closeBracket] (Accepts st .clauses d) us :=
    fun d us => accepts_mark (fun _ => rfl) rfl symbol_closeBracket (fun _ => rfl)
  rw [accepts_mark (fun _ => rfl) rfl symbol_closeBracket (fun _ => rfl), spells_congr hkeyword]
  simp only [spells_congr hopen, spells_congr hfirst, spells_congr (hmore _),
    spells_congr (hclose _), spells_exists, ← spells_append, List.cons_append, List.nil_append]

theorem accepts_jsonKeyword :
    Accepts st .jsonKeyword d ts ↔ ∃ p : JsonText, Spells [.keyword "json", .kept p.val]
      (Accepts st .clauses (d.fill (.json p))) ts := by
  have hmark : Accepts st .jsonKeyword d ts ↔
      Spells [.keyword "json"] (Accepts st .jsonString d.setJson) ts :=
    accepts_mark (fun _ => rfl) rfl symbol_keyword (fun _ => rfl)
  have hstring : ∀ us, Accepts st .jsonString d.setJson us ↔ ∃ p : JsonText,
      Spells [.kept p.val] (Accepts st .clauses (d.fill (.json p))) us :=
    fun us => accepts_kept (e := .jsonPayload) (fun _ => rfl) rfl (fun t => beq_iff_eq)
      symbol_jsonText
  rw [hmark, spells_congr hstring, spells_exists]
  simp only [← spells_append, List.singleton_append]

theorem accepts_row :
    Accepts st .maybeJson d ts ↔
      ∃ row : Row, Spells row.symbols (Accepts st .clauses (d.fill row)) ts := by
  -- The two kinds of row start with different tokens, so no look ahead is needed.
  have hbranch : Accepts st .maybeJson d ts ↔
      Accepts st .jsonKeyword d ts ∨ Accepts st .columnsOpen d ts := by
    cases ts with
    | nil => simp [accepts_nil, State.isAccepting]
    | cons t us => exact accepts_branch us rfl rfl
  rw [hbranch, accepts_jsonKeyword, accepts_columnsOpen]
  simp only [spells_congr fun us => accepts_columnsClose, spells_exists, ← spells_append]
  constructor
  · rintro (⟨p, h⟩ | ⟨c, cs, v, vs, h⟩)
    · exact ⟨.json p, h⟩
    · exact ⟨.listed c cs v vs, by simpa [Row.symbols, Draft.fill] using h⟩
  · rintro ⟨row, h⟩
    cases row with
    | json p => exact .inl ⟨p, h⟩
    | listed c cs v vs =>
      exact .inr ⟨c, cs, v, vs, by simpa [Row.symbols, Draft.fill] using h⟩

/-- Behind a first name, a dot makes it the keyspace; else it is the table. -/
theorem accepts_maybeDot (n : Name) :
    Accepts st .maybeDot (d.apply .pending n.val) ts ↔
      (∃ t : Name, Spells [.dot, .kept t.val] (Accepts st .maybeJson (d.target (some n) t)) ts) ∨
        Accepts st .maybeJson (d.target none n) ts := by
  have htable : ∀ us, Accepts st .table ((d.apply .pending n.val).apply .keyspaceFromPending n.val)
      us ↔ ∃ t : Name, Spells [.kept t.val] (Accepts st .maybeJson (d.target (some n) t)) us :=
    fun us => accepts_name (e := .setTable) (fun _ => rfl) rfl
  have hsplit : (∃ t : Name, Spells [.dot, .kept t.val]
      (Accepts st .maybeJson (d.target (some n) t)) ts) ↔
        Spells [.dot] (Accepts st .table
          ((d.apply .pending n.val).apply .keyspaceFromPending n.val)) ts := by
    rw [spells_congr htable, spells_exists]
    simp only [← spells_append, List.singleton_append]
  rw [hsplit]
  simp only [spells_cons, spells_nil, symbol_dot]
  cases ts with
  | nil => simp [accepts_nil, State.isAccepting]
  | cons t us =>
    by_cases hdot : t.kind = .dot
    · have hr : State.maybeDot.react t = .advance .table .keyspaceFromPending := by
        simp only [State.react, hdot]
      have hj : State.maybeJson.react t = .stuck := by simp only [State.react, hdot]
      have hn : ¬ Accepts st .maybeJson (d.target none n) (t :: us) := not_accepts_stuck _ us hj
      rw [accepts_advance _ us hr]
      simp [hdot, hn, Draft.apply]
    · have hr : State.maybeDot.react t = match t.kind with
          | .keyword => .handOn .jsonKeyword .tableFromPending
          | .bracket => .handOn .columnsOpen .tableFromPending
          | _ => .stuck := by
        cases hk : t.kind <;> simp [State.react, hk] at hdot ⊢
      have hj : Accepts st .maybeJson (d.target none n) (t :: us) ↔ _ :=
        accepts_branch us rfl rfl
      rw [accepts_branch us hr rfl, hj]
      simp [hdot, Draft.apply, Draft.target]

theorem accepts_target :
    Accepts st .tableName d ts ↔ ∃ (k : Option Name) (t : Name),
      Spells (Tree.targetSymbols k t) (Accepts st .maybeJson (d.target k t)) ts := by
  rw [accepts_name (fun _ => rfl) rfl]
  simp only [spells_congr fun us => accepts_maybeDot _, spells_or, spells_exists,
    ← spells_append]
  constructor
  · rintro ⟨n, ⟨t, h⟩ | h⟩
    · exact ⟨some n, t, h⟩
    · exact ⟨none, n, h⟩
  · rintro ⟨k, t, h⟩
    cases k with
    | none => exact ⟨t, .inr h⟩
    | some n => exact ⟨n, .inl ⟨t, h⟩⟩

end Rows

section Clauses

variable {d : Draft} {ts : List Token} {st : Statement}

theorem accepts_usingOption :
    Accepts st .usingOption d ts ↔
      ∃ x : Setting, Spells x.symbols (Accepts st .moreUsing (d.put x)) ts := by
  rw [accepts_takeIf (fun _ => rfl) rfl]
  simp only [accepts_takeIf (s := .usingValue) (fun _ => rfl) rfl, Setting.symbols, spells_cons,
    spells_nil, symbol_keyword]
  constructor
  · rintro ⟨t, _, rfl, ht, v, us, rfl, hv, h⟩
    have hk : v.kind = .integer ∨ v.kind = .questionMark := by simpa using hv
    by_cases hw : t.isKeyword "ttl" = true
    · refine ⟨⟨.ttl, v, hk⟩, t, _, rfl, hw, v, us, rfl, symbol_value ⟨.ttl, v, hk⟩, ?_⟩
      simpa [Draft.apply, Draft.put, hw] using h
    · have hw' : t.isKeyword "timestamp" = true := by simpa [hw] using ht
      refine ⟨⟨.timestamp, v, hk⟩, t, _, rfl, hw', v, us, rfl,
        symbol_value ⟨.timestamp, v, hk⟩, ?_⟩
      simpa [Draft.apply, Draft.put, hw] using h
  · rintro ⟨⟨name, v, hk⟩, t, _, rfl, ht, u, us, rfl, hu, h⟩
    obtain rfl := eq_of_symbol_kept hu
    have hv : (u.kind == .integer || u.kind == .questionMark) = true := by simpa using hk
    cases name with
    | ttl =>
      have hw : t.isKeyword "ttl" = true := ht
      refine ⟨t, _, rfl, by simp [hw], u, us, rfl, hv, ?_⟩
      simpa [Draft.apply, Draft.put, hw] using h
    | timestamp =>
      have hw : t.isKeyword "timestamp" = true := ht
      have hn : t.isKeyword "ttl" = false := by
        simp only [Token.isKeyword, Token.is, Bool.and_eq_true, beq_iff_eq] at hw
        simp [Token.isKeyword, Token.is, hw.2]
      refine ⟨t, _, rfl, by simp [hw], u, us, rfl, hv, ?_⟩
      simpa [Draft.apply, Draft.put, hn] using h

theorem accepts_moreUsing :
    Accepts st .moreUsing d ts ↔ ∃ xs terminated,
      ts.map symbol = Clauses.furtherSettings xs ++ Clauses.endSymbols terminated ∧
        st = (d.putAll xs).statement := by
  have hstep : ∀ d ts, Accepts st .moreUsing d ts ↔
      (∃ x : Setting, Spells (.keyword "and" :: x.symbols) (Accepts st .moreUsing (d.put x)) ts) ∨
      ∃ terminated, ts.map symbol = Clauses.endSymbols terminated ∧ st = d.statement := by
    intro d ts
    rw [accepts_closing (fun _ => rfl) rfl, spells_congr fun us => accepts_usingOption,
      spells_exists]
    simp only [← spells_append, List.singleton_append]
  have hloop := spells_loop (fun x : Setting => .keyword "and" :: x.symbols) Draft.put
    (Accepts st .moreUsing)
    (fun d us => ∃ terminated, us.map symbol = Clauses.endSymbols terminated ∧ st = d.statement)
    (by simp) hstep d ts
  simp only [spells_exists, spells_and, spells_map] at hloop
  exact hloop

theorem accepts_usingKeyword :
    Accepts st .usingKeyword d ts ↔ ∃ xs terminated,
      ts.map symbol = Clauses.settingSymbols xs ++ Clauses.endSymbols terminated ∧
        st = (d.putAll xs).statement := by
  have hmore : ∀ us, Accepts st .usingOption d us ↔ ∃ (x : Setting) (xs : List Setting),
      ∃ terminated, us.map symbol =
        x.symbols ++ (Clauses.furtherSettings xs ++ Clauses.endSymbols terminated) ∧
          st = (d.putAll (x :: xs)).statement := by
    intro us
    simp only [accepts_usingOption, spells_congr fun us => accepts_moreUsing, spells_exists,
      spells_and, spells_map]
    rfl
  rw [accepts_closing (fun _ => rfl) rfl, spells_congr hmore]
  simp only [spells_exists, spells_and, spells_map]
  constructor
  · rintro (⟨x, xs, terminated, h, hst⟩ | ⟨terminated, h, hst⟩)
    · exact ⟨x :: xs, terminated, by simpa [Clauses.settingSymbols] using h, hst⟩
    · exact ⟨[], terminated, h, hst⟩
  · rintro ⟨xs, terminated, h, hst⟩
    cases xs with
    | nil => exact .inr ⟨terminated, h, hst⟩
    | cons x xs =>
      exact .inl ⟨x, xs, terminated, by simpa [Clauses.settingSymbols] using h, hst⟩

theorem accepts_ifKeyword :
    Accepts st .ifKeyword d ts ↔ Spells (Clauses.conditionSymbols true)
      (Accepts st .usingKeyword (d.condition true)) ts := by
  have hnot : ∀ us, Accepts st .notKeyword d us ↔
      Spells [.keyword "not"] (Accepts st .existsKeyword d) us :=
    fun us => accepts_mark (fun _ => rfl) rfl symbol_keyword (fun _ => rfl)
  have hexists : ∀ us, Accepts st .existsKeyword d us ↔
      Spells [.keyword "exists"] (Accepts st .usingKeyword (d.condition true)) us :=
    fun us => accepts_mark (fun _ => rfl) rfl symbol_keyword (fun _ => rfl)
  rw [accepts_mark (fun _ => rfl) rfl symbol_keyword (fun _ => rfl), spells_congr hnot]
  simp only [spells_congr hexists, ← spells_append]
  rfl

/-- Behind the row, a keyword decides which of the clauses come. -/
theorem accepts_clauses_cases :
    Accepts st .clauses d ts ↔ Accepts st .ifKeyword d ts ∨ Accepts st .usingKeyword d ts := by
  have hi : Accepts st .ifKeyword d ts ↔ _ := accepts_takeIf (fun _ => rfl) rfl
  rw [hi]
  cases ts with
  | nil => simp [accepts_nil, State.isAccepting]
  | cons t us =>
    by_cases hif : t.isKeyword "if" = true
    · have hr : State.clauses.react t = .handOn .ifKeyword .none := by
        simp only [State.react, hif, if_true]
      have hu : State.usingKeyword.react t = .stuck := by
        simp only [Token.isKeyword, Token.is, Bool.and_eq_true, beq_iff_eq] at hif
        simp [State.react, State.finishOn, Token.isKeyword, Token.is, hif.1, hif.2]
      have hn : ¬ Accepts st .usingKeyword d (t :: us) := not_accepts_stuck d us hu
      rw [accepts_handOn d us hr, accepts_takeIf (fun _ => rfl) rfl]
      simp [hif, hn, Draft.apply]
    by_cases husing : t.isKeyword "using" = true
    · have hr : State.clauses.react t = .handOn .usingKeyword .none := by
        simp [State.react, hif, husing]
      rw [accepts_handOn d us hr]
      simp [hif, Draft.apply]
    -- Only the terminator is left, and both states take it.
    by_cases hend : t.kind = .semicolon
    · have hr : State.clauses.react t = .finish := by
        simp [State.react, State.finishOn, State.isAccepting, hif, husing, hend]
      have hu : State.usingKeyword.react t = .finish := by
        simp [State.react, State.finishOn, State.isAccepting, husing, hend]
      rw [accepts_finish d us hr, accepts_finish d us hu]
      simp [hif]
    · have hr : State.clauses.react t = .stuck := by
        simp [State.react, State.finishOn, hif, husing, hend]
      have hu : State.usingKeyword.react t = .stuck := by
        simp [State.react, State.finishOn, husing, hend]
      have hn : ¬ Accepts st .clauses d (t :: us) := not_accepts_stuck d us hr
      have hm : ¬ Accepts st .usingKeyword d (t :: us) := not_accepts_stuck d us hu
      simp [hif, hn, hm]

theorem accepts_clauses :
    Accepts st .clauses d ts ↔ ∃ c : Clauses, ts.map symbol = c.symbols ∧
      st = ((d.condition c.ifNotExists).putAll c.settings).statement := by
  rw [accepts_clauses_cases, accepts_ifKeyword, spells_congr fun us => accepts_usingKeyword,
    accepts_usingKeyword]
  simp only [spells_exists, spells_and, spells_map]
  constructor
  · rintro (⟨xs, terminated, h, hst⟩ | ⟨xs, terminated, h, hst⟩)
    · exact ⟨⟨true, xs, terminated⟩, h, hst⟩
    · exact ⟨⟨false, xs, terminated⟩, h, hst⟩
  · rintro ⟨⟨ifNotExists, xs, terminated⟩, h, hst⟩
    cases ifNotExists with
    | true => exact .inl ⟨xs, terminated, h, hst⟩
    | false => exact .inr ⟨xs, terminated, h, hst⟩

end Clauses

section Statements

theorem lastValue_append (name : UsingName) (xs ys : List Setting) :
    lastValue name (xs ++ ys) = (lastValue name ys).or (lastValue name xs) := by
  rw [lastValue, List.filter_append, List.getLast?_append, Option.map_or, lastValue, lastValue]

theorem lastValue_single (name : UsingName) (x : Setting) :
    lastValue name [x] = if x.name = name then some x.value else none := by
  by_cases h : x.name = name <;> simp [lastValue, h]

theorem addColumns_eq (d : Draft) (cs : List Name) :
    d.addColumns cs = { d with statement := { d.statement with
      columns := d.statement.columns ++ cs.map fun c => c.val.text } } := by
  induction cs generalizing d with
  | nil => simp [Draft.addColumns]
  | cons c cs ih =>
    rw [Draft.addColumns, List.foldl_cons, ← Draft.addColumns, ih]
    simp [Draft.apply]

theorem addValues_eq (d : Draft) (vs : List Term) :
    d.addValues vs = { d with statement := { d.statement with
      values := d.statement.values ++ vs.map Subtype.val } } := by
  induction vs generalizing d with
  | nil => simp [Draft.addValues]
  | cons v vs ih =>
    rw [Draft.addValues, List.foldl_cons, ← Draft.addValues, ih]
    simp [Draft.apply]

theorem putAll_statement (d : Draft) (xs : List Setting) :
    (d.putAll xs).statement = { d.statement with
      ttl := (lastValue .ttl xs).or d.statement.ttl
      timestamp := (lastValue .timestamp xs).or d.statement.timestamp } := by
  induction xs generalizing d with
  | nil => rfl
  | cons x xs ih =>
    have hcons : ∀ name, lastValue name (x :: xs) =
        (lastValue name xs).or (if x.name = name then some x.value else none) := by
      intro name
      rw [← List.singleton_append, lastValue_append, lastValue_single]
    rw [Draft.putAll, List.foldl_cons, ← Draft.putAll, ih, hcons, hcons]
    cases h : x.name <;> simp [Draft.put, h]

theorem tree_statement (k : Option Name) (t : Name) (row : Row) (c : Clauses) :
    (((((({} : Draft).target k t).fill row).condition c.ifNotExists).putAll
      c.settings)).statement = (Tree.mk k t row c).statement := by
  rw [putAll_statement]
  obtain ⟨ifNotExists, xs, terminated⟩ := c
  cases k <;> cases row <;> cases ifNotExists <;>
    simp [Draft.condition, Draft.fill, Draft.target, Draft.setJson, Draft.apply, addColumns_eq,
      addValues_eq, Tree.statement, Row.columns, Row.values, Row.isJson, Row.payload]

/-- From the start, the walk accepts the sentences, each with the statement it spells. -/
theorem accepts_start {ts : List Token} {st : Statement} :
    Accepts st .into {} ts ↔ ∃ d : Tree, ts.map symbol = d.symbols ∧ st = d.statement := by
  rw [accepts_mark (fun _ => rfl) rfl symbol_keyword (fun _ => rfl),
    spells_congr fun us => accepts_target]
  simp only [spells_congr fun us => accepts_row, spells_congr fun us => accepts_clauses,
    spells_exists, spells_and, spells_map, tree_statement]
  constructor
  · rintro ⟨k, t, row, c, h, hst⟩
    exact ⟨⟨k, t, row, c⟩, h, hst⟩
  · rintro ⟨⟨k, t, row, c⟩, h, hst⟩
    exact ⟨k, t, row, c, h, hst⟩

end Statements

end CqlConsole.Insert

namespace CqlConsole

open CqlConsole.Insert

/-- The statements of the console are the sentences behind the keyword INSERT, and each is
exactly what a derivation of its sentence spells. -/
theorem parse_grammar (input : String) (s : Insert.Statement) :
    parse input = .ok s ↔ ∃ (first : Token) (ts : List Token) (d : Tree),
      solidTokens input = first :: ts ∧ first.isKeyword "insert" = true ∧
        ts.map symbol = d.symbols ∧ s = d.statement := by
  have hstart : ∀ ts, accept .into {} ts = .ok s ↔
      ∃ d : Tree, ts.map symbol = d.symbols ∧ s = d.statement := fun _ => accepts_start
  simp only [parse_eq_ok, hstart, exists_and_left]

end CqlConsole
