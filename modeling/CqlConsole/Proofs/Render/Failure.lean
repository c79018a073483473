import CqlConsole.Proofs.Insert.Stages
import CqlConsole.Render.Output

/-!
# Outputs that fail together

A format fails on a statement only where it has to decode a value that stands
for no literal, and then with the error of the first such value. JSON decodes
all values of a statement, the grid those that have a column, and the compact
form decodes none.
-/

set_option autoImplicit false

namespace CqlConsole.Render

open CqlConsole.Insert

/-- The error is that of the first token that has no value. -/
def FirstFailure (ts : List Token) (e : SyntaxError) : Prop :=
  ∃ front t back, ts = front ++ t :: back ∧ (∀ u ∈ front, ∃ v, Literal.ofToken u = .ok v) ∧
    Literal.ofToken t = .error e

section Lists

variable {t : Token} {ts : List Token} {e : SyntaxError}

theorem not_firstFailure_nil (e : SyntaxError) : ¬FirstFailure [] e := by
  rintro ⟨front, t, back, h, -⟩
  simp at h

theorem firstFailure_of_error (h : Literal.ofToken t = .error e) (e' : SyntaxError) :
    FirstFailure (t :: ts) e' ↔ e' = e := by
  constructor
  · rintro ⟨front, u, back, heq, hfront, hu⟩
    cases front with
    | nil =>
      cases heq
      simpa [h] using hu.symm
    | cons d front =>
      cases heq
      obtain ⟨v, hv⟩ := hfront t (by simp)
      simp [h] at hv
  · rintro rfl
    exact ⟨[], t, ts, rfl, by simp, h⟩

theorem firstFailure_of_ok {v : Literal} (h : Literal.ofToken t = .ok v) :
    FirstFailure (t :: ts) e ↔ FirstFailure ts e := by
  constructor
  · rintro ⟨front, u, back, heq, hfront, hu⟩
    cases front with
    | nil =>
      cases heq
      simp [h] at hu
    | cons d front =>
      cases heq
      exact ⟨front, u, back, rfl, fun u hu => hfront u (by simp [hu]), hu⟩
  · rintro ⟨front, u, back, rfl, hfront, hu⟩
    refine ⟨t :: front, u, back, rfl, ?_, hu⟩
    rw [List.forall_mem_cons]
    exact ⟨⟨v, h⟩, hfront⟩

theorem FirstFailure.of_take {n : Nat} (h : FirstFailure (ts.take n) e) : FirstFailure ts e := by
  obtain ⟨front, t, back, heq, hfront, ht⟩ := h
  refine ⟨front, t, back ++ ts.drop n, ?_, hfront, ht⟩
  rw [← List.cons_append, ← List.append_assoc, ← heq, List.take_append_drop]

theorem ofTokens_eq_error : Literal.ofTokens ts = .error e ↔ FirstFailure ts e := by
  induction ts with
  | nil => simp [Literal.ofTokens, not_firstFailure_nil]
  | cons t ts ih =>
    rw [Literal.ofTokens]
    cases ht : Literal.ofToken t with
    | error e' =>
      rw [firstFailure_of_error ht]
      simp [bind, Except.bind, eq_comm]
    | ok v =>
      rw [firstFailure_of_ok ht, ← ih]
      cases Literal.ofTokens ts <;> simp [bind, Except.bind, pure, Except.pure]

theorem assignmentRows_eq_error {as : List (String × Token)} :
    assignmentRows as = .error e ↔ FirstFailure (as.map Prod.snd) e := by
  induction as with
  | nil => simp [assignmentRows, not_firstFailure_nil]
  | cons a as ih =>
    rw [assignmentRows, assignmentCells, List.map_cons]
    cases ha : Literal.ofToken a.2 with
    | error e' =>
      rw [firstFailure_of_error ha]
      simp [bind, Except.bind, eq_comm]
    | ok v =>
      rw [firstFailure_of_ok ha, ← ih]
      cases assignmentRows as <;> simp [bind, Except.bind, pure, Except.pure]

end Lists

section Statement

variable {s : Statement} {e : SyntaxError}

theorem map_snd_zip_eq_take {α β : Type} (as : List α) (bs : List β) :
    (as.zip bs).map Prod.snd = bs.take as.length := by
  induction as generalizing bs with
  | nil => simp
  | cons a as ih =>
    cases bs with
    | nil => simp
    | cons b bs => simp [ih]

theorem toJson_eq_error : toJson s = .error e ↔ FirstFailure s.values e := by
  rw [toJson, ← ofTokens_eq_error]
  cases Literal.ofTokens s.values <;> simp [bind, Except.bind, pure, Except.pure]

/-- A statement with a JSON text has no values, so there is nothing in it that the grid leaves out. -/
theorem cells_eq_error (h : s.json = true → s.values = []) :
    cells s = .error e ↔ FirstFailure (s.values.take s.columns.length) e := by
  rw [cells]
  cases hjson : s.jsonText? with
  | some payload =>
    have hnone : s.values = [] := by
      apply h
      rw [Statement.jsonText?] at hjson
      split at hjson
      · assumption
      · cases hjson
    simp [hnone, not_firstFailure_nil]
  | none =>
    rw [← map_snd_zip_eq_take, ← Statement.assignments, ← assignmentRows_eq_error]
    cases assignmentRows s.assignments <;> simp [Except.map]

theorem tableText_eq_error (h : s.json = true → s.values = []) (colours : Bool) (width : Nat) :
    tableText colours width s = .error e ↔ FirstFailure (s.values.take s.columns.length) e := by
  rw [tableText, ← cells_eq_error h]
  cases cells s <;> simp [bind, Except.bind, pure, Except.pure]

theorem map_eq_error {α β : Type} {f : α → β} {x : Except SyntaxError α} :
    x.map f = .error e ↔ x = .error e := by
  cases x <;> simp [Except.map]

/-- Of any statement that can be read, complete or not, JSON shows nothing but the error of the first
value that cannot be decoded, if there is one, and the grid the same for the values with a column.
So the grid fails only together with JSON, and JSON fails together with the grid unless there are
more values than columns. The compact form does not fail. -/
theorem formats_fail_together {input : String} {r : Reading} (h : inspect input = .ok r)
    (colours : Bool) (e : SyntaxError) :
    let s := r.statement
    (statementText .json colours s = .error e ↔ FirstFailure s.values e) ∧
    (statementText .jsonPretty colours s = .error e ↔ FirstFailure s.values e) ∧
    (statementText .table colours s = .error e ↔
      FirstFailure (s.values.take s.columns.length) e) ∧
    (statementText .table colours s = .error e →
      statementText .json colours s = .error e ∧ statementText .jsonPretty colours s = .error e) ∧
    (s.values.length ≤ s.columns.length →
      statementText .json colours s = .error e ∨ statementText .jsonPretty colours s = .error e →
        statementText .table colours s = .error e) ∧
    statementText .compact colours s = .ok s.text := by
  intro s
  have hjson : statementText .json colours s = .error e ↔ FirstFailure s.values e :=
    map_eq_error.trans toJson_eq_error
  have hpretty : statementText .jsonPretty colours s = .error e ↔ FirstFailure s.values e :=
    map_eq_error.trans toJson_eq_error
  have hnone : s.json = true → s.values = [] :=
    fun h' => ((sound_of_inspect h).no_lists_of_json h').2
  have htable : statementText .table colours s = .error e ↔
      FirstFailure (s.values.take s.columns.length) e :=
    tableText_eq_error hnone colours defaultWidth
  refine ⟨hjson, hpretty, htable, fun hfail => ?_, fun hlength hfail => ?_, rfl⟩
  · have hfirst := (htable.1 hfail).of_take
    exact ⟨hjson.2 hfirst, hpretty.2 hfirst⟩
  · rw [htable, List.take_of_length_le hlength]
    rcases hfail with hfail | hfail
    · exact hjson.1 hfail
    · exact hpretty.1 hfail

/-- An odd digit is an error in all formats, and behind the last column one of JSON alone. -/
theorem formats_fail_together_blob :
    let e := SyntaxError.unexpected "even number of hex digits" "0xA"
    (∃ r, inspect "insert into t (a) values (0xA" = .ok r ∧
      statementText .table false r.statement = .error e ∧
      statementText .json false r.statement = .error e) ∧
    ∃ r, inspect "insert into t (a) values (1, 0xA" = .ok r ∧
      statementText .json false r.statement = .error e ∧
      ∀ e', statementText .table false r.statement ≠ .error e' := by
  intro e
  constructor
  · obtain ⟨r, hr, hvalues, hcolumns⟩ : ∃ r, inspect "insert into t (a) values (0xA" = .ok r ∧
        r.statement.values = [⟨.blob, "0xA", 26, 29⟩] ∧ r.statement.columns = ["a"] :=
      ⟨_, rfl, rfl, rfl⟩
    have hodd : Literal.ofToken ⟨.blob, "0xA", 26, 29⟩ = .error e := rfl
    obtain ⟨hjson, -, -, -, hboth, -⟩ := formats_fail_together hr false e
    rw [hvalues, firstFailure_of_error hodd] at hjson
    rw [hvalues, hcolumns] at hboth
    exact ⟨r, hr, hboth (by decide) (.inl (hjson.2 rfl)), hjson.2 rfl⟩
  · obtain ⟨r, hr, hvalues, hcolumns⟩ : ∃ r, inspect "insert into t (a) values (1, 0xA" = .ok r ∧
        r.statement.values = [⟨.integer, "1", 26, 27⟩, ⟨.blob, "0xA", 29, 32⟩] ∧
        r.statement.columns = ["a"] :=
      ⟨_, rfl, rfl, rfl⟩
    have hone : Literal.ofToken ⟨.integer, "1", 26, 27⟩ = .ok (.integer 1) := rfl
    have hodd : Literal.ofToken ⟨.blob, "0xA", 29, 32⟩ = .error e := rfl
    refine ⟨r, hr, (formats_fail_together hr false e).1.2 ?_, fun e' htable => ?_⟩
    · rw [hvalues, firstFailure_of_ok hone, firstFailure_of_error hodd]
    · rw [(formats_fail_together hr false e').2.2.1, hvalues, hcolumns] at htable
      exact not_firstFailure_nil e' ((firstFailure_of_ok hone).1 htable)

end Statement

end CqlConsole.Render
