import CqlConsole.Proofs.Insert.Language

/-!
# How many columns and values a statement has

The lists of columns and of values are read one after the other, and each is as
long as its commas say. Nothing compares them, so a statement that is read
gives every column a value exactly if both lists have the same number of commas.
-/

set_option autoImplicit false

namespace CqlConsole.Insert

def commas (ts : List Token) : Nat :=
  ts.countP fun t => t.kind == .comma

def columnPart (ts : List Token) : List Token :=
  ts.takeWhile fun t => !t.isKeyword "values"

def valuePart (ts : List Token) : List Token :=
  ts.dropWhile fun t => !t.isKeyword "values"

section Symbols

def isComma (x : Symbol) : Bool :=
  x == .comma

def isOther (x : Symbol) : Bool :=
  x != .keyword "values"

theorem isComma_symbol : isComma ∘ symbol = fun t => t.kind == .comma := by
  funext t
  rw [Bool.eq_iff_iff]
  simp [isComma, symbol_comma]

theorem isOther_symbol : isOther ∘ symbol = fun t => !t.isKeyword "values" := by
  funext t
  rw [Bool.eq_iff_iff]
  simp [isOther, symbol_keyword]

theorem commas_columnPart (ts : List Token) :
    commas (columnPart ts) = ((ts.map symbol).takeWhile isOther).countP isComma := by
  rw [List.takeWhile_map, List.countP_map, isComma_symbol, isOther_symbol, commas, columnPart]

theorem commas_valuePart (ts : List Token) :
    commas (valuePart ts) = ((ts.map symbol).dropWhile isOther).countP isComma := by
  rw [List.dropWhile_map, List.countP_map, isComma_symbol, isOther_symbol, commas, valuePart]

theorem further_commas (ts : List Token) : (furtherSymbols ts).countP isComma = ts.length := by
  induction ts with
  | nil => rfl
  | cons t ts ih =>
    have hcons : furtherSymbols (t :: ts) = .comma :: .kept t :: furtherSymbols ts := rfl
    rw [hcons, List.countP_cons, List.countP_cons, ih]
    simp [isComma]

theorem further_other (ts : List Token) : (furtherSymbols ts).all isOther = true := by
  induction ts with
  | nil => rfl
  | cons t ts ih => exact ih

theorem settings_commas (xs : List Setting) :
    (Clauses.furtherSettings xs).countP isComma = 0 := by
  induction xs with
  | nil => rfl
  | cons x xs ih =>
    have hcons : Clauses.furtherSettings (x :: xs) =
        .keyword "and" :: x.symbols ++ Clauses.furtherSettings xs := rfl
    rw [hcons, List.countP_append, ih]
    simp [Setting.symbols, isComma]

theorem clauses_commas (c : Clauses) : c.symbols.countP isComma = 0 := by
  obtain ⟨ifNotExists, xs, terminated⟩ := c
  have hcondition : (Clauses.conditionSymbols ifNotExists).countP isComma = 0 := by
    cases ifNotExists <;> rfl
  have hend : (Clauses.endSymbols terminated).countP isComma = 0 := by
    cases terminated <;> rfl
  have hsettings : (Clauses.settingSymbols xs).countP isComma = 0 := by
    cases xs with
    | nil => rfl
    | cons x xs =>
      rw [Clauses.settingSymbols, List.countP_append, settings_commas]
      simp [Setting.symbols, isComma]
  simp only [Clauses.symbols, List.countP_append, hcondition, hsettings, hend]

end Symbols

def columnSymbols (k : Option Name) (t c : Name) (cs : List Name) : List Symbol :=
  .keyword "insert" :: .keyword "into" :: Tree.targetSymbols k t ++
    ([.openBracket, .kept c.val] ++ furtherSymbols (cs.map Subtype.val) ++ [.closeBracket])

def valueSymbols (v : Term) (vs : List Term) (cl : Clauses) : List Symbol :=
  .keyword "values" :: [.openBracket, .kept v.val] ++
    furtherSymbols (vs.map Subtype.val) ++ [.closeBracket] ++ cl.symbols

theorem columnSymbols_commas (k : Option Name) (t c : Name) (cs : List Name) :
    (columnSymbols k t c cs).countP isComma = cs.length := by
  simp only [columnSymbols, List.countP_append, further_commas, List.length_map]
  cases k <;> simp [Tree.targetSymbols, isComma]

theorem columnSymbols_other (k : Option Name) (t c : Name) (cs : List Name) :
    (columnSymbols k t c cs).all isOther = true := by
  simp only [columnSymbols, List.all_append, further_other]
  cases k <;> simp [Tree.targetSymbols, isOther]

theorem valueSymbols_commas (v : Term) (vs : List Term) (cl : Clauses) :
    (valueSymbols v vs cl).countP isComma = vs.length := by
  simp only [valueSymbols, List.countP_append, further_commas, clauses_commas, List.length_map]
  simp [isComma]

/-- The commas on either side of the keyword count the columns and the values. -/
theorem commas_of_listed {ts : List Token} {k : Option Name} {t c : Name} {cs : List Name}
    {v : Term} {vs : List Term} {cl : Clauses}
    (h : ts.map symbol = columnSymbols k t c cs ++ valueSymbols v vs cl) :
    commas (columnPart ts) = cs.length ∧ commas (valuePart ts) = vs.length := by
  have hother := columnSymbols_other k t c cs
  rw [List.all_eq_true] at hother
  have hstop : (valueSymbols v vs cl).takeWhile isOther = [] := rfl
  have hkeep : (valueSymbols v vs cl).dropWhile isOther = valueSymbols v vs cl := rfl
  rw [commas_columnPart, commas_valuePart, h, List.takeWhile_append_of_pos hother,
    List.dropWhile_append_of_pos hother, hstop, hkeep, List.append_nil, columnSymbols_commas,
    valueSymbols_commas]
  exact ⟨rfl, rfl⟩

/-- Pairing loses no column and no value exactly if there are as many of the ones as of the
others. -/
theorem assignments_complete (s : Statement) :
    (s.assignments.map Prod.fst = s.columns ∧ s.assignments.map Prod.snd = s.values) ↔
      s.columns.length = s.values.length := by
  constructor
  · rintro ⟨hc, hv⟩
    rw [← hc, ← hv, List.length_map, List.length_map]
  · intro h
    exact ⟨List.map_fst_zip (Nat.le_of_eq h), List.map_snd_zip (Nat.le_of_eq h.symm)⟩

end CqlConsole.Insert

namespace CqlConsole

open CqlConsole.Insert

/-- A statement with columns has one more column than there are commas in front of the keyword
VALUES, and one more value than there are commas behind it. It pairs them without loss exactly
if the commas on both sides are as many. -/
theorem columns_paired_iff {input : String} {s : Insert.Statement} (h : parse input = .ok s)
    (hj : s.json = false) :
    s.columns.length = commas (columnPart (solidTokens input)) + 1 ∧
    s.values.length = commas (valuePart (solidTokens input)) + 1 ∧
    (s.columns.length = s.values.length ↔
      commas (columnPart (solidTokens input)) = commas (valuePart (solidTokens input))) ∧
    ((s.assignments.map Prod.fst = s.columns ∧ s.assignments.map Prod.snd = s.values) ↔
      commas (columnPart (solidTokens input)) = commas (valuePart (solidTokens input))) := by
  obtain ⟨first, ts, hs, hi, ha⟩ := parse_eq_ok.1 h
  obtain ⟨⟨k, t, row, cl⟩, hts, rfl⟩ := accepts_start.1 ha
  cases row with
  | json p => cases hj
  | listed c cs v vs =>
    have hsymbols : (solidTokens input).map symbol =
        columnSymbols k t c cs ++ valueSymbols v vs cl := by
      rw [hs, List.map_cons, symbol_keyword.2 hi, hts]
      simp [columnSymbols, valueSymbols, Tree.symbols, Row.symbols]
    obtain ⟨hc, hv⟩ := commas_of_listed hsymbols
    have hcolumns : (Tree.mk k t (.listed c cs v vs) cl).statement.columns.length =
        cs.length + 1 := by
      simp [Tree.statement, Row.columns]
    have hvalues : (Tree.mk k t (.listed c cs v vs) cl).statement.values.length =
        vs.length + 1 := by
      simp [Tree.statement, Row.values]
    rw [assignments_complete, hc, hv, hcolumns, hvalues]
    exact ⟨rfl, rfl, by omega, by omega⟩

/-- Two columns and three values, read as they stand. -/
theorem columns_paired_iff_uneven :
    ∃ s, parse "insert into t (a, b) values (1, ?, 'x')" = .ok s ∧ s.json = false ∧
      s.columns.length = commas (columnPart (solidTokens
        "insert into t (a, b) values (1, ?, 'x')")) + 1 ∧
      s.values.length = commas (valuePart (solidTokens
        "insert into t (a, b) values (1, ?, 'x')")) + 1 :=
  ⟨_, rfl, rfl, (columns_paired_iff rfl rfl).1, (columns_paired_iff rfl rfl).2.1⟩

/-- A statement may name more columns than it gives values. -/
theorem columns_unpaired : ¬ ∀ (input : String) (s : Insert.Statement), parse input = .ok s →
    s.json = false → s.columns.length = s.values.length := by
  intro h
  have hlength := h "INSERT INTO t (a, b) VALUES (1)" _ rfl rfl
  exact absurd hlength (by decide)

end CqlConsole
