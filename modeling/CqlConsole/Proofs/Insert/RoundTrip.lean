import CqlConsole.Proofs.Insert.Placement
import CqlConsole.Proofs.Insert.PrintedText
import CqlConsole.Proofs.Insert.Viability

/-!
# Printing and reading again

The compact text of a statement is a sentence again: that of a tree with the
same tokens, of whose options only the last of each name is left. So reading
undoes printing, up to the places of the tokens, and what is printed then is
the text that was read.
-/

set_option autoImplicit false

namespace CqlConsole.Insert

open CqlConsole.Run CqlConsole.Text

def Name.unplaced (t : Name) : Name :=
  ⟨t.val.unplaced, t.property⟩

def Term.unplaced (t : Term) : Term :=
  ⟨t.val.unplaced, t.property⟩

def JsonText.unplaced (t : JsonText) : JsonText :=
  ⟨t.val.unplaced, t.property⟩

def Row.unplaced : Row → Row
  | listed c cs v vs =>
    .listed (Name.unplaced c) (cs.map Name.unplaced) (Term.unplaced v) (vs.map Term.unplaced)
  | json p => .json (JsonText.unplaced p)

def lastSetting (name : UsingName) (xs : List Setting) : Option Setting :=
  (xs.filter fun x => x.name = name).getLast?

def lastSettings (xs : List Setting) : List Setting :=
  (lastSetting .ttl xs).toList ++ (lastSetting .timestamp xs).toList

def Tree.printed (d : Tree) : Tree where
  keyspace := d.keyspace.map Name.unplaced
  table := Name.unplaced d.table
  row := d.row.unplaced
  clauses := ⟨d.clauses.ifNotExists, (lastSettings d.clauses.settings).map Setting.unplaced, true⟩

theorem lastSetting_spec {name : UsingName} {x : Setting} {xs : List Setting}
    (h : lastSetting name xs = some x) : x ∈ xs ∧ x.name = name := by
  have hmem := List.mem_of_getLast? h
  rwa [List.mem_filter, decide_eq_true_eq] at hmem

theorem mem_lastSettings {x : Setting} {xs : List Setting} (h : x ∈ lastSettings xs) :
    x ∈ xs := by
  rw [lastSettings, List.mem_append, Option.mem_toList, Option.mem_toList] at h
  rcases h with h | h
  · exact (lastSetting_spec h).1
  · exact (lastSetting_spec h).1

theorem lastValue_lastSetting (name n : UsingName) (xs : List Setting) :
    lastValue name ((lastSetting n xs).toList.map Setting.unplaced) =
      if n = name then (lastValue n xs).map Token.unplaced else none := by
  have hvalue : lastValue n xs = (lastSetting n xs).map Setting.value := rfl
  rw [hvalue]
  cases h : lastSetting n xs with
  | none => simp [lastValue]
  | some x =>
    have hname : x.unplaced.name = n := (lastSetting_spec h).2
    rw [Option.toList_some, List.map_cons, List.map_nil, lastValue_single, hname]
    rfl

/-- Leaving out the options that do not count changes no value. -/
theorem lastValue_lastSettings (name : UsingName) (xs : List Setting) :
    lastValue name ((lastSettings xs).map Setting.unplaced) =
      (lastValue name xs).map Token.unplaced := by
  rw [lastSettings, List.map_append, lastValue_append, lastValue_lastSetting,
    lastValue_lastSetting]
  cases name <;> simp

theorem names_unplaced (ns : List Name) :
    (ns.map Name.unplaced).map Subtype.val = (ns.map Subtype.val).map Token.unplaced := by
  rw [List.map_map, List.map_map]
  rfl

theorem terms_unplaced (vs : List Term) :
    (vs.map Term.unplaced).map Subtype.val = (vs.map Subtype.val).map Token.unplaced := by
  rw [List.map_map, List.map_map]
  rfl

section Statements

variable (row : Row)

theorem columns_unplaced : row.unplaced.columns = row.columns := by
  cases row with
  | listed c cs v vs =>
    have hname : (fun t : Name => t.val.text) ∘ Name.unplaced = fun t => t.val.text := rfl
    rw [Row.unplaced, Row.columns, Row.columns, ← List.map_cons, List.map_map, hname]
  | json p => rfl

theorem values_unplaced : row.unplaced.values = row.values.map Token.unplaced := by
  cases row with
  | listed c cs v vs =>
    rw [Row.unplaced, Row.values, Row.values, ← List.map_cons, terms_unplaced]
  | json p => rfl

theorem isJson_unplaced : row.unplaced.isJson = row.isJson := by
  cases row <;> rfl

theorem payload_unplaced : row.unplaced.payload = row.payload := by
  cases row <;> rfl

theorem printed_statement (d : Tree) : d.printed.statement = d.statement.unplaced := by
  obtain ⟨k, t, row, ifNotExists, xs, terminated⟩ := d
  have hkeyspace : (k.map Name.unplaced).map (fun t => t.val.text) = k.map fun t => t.val.text := by
    cases k <;> rfl
  simp only [Tree.printed, Tree.statement, Statement.unplaced, hkeyspace, columns_unplaced,
    values_unplaced, isJson_unplaced, payload_unplaced, lastValue_lastSettings]
  rfl

end Statements

section Text

variable {d : Tree} {s : List Char}

theorem kept_mem_further {t : Token} {ts : List Token} :
    .kept t ∈ furtherSymbols ts ↔ t ∈ ts := by
  simp [furtherSymbols]

theorem kept_mem_listed {t : Token} {n : Name} {ns : List Name} {v : Term} {vs : List Term} :
    .kept t ∈ (Row.listed n ns v vs).symbols ↔
      t ∈ n.val :: ns.map Subtype.val ∨ t ∈ v.val :: vs.map Subtype.val := by
  simp only [Row.symbols, List.mem_append, kept_mem_further, List.mem_cons]
  simp [or_assoc]

theorem textSymbols_target (h : ∀ t, .kept t ∈ d.symbols → Kept t) (hs : separates s = true) :
    textSymbols (' ' :: (d.statement.qualifiedTable.toList ++ s)) =
      Tree.targetSymbols d.printed.keyspace d.printed.table ++ textSymbols s := by
  obtain ⟨k, t, row, c⟩ := d
  have ht : Kept t.val := h t.val (by cases k <;> simp [Tree.symbols, Tree.targetSymbols])
  cases k with
  | none => exact textSymbols_space_kept ht hs
  | some k =>
    have hk : Kept k.val := h k.val (by simp [Tree.symbols, Tree.targetSymbols])
    have htext : (k.val.text ++ "." ++ t.val.text).toList ++ s =
        k.val.text.toList ++ '.' :: (t.val.text.toList ++ s) := by
      rw [String.toList_append, String.toList_append, List.append_assoc, List.append_assoc]
      rfl
    have hqualified : (Tree.mk (some k) t row c).statement.qualifiedTable =
        k.val.text ++ "." ++ t.val.text := rfl
    rw [hqualified, htext, textSymbols_space_name_dot hk k.property, textSymbols_kept ht hs]
    rfl

theorem listed_toList (cs vs : String) (s : List Char) :
    (" (" ++ cs ++ ") VALUES (" ++ vs ++ ")").toList ++ s =
      ' ' :: '(' :: (cs.toList ++ ')' :: ' ' ::
        ("VALUES".toList ++ ' ' :: '(' :: (vs.toList ++ ')' :: s))) := by
  simp only [String.toList_append, List.append_assoc]
  rfl

theorem textSymbols_body (h : ∀ t, .kept t ∈ d.symbols → Kept t) (hs : separates s = true) :
    textSymbols (d.statement.bodyText.toList ++ s) =
      d.printed.row.symbols ++ textSymbols s := by
  obtain ⟨k, t, row, c⟩ := d
  have hrow : ∀ t, .kept t ∈ row.symbols → Kept t := by
    intro t ht
    exact h t (by simp [Tree.symbols, ht])
  cases row with
  | json p =>
    have hp : Kept p.val := hrow p.val (by simp [Row.symbols])
    have hword : symbol (token "JSON".toList) = .keyword "json" := rfl
    have htext : (" JSON " ++ p.val.text).toList ++ s =
        ' ' :: ("JSON".toList ++ ' ' :: (p.val.text.toList ++ s)) := by
      rw [String.toList_append, List.append_assoc]
      rfl
    have hbody : (Tree.mk k t (.json p) c).statement.bodyText = " JSON " ++ p.val.text := rfl
    rw [hbody, htext, textSymbols_word_kept rfl hword hp hs]
    rfl
  | listed n ns v vs =>
    have hcolumns : ∀ u ∈ n.val :: ns.map Subtype.val, Kept u :=
      fun u hu => hrow u (kept_mem_listed.2 (.inl hu))
    have hvalues : ∀ u ∈ v.val :: vs.map Subtype.val, Kept u :=
      fun u hu => hrow u (kept_mem_listed.2 (.inr hu))
    have hnames : (n :: ns).map (fun t => t.val.text) =
        (n.val :: ns.map Subtype.val).map Token.text := by
      rw [← List.map_cons, List.map_map]
      rfl
    have hbody : (Tree.mk k t (.listed n ns v vs) c).statement.bodyText =
        " (" ++ joined ", " ((n :: ns).map fun t => t.val.text) ++ ") VALUES (" ++
          joined ", " ((v.val :: vs.map Subtype.val).map Token.text) ++ ")" := rfl
    have hword : symbol (token "VALUES".toList) = .keyword "values" := rfl
    rw [hbody, hnames, listed_toList, textSymbols_listed _ _ hcolumns,
      textSymbols_space_word rfl hword rfl, textSymbols_listed _ _ hvalues]
    simp only [Tree.printed, Row.unplaced, Row.symbols, names_unplaced, terms_unplaced,
      List.cons_append, List.nil_append, List.append_assoc]
    rfl

theorem textSymbols_condition (ifNotExists : Bool) (hs : separates s = true) :
    textSymbols ((if ifNotExists then " IF NOT EXISTS" else "").toList ++ s) =
      Clauses.conditionSymbols ifNotExists ++ textSymbols s := by
  cases ifNotExists with
  | false => rfl
  | true =>
    have htext : " IF NOT EXISTS".toList ++ s =
        ' ' :: ("IF".toList ++ ' ' :: ("NOT".toList ++ ' ' :: ("EXISTS".toList ++ s))) := rfl
    have hif : symbol (token "IF".toList) = .keyword "if" := rfl
    have hnot : symbol (token "NOT".toList) = .keyword "not" := rfl
    have hexists : symbol (token "EXISTS".toList) = .keyword "exists" := rfl
    rw [if_pos rfl, htext, textSymbols_space_word rfl hif rfl, textSymbols_space_word rfl hnot rfl,
      textSymbols_space_word rfl hexists hs]
    rfl

theorem lastSetting_text (name : UsingName) (xs : List Setting) :
    ((lastValue name xs).map fun t => name.capitals ++ " " ++ t.text) =
      (lastSetting name xs).map Setting.text := by
  have hvalue : lastValue name xs = (lastSetting name xs).map Setting.value := rfl
  rw [hvalue, Option.map_map]
  refine Option.map_congr fun x hx => ?_
  rw [Setting.text, (lastSetting_spec hx).2]
  rfl

theorem options_statement (d : Tree) :
    d.statement.options = (lastSettings d.clauses.settings).map Setting.text := by
  have httl : (d.statement.ttl.map fun t => "TTL " ++ t.text) =
      (lastSetting .ttl d.clauses.settings).map Setting.text :=
    lastSetting_text .ttl d.clauses.settings
  have htimestamp : (d.statement.timestamp.map fun t => "TIMESTAMP " ++ t.text) =
      (lastSetting .timestamp d.clauses.settings).map Setting.text :=
    lastSetting_text .timestamp d.clauses.settings
  rw [Statement.options, httl, htimestamp, lastSettings, List.map_append, Option.toList_map,
    Option.toList_map]

theorem kept_mem_settings {x : Setting} {xs : List Setting} (h : x ∈ xs) :
    .kept x.value ∈ Clauses.settingSymbols xs := by
  cases xs with
  | nil => cases h
  | cons y ys =>
    rw [Clauses.settingSymbols, Clauses.furtherSettings]
    rcases List.mem_cons.1 h with rfl | h
    · simp [Setting.symbols]
    · refine List.mem_append_right _ (List.mem_flatMap.2 ⟨x, h, ?_⟩)
      simp [Setting.symbols]

theorem textSymbols_options (h : ∀ t, .kept t ∈ d.symbols → Kept t) (hs : separates s = true) :
    textSymbols (d.statement.usingText.toList ++ s) =
      Clauses.settingSymbols d.printed.clauses.settings ++ textSymbols s := by
  have hkept : ∀ x ∈ lastSettings d.clauses.settings, Kept x.value := by
    intro x hx
    have hmem := kept_mem_settings (mem_lastSettings hx)
    exact h x.value (by simp [Tree.symbols, Clauses.symbols, hmem])
  rw [Statement.usingText, options_statement, Tree.printed]
  cases hx : lastSettings d.clauses.settings with
  | nil => rfl
  | cons x xs =>
    rw [hx] at hkept
    exact textSymbols_settings x xs hkept hs

theorem separates_options (s : Statement) : separates (s.usingText.toList ++ [';']) = true := by
  rw [Statement.usingText]
  cases s.options with
  | nil => rfl
  | cons x xs =>
    rw [String.toList_append]
    rfl

theorem separates_body (s : Statement) (rest : List Char) :
    separates (s.bodyText.toList ++ rest) = true := by
  rw [Statement.bodyText]
  cases s.jsonText? with
  | none =>
    rw [listed_toList]
    rfl
  | some payload =>
    rw [String.toList_append]
    rfl

/-- The text of a statement spells the tree that is printed. -/
theorem textSymbols_statement (h : ∀ t, .kept t ∈ d.symbols → Kept t) :
    textSymbols d.statement.text.toList = .keyword "insert" :: d.printed.symbols := by
  have htext : d.statement.text.toList = "INSERT".toList ++ ' ' :: ("INTO".toList ++
      ' ' :: (d.statement.qualifiedTable.toList ++ (d.statement.bodyText.toList ++
        ((if d.clauses.ifNotExists then " IF NOT EXISTS" else "").toList ++
          (d.statement.usingText.toList ++ [';']))))) := by
    simp only [text_parts, String.toList_append, List.append_assoc]
    rfl
  have hoptions := separates_options d.statement
  have hcondition : separates ((if d.clauses.ifNotExists then " IF NOT EXISTS" else "").toList ++
      (d.statement.usingText.toList ++ [';'])) = true := by
    cases d.clauses.ifNotExists with
    | true => rfl
    | false => exact hoptions
  have hinsert : symbol (token "INSERT".toList) = .keyword "insert" := rfl
  have hinto : symbol (token "INTO".toList) = .keyword "into" := rfl
  rw [htext, textSymbols_word rfl hinsert rfl, textSymbols_space_word rfl hinto rfl,
    textSymbols_target h (separates_body d.statement _), textSymbols_body h hcondition,
    textSymbols_condition _ hoptions, textSymbols_options h rfl]
  rfl

end Text

/-- The tokens of an input that a statement keeps are given back by their texts. -/
theorem kept_of_accepted {input : String} {first : Token} {ts : List Token} {d : Tree}
    (hs : solidTokens input = first :: ts) (hd : ts.map symbol = d.symbols) {t : Token}
    (ht : .kept t ∈ d.symbols) : Kept t := by
  have ha : Accepts d.statement .into {} ts := accepts_start.2 ⟨d, hd, rfl⟩
  rw [← hd, List.mem_map] at ht
  obtain ⟨u, hu, hsymbol⟩ := ht
  obtain rfl := eq_of_symbol_kept hsymbol
  have hmem : u ∈ solidTokens input := by
    rw [hs]
    exact List.mem_cons_of_mem first hu
  have hk : u.kind ≠ .keyword := by
    intro hk
    simp [symbol, hk] at hsymbol
  exact ⟨Token.stable_of_mem hmem (kinds_of_accepts ha u hu) hk, hsymbol⟩

/-- Tokens that spell a tree when their places are left out complete its statement. -/
theorem accept_of_unplaced {us : List Token} {d : Tree}
    (h : (us.map Token.unplaced).map symbol = d.symbols) :
    ∃ st, accept .into {} us = .ok st ∧ st.unplaced = d.statement := by
  have hread : accept .into {} (us.map Token.unplaced) = .ok d.statement :=
    accepts_start.2 ⟨d, h, rfl⟩
  have hplaces : accept .into {} (us.map Token.unplaced) =
      (accept .into {} us).map Statement.unplaced := accept_unplaced .into {} us
  rw [hread] at hplaces
  cases hst : accept .into {} us with
  | error e =>
    rw [hst] at hplaces
    cases hplaces
  | ok st =>
    rw [hst] at hplaces
    exact ⟨st, rfl, (Except.ok.inj hplaces).symm⟩

end CqlConsole.Insert

namespace CqlConsole

open CqlConsole.Insert CqlConsole.Run

/-- Reading undoes printing: the text of a statement that was read is read as the same statement,
up to the places of the tokens in it, and printed again it is the same text. -/
theorem parse_text {input : String} {s : Insert.Statement} (h : parse input = .ok s) :
    ∃ again, parse s.text = .ok again ∧ again.unplaced = s.unplaced ∧ again.text = s.text := by
  obtain ⟨first, ts, hs, hi, ha⟩ := parse_eq_ok.1 h
  obtain ⟨d, hd, rfl⟩ := accepts_start.1 ha
  -- In the printed text the tokens stand at other places, so both sides are taken without them.
  have hprinted : ((solidTokens d.statement.text).map Token.unplaced).map symbol =
      .keyword "insert" :: d.printed.symbols := by
    rw [solidTokens_unplaced]
    exact textSymbols_statement fun t ht => kept_of_accepted hs hd ht
  cases hus : solidTokens d.statement.text with
  | nil => simp [hus] at hprinted
  | cons u us =>
    rw [hus, List.map_cons, List.map_cons, List.cons.injEq, symbol_keyword] at hprinted
    obtain ⟨hu, hsymbols⟩ := hprinted
    obtain ⟨again, hagain, heq⟩ := accept_of_unplaced hsymbols
    rw [printed_statement] at heq
    refine ⟨again, parse_eq_ok.2 ⟨u, us, hus, hu, hagain⟩, heq, ?_⟩
    rw [← text_unplaced, heq, text_unplaced]

/-- A quoted name, a quoted string, a signed number with an exponent and an option given twice. -/
theorem parse_text_quoted :
    ∃ s again,
      parse "insert into \"A b\".t(c,d)values('it''s',-1.5e3)using ttl 5 and ttl ?" = .ok s ∧
      s.text = "INSERT INTO \"A b\".t (c, d) VALUES ('it''s', -1.5e3) USING TTL ?;" ∧
      parse s.text = .ok again ∧ again.unplaced = s.unplaced ∧ again.text = s.text := by
  have h : parse "insert into \"A b\".t(c,d)values('it''s',-1.5e3)using ttl 5 and ttl ?" =
      .ok { keyspace := some "\"A b\"", table := "t", columns := ["c", "d"],
            values := [⟨.string, "'it''s'", 31, 38⟩, ⟨.float, "-1.5e3", 39, 45⟩],
            ttl := some ⟨.questionMark, "?", 66, 67⟩ } := rfl
  obtain ⟨again, hagain⟩ := parse_text h
  exact ⟨_, again, h, by decide, hagain⟩

end CqlConsole
