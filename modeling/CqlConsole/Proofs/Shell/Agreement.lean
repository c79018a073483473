import CqlConsole.Proofs.Insert.Placement
import CqlConsole.Proofs.Shell.Submission
import CqlConsole.Settings.Basic

/-!
# One text, two ways in

A text that is given as an argument and a line of the session are shown alike.
The session takes the blanks off the ends of a line first, which changes the
places of the tokens and nothing else, unless a quote is open at the end; and
what is shown of a statement does not depend on places.
-/

set_option autoImplicit false

namespace CqlConsole

open CqlConsole.Text CqlConsole.Run CqlConsole.Insert

inductive SyntaxError.Cause where
  | empty
  | invalidToken
  | unsupported
  | unexpected
  | incomplete
  deriving DecidableEq, Repr

def SyntaxError.cause : SyntaxError → Cause
  | .empty => .empty
  | .invalidToken _ => .invalidToken
  | .unsupported _ => .unsupported
  | .unexpected _ _ => .unexpected
  | .incomplete _ => .incomplete

namespace Render

theorem ofTokens_unplaced (ts : List Token) :
    Literal.ofTokens (ts.map Token.unplaced) = Literal.ofTokens ts := by
  induction ts with
  | nil => rfl
  | cons t ts ih =>
    have ht : Literal.ofToken t.unplaced = Literal.ofToken t := rfl
    rw [List.map_cons, Literal.ofTokens, Literal.ofTokens, ht, ih]

theorem assignmentRows_unplaced (as : List (String × Token)) :
    assignmentRows (as.map (Prod.map id Token.unplaced)) = assignmentRows as := by
  induction as with
  | nil => rfl
  | cons a as ih =>
    have ha : assignmentCells (Prod.map id Token.unplaced a) = assignmentCells a := rfl
    rw [List.map_cons, assignmentRows, assignmentRows, ha, ih]

theorem toJson_unplaced (s : Statement) : toJson s.unplaced = toJson s := by
  have hsettings (t : Option Token) : (t.map Token.unplaced).map Token.text = t.map Token.text := by
    cases t <;> rfl
  have hvalues : s.unplaced.values = s.values.map Token.unplaced := rfl
  rw [toJson, toJson, hvalues, ofTokens_unplaced]
  simp only [Statement.unplaced, hsettings]

theorem cells_unplaced (s : Statement) : cells s.unplaced = cells s := by
  have hassignments : s.unplaced.assignments = s.assignments.map (Prod.map id Token.unplaced) :=
    List.zip_map_right ..
  rw [cells, cells, hassignments, assignmentRows_unplaced]
  rfl

theorem tableText_unplaced (colours : Bool) (width : Nat) (s : Statement) :
    tableText colours width s.unplaced = tableText colours width s := by
  have hclauses : clauses s.unplaced = clauses s := by
    rw [clauses, clauses, options_unplaced]
    rfl
  rw [tableText, tableText, cells_unplaced, hclauses]
  rfl

/-- No format shows where the tokens of a statement stood. -/
theorem statementText_unplaced (format : OutputFormat) (colours : Bool) (s : Statement) :
    statementText format colours s.unplaced = statementText format colours s := by
  cases format with
  | table => exact tableText_unplaced colours defaultWidth s
  | json => exact congrArg (Except.map Json.compact) (toJson_unplaced s)
  | jsonPretty => exact congrArg (Except.map Json.pretty) (toJson_unplaced s)
  | compact => exact congrArg Except.ok (text_unplaced s)

end Render

namespace Insert

/-- Two tokens in the same place that are no tokens give the same reading, if the walk does not
come to them, and else each gives its own error. -/
theorem readFrom_last {u v : Token} (hu : u.kind = .error) (hv : v.kind = .error) (s : State)
    (d : Draft) (ts : List Token) :
    readFrom s d (ts ++ [u]) = readFrom s d (ts ++ [v]) ∨
      readFrom s d (ts ++ [u]) = .error (.invalidToken u.text) ∧
        readFrom s d (ts ++ [v]) = .error (.invalidToken v.text) := by
  induction ts generalizing s d with
  | nil => exact .inr ⟨readFrom_error s d [] hu, readFrom_error s d [] hv⟩
  | cons t ts ih =>
    rw [List.cons_append, List.cons_append, readFrom, readFrom]
    by_cases ht : t.kind = .error
    · simp [ht]
    · rw [if_neg ht, if_neg ht]
      cases landing s (s.path t) with
      | moved next =>
        rcases ih next (d.applyPath t (s.path t)) with h | ⟨h, h'⟩
        · exact .inl (by simp only [h])
        · exact .inr (by simp only [h, h']; exact ⟨rfl, rfl⟩)
      | finished s' =>
        cases ts with
        | nil =>
          simp only [List.nil_append, readTrailing, hu, hv, if_true]
          exact .inr ⟨rfl, rfl⟩
        | cons t' ts => exact .inl rfl
      | refused s' => exact .inl rfl

end Insert

theorem readTokens_last {u v : Token} (hu : u.kind = .error) (hv : v.kind = .error)
    (ts : List Token) :
    readTokens (ts ++ [u]) = readTokens (ts ++ [v]) ∨
      readTokens (ts ++ [u]) = .error (.invalidToken u.text) ∧
        readTokens (ts ++ [v]) = .error (.invalidToken v.text) := by
  cases ts with
  | nil => simp [readTokens, hu, hv]
  | cons first ts =>
    rw [List.cons_append, List.cons_append, readTokens, readTokens]
    cases hk : first.kind with
    | keyword =>
      simp only
      split_ifs
      · exact readFrom_last hu hv .into {} ts
      · exact .inl rfl
      · exact .inl rfl
    | _ => exact .inl rfl

namespace Shell

/-- What is shown of a text depends on its solid tokens, and not on their places. -/
theorem renderInput_eq (format : OutputFormat) (colours : Bool) (input : String) :
    renderInput format colours input =
      readTokens (solid input.toList) >>= Reading.complete >>=
        Render.statementText format colours := by
  rw [renderInput, parse, ← solidTokens_unplaced, readTokens_unplaced, ← inspect_eq]
  cases inspect input with
  | error e => rfl
  | ok r =>
    show r.complete >>= _ = r.unplaced.complete >>= _
    rw [complete_unplaced]
    cases r.complete with
    | error e => rfl
    | ok s => exact (Render.statementText_unplaced format colours s).symm

section Trim

variable {b r s : List Char} {m : Mode}

theorem steps_blanks_quoted {q : Char} (hq : isQuote q = true) (hb : ∀ c ∈ b, isBlank c = true) :
    (Mode.quoted q false).steps b = some (.quoted q false) := by
  induction b with
  | nil => rfl
  | cons c b ih =>
    obtain ⟨hc, hb⟩ := List.forall_mem_cons.1 hb
    have hne : (c == q) = false := by
      rw [beq_eq_false_iff_ne]
      rintro rfl
      rw [isQuote_eq_false rfl hc] at hq
      cases hq
    simp [Mode.steps, Mode.step, hne, ih hb]

/-- An open quote takes the blanks behind it. -/
theorem endMode_open (h : endMode r = some m) (ho : isOpen r = true)
    (hb : ∀ c ∈ b, isBlank c = true) : endMode (r ++ b) = some m := by
  cases r with
  | nil => cases h
  | cons c r =>
    rw [isOpen_eq, h, Option.any_some] at ho
    have hstart := opening_endMode h
    cases m with
    | quoted q closing =>
      cases closing with
      | true => cases ho
      | false =>
        have hq := start_eq_quoted hstart.symm
        rw [endMode] at h
        rw [List.cons_append, endMode, Mode.steps_append, h, Option.bind_some]
        exact steps_blanks_quoted hq hb
    | _ => cases ho

theorem isBlank_of_mem (h : endMode r = some m) (hk : kind r = .whitespace) :
    ∀ c ∈ r, isBlank c = true := by
  cases r with
  | nil => cases h
  | cons c r =>
    have hblanks := blanks_of_endMode (isBlank_of_kind hk) (Option.isSome_of_eq_some h)
    exact (Form.mem_many_one.1 hblanks).2

theorem solid_of_blanks (hb : ∀ c ∈ b, isBlank c = true) : solid b = [] := by
  have hgap := solid_gap (s := []) hb rfl
  rwa [List.append_nil] at hgap

theorem solid_closed (h : endMode r = some m) (ho : isOpen r = false)
    (hb : ∀ c ∈ b, isBlank c = true) : solid (r ++ b) = solid r := by
  by_cases hk : kind r = .whitespace
  · have hr := isBlank_of_mem h hk
    rw [solid_of_blanks hr, solid_of_blanks (List.forall_mem_append.2 ⟨hr, hb⟩)]
  · cases b with
    | nil => rw [List.append_nil]
    | cons c b =>
      have hends := endsAt_blank h ho hk (hb c List.mem_cons_self) b
      rw [solid_append h hends hk, solid_of_blanks hb, solid_single h hk]

/-- Blanks behind a text change its last token, if the quote of that is open, and no other. -/
theorem solid_append_blanks (s : List Char) (hb : ∀ c ∈ b, isBlank c = true) :
    solid (s ++ b) = solid s ∨
      ∃ ts r, isOpen r = true ∧ isOpen (r ++ b) = true ∧ solid s = ts ++ [token r] ∧
        solid (s ++ b) = ts ++ [token (r ++ b)] ∧ (split (s ++ b)).getLast? = some (r ++ b) := by
  rcases List.eq_nil_or_concat (split s) with hs | ⟨rs, r, hs⟩
  · have hnil := split_flatten s
    rw [hs] at hnil
    rw [← hnil, List.flatten_nil, List.nil_append, solid_of_blanks hb]
    exact .inl rfl
  · rw [List.concat_eq_append] at hs
    obtain ⟨m, hm⟩ := Option.isSome_iff_exists.1 (endMode_split s r (by simp [hs]))
    have hsplit := split_append_last b hs
    obtain ⟨ts, hts⟩ : ∃ ts, ∀ x q, split x = rs ++ split q → solid x = ts ++ solid q := by
      refine ⟨(rs.map token).filter fun t => t.kind != .whitespace, fun x q hx => ?_⟩
      rw [solid, hx, List.map_append, List.filter_append, solid]
    have hfront : solid s = ts ++ solid r := hts s r (by rw [hs, split_single hm])
    have hback : solid (s ++ b) = ts ++ solid (r ++ b) := hts (s ++ b) (r ++ b) hsplit
    rw [hfront, hback]
    by_cases ho : isOpen r = true
    · have hend := endMode_open hm ho hb
      have ho' : isOpen (r ++ b) = true := by
        rwa [isOpen_eq, hend, ← hm, ← isOpen_eq]
      have hk {q : List Char} (hq : isOpen q = true) : kind q ≠ .whitespace := by
        simp [kind, hq]
      refine .inr ⟨ts, r, ho, ho', ?_, ?_, ?_⟩
      · rw [solid_single hm (hk ho)]
      · rw [solid_single hend (hk ho')]
      · rw [hsplit, split_single hend, List.getLast?_concat]
    · rw [solid_closed hm (Bool.eq_false_iff.2 ho) hb]
      exact .inl rfl

theorem split_gap_last {a : List Char} (ha : ∀ c ∈ a, isBlank c = true) (hs : s ≠ [])
    (hends : Mode.blanks.endsAt s = true) : (split (a ++ s)).getLast? = (split s).getLast? := by
  cases a with
  | nil => rfl
  | cons c a =>
    obtain ⟨d, s, rfl⟩ := List.exists_cons_of_ne_nil hs
    rw [split_append (endMode_blanks ha) hends]
    rfl

theorem trim_cons (h : trim s ≠ []) : ∃ c t, trim s = c :: t ∧ isBlank c = false := by
  rcases dropWhile_cases isBlank s with hs | ⟨c, t, hs, hc⟩
  · exact absurd (by rw [trim, hs]; rfl) h
  · exact ⟨c, dropEndWhile isBlank t, by rw [trim, hs, dropEndWhile_cons hc], hc⟩

/-- The blanks around a text change its last token, if the quote of that is open, and no other. -/
theorem solid_trim (h : trim s ≠ []) :
    solid s = solid (trim s) ∨
      ∃ ts r q, isOpen r = true ∧ isOpen q = true ∧ solid (trim s) = ts ++ [token r] ∧
        solid s = ts ++ [token q] ∧ (split s).getLast? = some q := by
  obtain ⟨a, b, ha, hb, hs⟩ := exists_trim s
  obtain ⟨c, t, ht, hc⟩ := trim_cons h
  have hends : Mode.blanks.endsAt (trim s ++ b) = true := by
    rw [ht]
    simp [Mode.endsAt, Mode.step, hc]
  have hsolid : solid s = solid (trim s ++ b) := by
    conv_lhs => rw [hs, solid_gap ha hends]
  have hlast : (split s).getLast? = (split (trim s ++ b)).getLast? := by
    conv_lhs => rw [hs, split_gap_last ha (by simp [ht]) hends]
  rw [hsolid, hlast]
  rcases solid_append_blanks (trim s) hb with hsame | ⟨ts, r, ho, ho', hr, hq, hend⟩
  · exact .inl hsame
  · exact .inr ⟨ts, r, r ++ b, ho, ho', hr, hq, hend⟩

/-- An open run at the end of an input is its last token before the end. -/
theorem exists_last_token {input : String} (hlast : (split input.toList).getLast? = some r)
    (ho : isOpen r = true) :
    ∃ t, (tokenize input).dropLast.getLast? = some t ∧ t.kind = .error ∧
      (∃ q ∈ t.text.toList.head?, isQuote q = true) ∧ t.text = (token r).text := by
  rw [← split_scan, List.getLast?_map, Option.map_eq_some_iff] at hlast
  obtain ⟨l, hl, rfl⟩ := hlast
  have hrun := endMode_scan input.toList l (List.mem_of_getLast? hl)
  obtain ⟨hkind, hquote⟩ := (isOpen_token hrun).1 ho
  refine ⟨l.token, ?_, hkind, hquote, rfl⟩
  rw [getLast?_tokens, hl, Option.map_some]

end Trim

end Shell

open CqlConsole.Shell

/-- A text that is no command and not blank is shown the same way whether it comes as an argument
or as a line of the session, or it fails both times for the same cause. The errors are the same as
well, unless it is the last token of the text that is no token, because its quote is open. -/
theorem answer_agrees (d : Settings.Display) {line : String} (hblank : trim line.toList ≠ [])
    (hcommand : command? line = none) :
    (∃ text, renderInput d.format d.colours line = .ok text ∧
      answer d.format d.colours line = .ok (.output text)) ∨
    ∃ e e', renderInput d.format d.colours line = .error e ∧
      answer d.format d.colours line = .error e' ∧ e'.cause = e.cause ∧
      (e' = e ∨ ∃ t, (tokenize line).dropLast.getLast? = some t ∧ t.kind = .error ∧
        (∃ q ∈ t.text.toList.head?, isQuote q = true) ∧ e = .invalidToken t.text) := by
  have hanswer : answer d.format d.colours line =
      (renderInput d.format d.colours (String.ofList (trim line.toList))).map .output := by
    simp [answer, hblank, hcommand]
  rw [hanswer, renderInput_eq, renderInput_eq, String.toList_ofList]
  have hsame {x : Except SyntaxError String} :
      (∃ text, x = .ok text ∧ x.map Answer.output = .ok (.output text)) ∨
      ∃ e e', x = .error e ∧ x.map Answer.output = .error e' ∧ e'.cause = e.cause ∧
        (e' = e ∨ ∃ t, (tokenize line).dropLast.getLast? = some t ∧ t.kind = .error ∧
          (∃ q ∈ t.text.toList.head?, isQuote q = true) ∧ e = .invalidToken t.text) := by
    cases x with
    | ok text => exact .inl ⟨text, rfl, rfl⟩
    | error e => exact .inr ⟨e, e, rfl, rfl, rfl, .inl rfl⟩
  rcases solid_trim hblank with hsolid | ⟨ts, r, q, hr, hq, htrim, hline, hlast⟩
  · rw [hsolid]
    exact hsame
  · have hkind {q : List Char} (hq : isOpen q = true) : (token q).kind = .error := by
      show kind q = .error
      rw [kind, if_pos hq]
    rw [htrim, hline]
    rcases readTokens_last (hkind hr) (hkind hq) ts with heq | ⟨her, heq⟩
    · rw [heq]
      exact hsame
    · rw [her, heq]
      obtain ⟨t, ht, hterror, hquote, htext⟩ := exists_last_token hlast hq
      exact .inr ⟨_, _, rfl, rfl, rfl, .inr ⟨t, ht, hterror, hquote, by rw [htext]⟩⟩

/-- With blanks behind an open quote, the two errors show different texts. -/
theorem answer_agrees_open :
    let line := " insert into t (a) values ('x "
    trim line.toList ≠ [] ∧ command? line = none ∧
      ∃ e e', renderInput .json true line = .error e ∧ answer .json true line = .error e' ∧
        e = .invalidToken "'x " ∧ e' = .invalidToken "'x" ∧ e'.cause = e.cause := by
  intro line
  have hblank : trim line.toList ≠ [] := by decide
  have hcommand : command? line = none := by decide +kernel
  have hrender : renderInput .json true line = .error (.invalidToken "'x ") := by decide +kernel
  have hanswer : answer .json true line = .error (.invalidToken "'x") := by decide +kernel
  refine ⟨hblank, hcommand, _, _, hrender, hanswer, rfl, rfl, ?_⟩
  rcases answer_agrees { format := .json } hblank hcommand with
    ⟨text, hok, -⟩ | ⟨e, e', he, he', h, -⟩
  · rw [hrender] at hok
    cases hok
  · rw [hrender] at he
    rw [hanswer] at he'
    cases he
    cases he'
    exact h

end CqlConsole
