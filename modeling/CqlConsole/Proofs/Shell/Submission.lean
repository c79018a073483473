import CqlConsole.Proofs.Insert.Balance
import CqlConsole.Proofs.Shell.Openings
import CqlConsole.Proofs.Token.Growth
import CqlConsole.Shell.Session

/-!
# What the editor submits

Whether a text is ready is found without a parser, and the answer fits what the
parser says of it: a text that the session can answer is ready, and one that
breaks off inside of a list goes on in another line.
-/

set_option autoImplicit false

namespace CqlConsole

open CqlConsole.Text CqlConsole.Run CqlConsole.Insert

namespace Shell

section Trim

variable {p : Char → Bool} {c : Char}

theorem exists_dropEndWhile (p : Char → Bool) (s : List Char) :
    ∃ e, (∀ c ∈ e, p c = true) ∧ s = dropEndWhile p s ++ e := by
  refine ⟨(s.reverse.takeWhile p).reverse, fun c hc => ?_, ?_⟩
  · exact List.mem_takeWhile_imp (List.mem_reverse.1 hc)
  · rw [dropEndWhile, ← List.reverse_append, List.takeWhile_append_dropWhile, List.reverse_reverse]

/-- The end is only dropped as far as a character that stays. -/
theorem dropEndWhile_cons (h : p c = false) (s : List Char) :
    dropEndWhile p (c :: s) = c :: dropEndWhile p s := by
  rw [dropEndWhile, dropEndWhile, List.reverse_cons, List.dropWhile_append]
  split_ifs with hs
  · simp [List.isEmpty_iff.1 hs, h]
  · rw [List.reverse_append]
    rfl

theorem exists_trim (s : List Char) :
    ∃ a b, (∀ c ∈ a, isBlank c = true) ∧ (∀ c ∈ b, isBlank c = true) ∧ s = a ++ (trim s ++ b) := by
  obtain ⟨b, hb, hs⟩ := exists_dropEndWhile isBlank (s.dropWhile isBlank)
  refine ⟨s.takeWhile isBlank, b, fun c hc => List.mem_takeWhile_imp hc, hb, ?_⟩
  rw [trim, ← hs, List.takeWhile_append_dropWhile]

end Trim

section Neutral

variable {c : Char} {s t : List Char}

theorem openings_concat (s : List Char) (c : Char) :
    openings (s ++ [c]) = (openings s).step c := by
  rw [openings, List.foldl_append]
  rfl

theorem quote_mem_signs (s : List Char) : ∀ q ∈ (openings s).quote, q ∈ signs := by
  induction s using List.reverseRecOn with
  | nil => rintro q ⟨⟩
  | append_singleton s c ih =>
    rw [openings_concat, Openings.step]
    split
    · split_ifs
      · rintro q ⟨⟩
      · exact ih
    · split_ifs with hc
      · rintro q ⟨⟩
        rcases hc with rfl | rfl <;> decide
      all_goals exact ih

/-- What opens or closes nothing is read over, between quotes as well. -/
theorem openings_append (h : ∀ c ∈ t, c ∉ signs) : openings (s ++ t) = openings s := by
  induction t generalizing s with
  | nil => rw [List.append_nil]
  | cons c t ih =>
    obtain ⟨hc, ht⟩ := List.forall_mem_cons.1 h
    have hstep : (openings s).step c = openings s := by
      have hquote := quote_mem_signs s
      cases hs : openings s with
      | mk quote depth =>
        cases quote with
        | none => exact step_neutral hc
        | some q =>
          have hne : c ≠ q := by
            rintro rfl
            exact hc (hquote c (by simp [hs]))
          simp [Openings.step, hne]
    rw [List.append_cons, ih ht, openings_concat, hstep]

theorem openings_trim (s : List Char) : openings (trim s) = openings s := by
  obtain ⟨a, b, ha, hb, hs⟩ := exists_trim s
  have hneutral {t : List Char} (ht : ∀ c ∈ t, isBlank c = true) : ∀ c ∈ t, c ∉ signs :=
    fun c hc => not_mem_of_class rfl (ht c hc)
  have hfront : openings a = {} := openings_append (s := []) (hneutral ha)
  have hline : openings s = openings (a ++ trim s) := by
    conv_lhs => rw [hs, ← List.append_assoc, openings_append (hneutral hb)]
  rw [hline, openings, openings, List.foldl_append, ← openings, ← openings, hfront]
  rfl

end Neutral

section Semicolon

variable {r s t : List Char} {m : Mode}

theorem endsAt_semicolon (h : endMode r = some m) (ho : isOpen r = false) (s : List Char) :
    m.endsAt (';' :: s) = true := by
  by_cases hw : kind r = .whitespace
  · rw [endMode_of_whitespace h hw]
    rfl
  · exact endsAt_of_separates h ho hw rfl

theorem split_semicolon (h : (openings s).quote = none) (t : List Char) :
    split (s ++ ';' :: t) = split s ++ [';'] :: split t := by
  have hmark : split (';' :: t) = [';'] :: split t :=
    split_append (r := [';']) (m := .punctuation) rfl (by cases t <;> rfl)
  have hquote := (openings_split s).1
  rw [h] at hquote
  rcases List.eq_nil_or_concat (split s) with hs | ⟨rs, r, hs⟩
  · have hnil := split_flatten s
    rw [hs] at hnil
    rw [← hnil, List.flatten_nil, List.nil_append, hmark]
    rfl
  · rw [List.concat_eq_append] at hs
    rw [hs, List.getLast?_concat] at hquote
    obtain ⟨m, hm⟩ := Option.isSome_iff_exists.1 (endMode_split s r (by simp [hs]))
    rw [split_append_last (';' :: t) hs, split_append hm (endsAt_semicolon hm hquote.symm t), hmark,
      hs, List.append_assoc]
    rfl

end Semicolon

section Solid

variable {s : List Char}

theorem depth_openings (s : List Char) :
    (openings s).depth = .ofInt (Token.depth (solid s)) := by
  rw [(openings_split s).2, solid, Token.depth_solid]

theorem quote_eq_none (h : ∀ t ∈ solid s, t.kind ≠ .error) : (openings s).quote = none := by
  rw [← Option.not_isSome_iff_eq_none, (openings_split s).1, Option.any_eq_true]
  rintro ⟨r, hr, hopen⟩
  have hkind : (token r).kind = .error := by
    show kind r = .error
    rw [kind, if_pos hopen]
  refine h (token r) ?_ hkind
  rw [solid, List.mem_filter]
  exact ⟨List.mem_map_of_mem (List.mem_of_getLast? hr), by simp [hkind]⟩

/-- Where no token is an error, what is open is counted by the tokens. -/
theorem openings_eq {line : String} (h : ∀ t ∈ solidTokens line, t.kind ≠ .error) :
    openings line.toList = ⟨none, .ofInt (Token.depth (solidTokens line))⟩ := by
  have hsolid := solidTokens_unplaced line
  have hquote : (openings line.toList).quote = none := by
    refine quote_eq_none fun t ht => ?_
    rw [← hsolid] at ht
    obtain ⟨u, hu, rfl⟩ := List.mem_map.1 ht
    exact h u hu
  have hdepth := depth_openings line.toList
  rw [← hsolid, Token.depth_unplaced] at hdepth
  rw [← hquote, ← hdepth]

theorem openings_of_complete {line : String} (h : Balanced 0 (solidTokens line) .complete) :
    openings line.toList = {} := by
  obtain ⟨hdepth, hkinds⟩ := h
  rw [Int.zero_add] at hdepth
  rw [openings_eq hkinds, hdepth]
  rfl

theorem openings_of_incomplete {line : String} {st : State}
    (h : Balanced 0 (solidTokens line) (.incomplete st)) :
    openings line.toList = ⟨none, .ofInt st.depth⟩ := by
  obtain ⟨hdepth, -, hkinds⟩ := h
  rw [Int.zero_add] at hdepth
  rw [openings_eq fun t ht => (hkinds t ht).1, hdepth]

/-- A line that breaks off does not end with a terminator. -/
theorem getLast?_of_incomplete {line : String} {st : State}
    (h : Balanced 0 (solidTokens line) (.incomplete st)) :
    (trim line.toList).getLast? ≠ some ';' := by
  -- At the end it would be a token by itself, and the walk that read it would not break off.
  intro hlast
  obtain ⟨a, b, -, hb, hline⟩ := exists_trim line.toList
  obtain ⟨p, hp⟩ := List.getLast?_eq_some_iff.1 hlast
  have hopen := openings_of_incomplete h
  rw [hp, List.append_assoc, List.singleton_append, ← List.append_assoc] at hline
  have hbefore : (openings (a ++ p)).quote = none := by
    have hrest : ∀ c ∈ ';' :: b, c ∉ signs :=
      List.forall_mem_cons.2 ⟨by decide, fun c hc => not_mem_of_class rfl (hb c hc)⟩
    rw [hline, openings_append hrest] at hopen
    rw [hopen]
  have hmem : token [';'] ∈ solid line.toList := by
    rw [solid, List.mem_filter, hline, split_semicolon hbefore]
    refine ⟨List.mem_map_of_mem ?_, rfl⟩
    exact List.mem_append_right _ List.mem_cons_self
  rw [← solidTokens_unplaced, List.mem_map] at hmem
  obtain ⟨t, ht, hunplaced⟩ := hmem
  refine (h.2.2 t ht).2 ?_
  show t.unplaced.kind = .semicolon
  rw [hunplaced]
  rfl

end Solid

section Command

theorem exists_solid_cons {c : Char} (h : isBlank c = false) (s : List Char) :
    ∃ r ts, solid (c :: s) = token (c :: r) :: ts := by
  have hkind : (token (c :: (splitFrom (.start c) s).1)).kind ≠ .whitespace := by
    intro hspace
    rw [isBlank_of_kind hspace] at h
    cases h
  refine ⟨(splitFrom (.start c) s).1,
    ((splitFrom (.start c) s).2.map token).filter fun t => t.kind != .whitespace, ?_⟩
  rw [solid, split, List.map_cons, List.filter_cons_of_pos (by simp [hkind])]

theorem dropWhile_cases (p : Char → Bool) (s : List Char) :
    s.dropWhile p = [] ∨ ∃ c t, s.dropWhile p = c :: t ∧ p c = false := by
  have hhead := List.head?_dropWhile_not p s
  cases hrest : s.dropWhile p with
  | nil => exact Or.inl rfl
  | cons c t =>
    rw [hrest] at hhead
    exact Or.inr ⟨c, t, rfl, hhead⟩

theorem solid_dropWhile (s : List Char) : solid (s.dropWhile isBlank) = solid s := by
  have hends : Mode.blanks.endsAt (s.dropWhile isBlank) = true := by
    rcases dropWhile_cases isBlank s with hrest | ⟨c, t, hrest, hc⟩ <;> rw [hrest]
    · rfl
    · simp [Mode.endsAt, Mode.step, hc]
  have hgap : solid (s.takeWhile isBlank ++ s.dropWhile isBlank) = solid (s.dropWhile isBlank) :=
    solid_gap (fun _ hc => List.mem_takeWhile_imp hc) hends
  rw [← hgap, List.takeWhile_append_dropWhile]

/-- A line that holds a statement begins with the letter of its keyword, behind blanks. -/
theorem trim_of_inspect {line : String} {r : Insert.Reading} (h : inspect line = .ok r) :
    ∃ c s, trim line.toList = c :: s ∧ c.toLower = 'i' := by
  obtain ⟨first, ts, hsolid, hinsert⟩ := insert_of_inspect h
  simp only [Token.isKeyword, Token.is, Bool.and_eq_true, beq_iff_eq] at hinsert
  have hline : solid (line.toList.dropWhile isBlank) = first.unplaced :: ts.map Token.unplaced := by
    rw [solid_dropWhile, ← solidTokens_unplaced, hsolid, List.map_cons]
  rcases dropWhile_cases isBlank line.toList with hrest | ⟨c, s, hrest, hc⟩
  · rw [hrest] at hline
    cases hline
  · obtain ⟨q, us, hq⟩ := exists_solid_cons hc s
    rw [hrest, hq] at hline
    have hfirst := (List.cons.inj hline).1
    have hkind : kind (c :: q) = .keyword := (congrArg Token.kind hfirst).trans hinsert.1
    have htext : String.ofList (lower (c :: q)) = "insert" := by
      have htext := (congrArg Token.text hfirst).trans hinsert.2
      simpa [token, Lexeme.token, Lexeme.text, Lexeme.kind, Token.unplaced, hkind] using htext
    have hletters := String.ofList_inj.1 (htext.trans String.ofList_toList.symm)
    refine ⟨c, dropEndWhile isBlank s, ?_, (List.cons.inj hletters).1⟩
    rw [trim, hrest, dropEndWhile_cons hc]

theorem command?_of_inspect {line : String} {r : Insert.Reading} (h : inspect line = .ok r) :
    command? line = none := by
  obtain ⟨c, s, htrim, hc⟩ := trim_of_inspect h
  have hsemicolon : (c == ';') = false := by
    rw [beq_eq_false_iff_ne]
    rintro rfl
    cases hc
  have hblank : isBlank c = false := by
    rw [Bool.eq_false_iff]
    intro hb
    rw [toLower_of_isBlank hb] at hc
    rw [hc] at hb
    cases hb
  obtain ⟨t, ht⟩ : ∃ t, commandWord line.toList = 'i' :: t := by
    rw [commandWord, htrim, dropEndWhile_cons (p := (· == ';')) hsemicolon,
      dropEndWhile_cons hblank, lower, List.map_cons, hc]
    exact ⟨_, rfl⟩
  simp [command?, ht]

end Command

theorem isReady_eq {line : String} {r : Insert.Reading} (h : inspect line = .ok r) :
    isReady line = ((openings line.toList).quote.isNone &&
      ((trim line.toList).getLast? == some ';' || (openings line.toList).depth ≤ 0)) := by
  obtain ⟨c, s, htrim, -⟩ := trim_of_inspect h
  have hne : (trim line.toList).isEmpty = false := by rw [htrim]; rfl
  rw [isReady, command?_of_inspect h, hne, ← openings_trim line.toList]
  rfl

theorem depth_openLists {st : State} (h : st ∉ State.closings) :
    Int32.ofInt st.depth ≤ 0 ↔ st ∉ State.openLists := by
  revert h
  cases st <;> decide

/-- What is parsed is complete, and so is everything that it opens. -/
theorem openings_of_parse {input : String} {s : Insert.Statement} (h : parse input = .ok s) :
    openings input.toList = {} := by
  cases hr : inspect input with
  | error e => simp [parse, hr, bind, Except.bind] at h
  | ok r =>
    have hbalanced := balanced_inspect hr
    have hcomplete : r.complete = .ok s := by rwa [parse, hr] at h
    rw [Insert.Reading.complete] at hcomplete
    split at hcomplete
    · rename_i houtcome
      rw [houtcome] at hbalanced
      exact openings_of_complete hbalanced
    all_goals cases hcomplete

theorem isReady_of_parse {line : String} {s : Insert.Statement}
    (h : parse (String.ofList (trim line.toList)) = .ok s) : isReady line = true := by
  have hopen := openings_of_parse h
  rw [String.toList_ofList] at hopen
  simp [isReady, hopen]

theorem isReady_of_incomplete {line : String} {r : Insert.Reading} {st : State}
    (h : inspect line = .ok r) (hr : r.outcome = .incomplete st) :
    isReady line = false ↔ st ∈ State.openLists := by
  have hbalanced := balanced_inspect h
  rw [hr] at hbalanced
  have hlast := getLast?_of_incomplete hbalanced
  have hdepth := depth_openLists hbalanced.2.1
  have hready : isReady line = decide (Int32.ofInt st.depth ≤ 0) := by
    simp [isReady_eq h, openings_of_incomplete hbalanced, hlast]
  rw [hready, decide_eq_false_iff_not, hdepth, not_not]

end Shell

open CqlConsole.Shell

/-- A line that the session answers is ready to run. One that breaks off in a statement goes on in
another line exactly if it breaks off inside of a list. -/
theorem isReady_answer (line : String) :
    (∀ format colours a, answer format colours line = .ok a → isReady line = true) ∧
    ∀ r st, inspect line = .ok r → r.outcome = .incomplete st →
      (isReady line = false ↔ st ∈ State.openLists) := by
  constructor
  · intro format colours a h
    rw [answer] at h
    split_ifs at h with hempty
    · simp [isReady, hempty]
    · split at h
      · rename_i hcommand
        simp [isReady, hcommand]
      · rename_i hcommand
        simp [isReady, hcommand]
      · cases hparse : parse (String.ofList (trim line.toList)) with
        | error e => simp [renderInput, hparse, bind, Except.bind, Except.map] at h
        | ok s => exact isReady_of_parse hparse
  · intro r st h hr
    exact isReady_of_incomplete h hr

/-- A statement without a terminator, with signs in its text, and one that breaks off behind a
comma. -/
theorem isReady_answer_insert :
    isReady "insert into t (a) values (')'';')" = true ∧ isReady "insert into t (a," = false := by
  have hanswer : answer .compact false "insert into t (a) values (')'';')" =
      .ok (.output "INSERT INTO t (a) VALUES (')'';');") := rfl
  constructor
  · exact (isReady_answer _).1 .compact false _ hanswer
  · exact ((isReady_answer "insert into t (a,").2 _ .nextColumn rfl rfl).2 (by decide)

end CqlConsole
