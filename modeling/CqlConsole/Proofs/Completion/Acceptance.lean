import CqlConsole.Proofs.Completion.Places

/-!
# Accepting an offer

A text with an offer appended to it is still the start of a statement, if the
catalog only holds names and no keyword was typed where a name belongs. The
offer goes on with the last token of the text or stands behind it, and the
tokens in front of the last one stay as they are.
-/

set_option autoImplicit false

namespace CqlConsole.Completion

open CqlConsole.Insert CqlConsole.Run CqlConsole.Text

section Offers

variable {catalog : Catalog} {p next : Place} {names names' : Names} {l : Lexeme} {u : String}

/-- Every answer of the catalog consists of names. -/
def Catalog.Named (catalog : Catalog) : Prop :=
  ∀ query answer, catalog query = .ok answer → ∀ n ∈ answer, IsName n

theorem isName_of_candidates (hnamed : Catalog.Named catalog) {query : Query} {cs : List String}
    (h : candidates catalog names query = .ok cs) : ∀ n ∈ cs, IsName n := by
  rw [candidates_eq] at h
  cases hanswer : catalog query with
  | error e => simp [hanswer, Except.map] at h
  | ok answer =>
    intro n hn
    simp only [hanswer, Except.map, Except.ok.injEq] at h
    rw [← h, List.mem_filter] at hn
    exact hnamed query answer hanswer n hn.1

theorem takes_token {s s' : State} {n : Nat} {r : List Char}
    (h : Takes s (Lexeme.token ⟨n, r⟩) s') : Takes s (token r) s' := by
  have htoken : token r = (Lexeme.token ⟨n, r⟩).unplaced := rfl
  rw [htoken]
  simpa only [Takes, react_unplaced] using h

/-- What is offered at a place is a space, or one token that the parser takes. -/
theorem offer_cases (hnamed : Catalog.Named catalog) (h : u ∈ (atEnd catalog names p).offers) :
    (u = " " ∧ ∃ next, p.demand names = .gap next) ∨
      (solid u.toList = [token u.toList] ∧ kind u.toList ≠ .whitespace ∧
        ∃ s, Takes p.state (token u.toList) s) := by
  rw [atEnd] at h
  cases hp : p.demand names with
  | gap next => exact Or.inl ⟨by simpa [hp] using h, next, rfl⟩
  | word word next =>
    obtain rfl : u = word := by simpa [hp] using h
    obtain ⟨hlower, hkind, hmode⟩ := piece_of_wanted hp
    obtain ⟨m, hm⟩ := Option.isSome_iff_exists.1 hmode
    have htakes : Takes p.state (Lexeme.token ⟨0, u.toList⟩) next.state :=
      (passes_word hp hlower).takes
    exact Or.inr ⟨solid_single hm hkind, hkind, next.state, takes_token htakes⟩
  | name query next =>
    cases hcs : candidates catalog names query with
    | error e => simp [hp, hcs, degrade] at h
    | ok cs =>
      have hname := isName_of_candidates hnamed hcs u (by simpa [hp, hcs] using h)
      obtain ⟨hsolid, hkind⟩ := solid_of_isName hname
      have htoken : (token u.toList).kind = .identifier := hkind
      exact Or.inr ⟨hsolid, by simp [hkind], _, (passes_name hp htoken).takes⟩
  | moreColumns =>
    obtain rfl := demand_more hp
    have hu : u = "," ∨ u = ")" := by simpa [hp] using h
    obtain ⟨hsolid, hkind⟩ : solid u.toList = [token u.toList] ∧ kind u.toList ≠ .whitespace := by
      rcases hu with rfl | rfl
      · decide
      · decide
    obtain ⟨s, htakes⟩ : ∃ s, Takes Place.afterColumn.state (Lexeme.token ⟨0, u.toList⟩) s := by
      rcases hu with rfl | rfl
      · exact ⟨_, (passes_comma (by decide)).takes⟩
      · exact ⟨_, (passes_close (by decide)).takes⟩
    exact Or.inr ⟨hsolid, hkind, s, takes_token htakes⟩
  | nothing => simp [hp] at h

theorem reads_offer (hnamed : Catalog.Named catalog) (h : u ∈ (atEnd catalog names p).offers) :
    Reads p.state (solid u.toList) := by
  rcases offer_cases hnamed h with ⟨rfl, -⟩ | ⟨hsolid, -, s, htakes⟩
  · exact reads_nil p.state
  · rw [hsolid, reads_of_takes htakes]
    exact reads_nil s

theorem endsAt_of_sign {c : Char} {m : Mode} (h : l.source = [c]) (hc : isPunctuation c = true)
    (hm : endMode l.source = some m) (s : List Char) : m.endsAt s = true := by
  have hmode : endMode l.source = some .punctuation := by
    simp [h, endMode, Mode.start, hc, Mode.steps]
  obtain rfl := Option.some.inj (hmode.symm.trans hm)
  cases s <;> rfl

theorem endsAt_of_word {word : String} {m : Mode} {c : Char} (h : lower l.source = word.toList)
    (hword : word = "into" ∨ word = "values") (hm : endMode l.source = some m)
    (hc : isPunctuation c = true ∨ isBlank c = true) (s : List Char) :
    m.endsAt (c :: s) = true := by
  have hmode := endMode_of_isPlainName (keyword_of_lower h hword).1
  obtain rfl := Option.some.inj (hmode.symm.trans hm)
  rcases hc with hc | hc <;> simp [Mode.endsAt, Mode.step, hc]

theorem endsAt_offer {m : Mode} (hfits : Fits p names l next names')
    (hname : ∀ query q, p.demand names = .name query q → l.kind = .identifier)
    (hm : endMode l.source = some m) (h : u ∈ (atEnd catalog names' next).offers) :
    m.endsAt u.toList = true := by
  cases hfits with
  | word hp hl =>
    rcases demand_word_cases hp with ⟨-, rfl, rfl⟩ | ⟨-, rfl, rfl⟩ | ⟨-, rfl, rfl⟩ |
      ⟨-, rfl, rfl⟩ | ⟨-, rfl, rfl⟩
    · obtain rfl : u = " " := by simpa [atEnd, Place.demand] using h
      exact endsAt_of_word hl (Or.inl rfl) hm (Or.inr rfl) []
    · exact endsAt_of_sign (eq_of_lower_sign hl rfl) rfl hm u.toList
    · exact endsAt_of_sign (eq_of_lower_sign hl rfl) rfl hm u.toList
    · obtain rfl : u = "(" := by simpa [atEnd, Place.demand] using h
      exact endsAt_of_word hl (Or.inr rfl) hm (Or.inl rfl) []
    · exact endsAt_of_sign (eq_of_lower_sign hl rfl) rfl hm u.toList
  | name hp hl =>
    have hkind : kind l.source = .identifier := hname _ _ hp
    rcases demand_name_cases hp with ⟨-, -, rfl⟩ | ⟨-, -, rfl⟩ | ⟨-, -, rfl⟩
    · obtain rfl : u = "." := by simpa [atEnd, Place.demand] using h
      exact endsAt_mark hm hkind rfl []
    · obtain rfl : u = "(" := by simpa [atEnd, Place.demand] using h
      exact endsAt_mark hm hkind rfl []
    · have hu : u = "," ∨ u = ")" := by simpa [atEnd, Place.demand] using h
      rcases hu with rfl | rfl
      · exact endsAt_mark hm hkind rfl []
      · exact endsAt_mark hm hkind rfl []
  | comma hp hl =>
    have hkind : kind l.source = .comma := hl
    obtain rfl : u = " " := by simpa [atEnd, Place.demand] using h
    have ho : isOpen l.source = false := isOpen_of_kind (by simp [hkind])
    exact endsAt_of_separates hm ho (by simp [hkind]) rfl
  | close hp hl => exact endsAt_of_sign hl rfl hm u.toList

theorem lower_matchCase (typed : List Char) {rest : List Char}
    (h : ∀ c ∈ rest, c.toLower = c ∧ c.toUpper.toLower = c) :
    lower (matchCase typed rest) = rest := by
  rw [matchCase]
  split
  · rw [upper, lower, List.map_map]
    exact (List.map_congr_left fun c hc => (h c hc).2).trans (List.map_id' rest)
  · rw [lower, List.map_congr_left fun c hc => (h c hc).1, List.map_id']

/-- The rest of a fixed word completes it in any case of its letters. -/
theorem lower_completed {word : String} (hp : p.demand names = .word word next)
    (h : (lower l.source).isPrefixOf word.toList = true) :
    lower (l.source ++ matchCase l.source (word.toList.drop (lower l.source).length)) =
      word.toList := by
  have hall : ∀ w ∈ wantedWords,
      (w.toList.all fun c => c.toLower == c && c.toUpper.toLower == c) = true := by decide
  have hrest : ∀ c ∈ word.toList.drop (lower l.source).length,
      c.toLower = c ∧ c.toUpper.toLower = c := by
    intro c hc
    simpa using List.all_eq_true.1 (hall word (mem_wantedWords hp)) c (List.mem_of_mem_drop hc)
  rw [List.isPrefixOf_iff_prefix] at h
  rw [lower, List.map_append, ← lower, ← lower, lower_matchCase l.source hrest]
  exact (List.prefix_append_drop h).symm

theorem solid_of_word {word : String} {s : List Char} (hp : p.demand names = .word word next)
    (h : lower s = word.toList) : solid s = [token s] := by
  have hkeyword : word = "into" ∨ word = "values" → solid s = [token s] := by
    intro hword
    obtain ⟨hplain, hkind⟩ := keyword_of_lower h hword
    exact solid_single (endMode_of_isPlainName hplain) (by simp [hkind])
  have hsign : word = "." ∨ word = "(" → solid s = [token s] := by
    rintro (rfl | rfl)
    · rw [eq_of_lower_sign h rfl]
      decide
    · rw [eq_of_lower_sign h rfl]
      decide
  rcases demand_word_cases hp with ⟨-, hw, -⟩ | ⟨-, hw, -⟩ | ⟨-, hw, -⟩ | ⟨-, hw, -⟩ | ⟨-, hw, -⟩
  · exact hkeyword (Or.inl hw)
  · exact hsign (Or.inl hw)
  · exact hsign (Or.inr hw)
  · exact hkeyword (Or.inr hw)
  · exact hsign (Or.inr hw)

/-- A fixed word at the end of a text is there in full and left behind, or what it lacks is offered. -/
theorem last_word {word : String} (hl : l.kind ≠ .whitespace)
    (hp : p.afterGap.demand names = .word word next)
    (h : u ∈ (walk catalog p names [l]).offers) :
    (lower l.source = word.toList ∧ u ∈ (atEnd catalog names next).offers) ∨
      (lower l.source).isPrefixOf word.toList = true ∧
        u.toList = matchCase l.source (word.toList.drop (lower l.source).length) := by
  rw [walk, if_neg hl, Place.read, hp] at h
  by_cases hfull : lower l.source = word.toList
  · left
    simp only [onWord, if_pos hfull] at h
    exact ⟨hfull, h⟩
  · by_cases hpart : (lower l.source).isPrefixOf word.toList = true
    · right
      simp only [onWord, hfull, hpart, if_false, List.isEmpty_nil, Bool.and_self, if_true,
        List.mem_singleton] at h
      rw [h, String.toList_ofList]
      exact ⟨hpart, rfl⟩
    · simp [onWord, hfull, hpart, refuse] at h

/-- A name at the end of a text is there in full and left behind, or a name that goes on with it is
offered. -/
theorem last_name {query : Query} (hnamed : Catalog.Named catalog) (hword : isWord l = true)
    (hp : p.afterGap.demand names = .name query next)
    (h : u ∈ (walk catalog p names [l]).offers) :
    (l.kind = .identifier ∧
      u ∈ (atEnd catalog (names.accept query (String.ofList l.source)) next).offers) ∨
      ∃ cs, candidates catalog names query = .ok cs ∧ String.ofList l.source ++ u ∈ cs := by
  rw [walk_name catalog hp hword] at h
  cases hcs : candidates catalog names query with
  | error e => simp [hcs, degrade] at h
  | ok cs =>
    have hmem := mem_complete_iff cs (source_ne_empty hword)
    rw [hcs] at h
    by_cases hfull : (Trie.ofList cs).complete (String.ofList l.source) = [""]
    · left
      have hin := (hmem "").1 (by simp [hfull])
      rw [String.append_empty] at hin
      have hkind := (solid_of_isName (isName_of_candidates hnamed hcs _ hin)).2
      rw [String.toList_ofList] at hkind
      exact ⟨hkind, by simpa [hfull, Findings.after] using h⟩
    · right
      exact ⟨cs, rfl, (hmem u).1 (by simpa [hfull] using h)⟩

/-- The last piece of a text fits and is left behind, or the offer goes on with it: as a fixed
word, or as a name of the catalog. -/
theorem last_cases (hnamed : Catalog.Named catalog) (hl : l.kind ≠ .whitespace)
    (h : u ∈ (walk catalog p names [l]).offers) :
    (∃ next names', Fits p.afterGap names l next names' ∧
      (∀ query q, p.afterGap.demand names = .name query q → l.kind = .identifier) ∧
      u ∈ (atEnd catalog names' next).offers) ∨
    (∃ word next, p.afterGap.demand names = .word word next ∧
      (lower l.source).isPrefixOf word.toList = true ∧
      u.toList = matchCase l.source (word.toList.drop (lower l.source).length)) ∨
    ∃ query next cs, p.afterGap.demand names = .name query next ∧
      candidates catalog names query = .ok cs ∧ String.ofList l.source ++ u ∈ cs := by
  cases hp : p.afterGap.demand names with
  | gap next => simp [walk, hl, Place.read, hp] at h
  | nothing => simp [walk, hl, Place.read, hp] at h
  | word word next =>
    rcases last_word hl hp h with ⟨hfull, hu⟩ | ⟨hpart, hu⟩
    · exact Or.inl ⟨next, names, .word hp hfull, by simp, hu⟩
    · exact Or.inr (Or.inl ⟨word, next, rfl, hpart, hu⟩)
  | name query next =>
    by_cases hword : isWord l = true
    · rcases last_name hnamed hword hp h with ⟨hkind, hu⟩ | ⟨cs, hcs, hin⟩
      · exact Or.inl ⟨next, _, .name hp hword, fun _ _ _ => hkind, hu⟩
      · exact Or.inr (Or.inr ⟨query, next, cs, rfl, hcs, hin⟩)
    · simp [walk, hl, Place.read, hp, onName, hword, refuse] at h
  | moreColumns =>
    rw [walk, if_neg hl] at h
    by_cases hcomma : l.kind = .comma
    · have hcolumn : Fits p.afterGap names l .gapBeforeColumn names := .comma hp hcomma
      rw [read_of_fits hcolumn (by simp [hp])] at h
      exact Or.inl ⟨_, names, hcolumn, by simp, h⟩
    · by_cases hclose : l.source = [')']
      · have hvalues : Fits p.afterGap names l .gapBeforeValues names := .close hp hclose
        rw [read_of_fits hvalues (by simp [hp])] at h
        exact Or.inl ⟨_, names, hvalues, by simp, h⟩
      · simp [Place.read, hp, onMoreColumns, hclose, refuse] at h

/-- An offer behind the last piece of a text is read by the parser with it. -/
theorem reads_last (hnamed : Catalog.Named catalog) {m : Mode} (hm : endMode l.source = some m)
    (h : u ∈ (walk catalog p names [l]).offers) : Reads p.state (solid (l.source ++ u.toList)) := by
  by_cases hl : l.kind = .whitespace
  · rw [walk, if_pos hl, walk] at h
    rw [← reads_afterGap]
    rcases offer_cases hnamed h with ⟨-, next, hp⟩ | ⟨hsolid, hkind, -⟩
    -- Behind white space no space is offered.
    · cases p <;> simp [Place.afterGap, Place.demand] at hp
    · have hu : u.toList ≠ [] := by
        intro hnil
        rw [hnil] at hsolid
        cases hsolid
      have hends := blanks_endsAt hu hkind []
      rw [List.append_nil] at hends
      rw [solid_blanks hm (by rwa [endMode_of_whitespace hm hl]) hl]
      exact reads_offer hnamed h
  · rw [← reads_afterGap]
    rcases last_cases hnamed hl h with ⟨next, names', hfits, hname, hu⟩ |
      ⟨word, next, hp, hpart, hu⟩ | ⟨query, next, cs, hp, hcs, hn⟩
    · have hends := endsAt_offer hfits hname hm hu
      rw [solid_append hm hends hl, reads_of_takes (takes_token (passes_of_fits hfits hname).takes)]
      exact reads_offer hnamed hu
    · have hlower := lower_completed hp hpart
      rw [← hu] at hlower
      rw [solid_of_word hp hlower]
      have htakes : Takes p.afterGap.state (Lexeme.token ⟨0, l.source ++ u.toList⟩) next.state :=
        (passes_word hp hlower).takes
      rw [reads_of_takes (takes_token htakes)]
      exact reads_nil next.state
    · obtain ⟨hsolid, hkind⟩ := solid_of_isName (isName_of_candidates hnamed hcs _ hn)
      have hkind : (token (String.ofList l.source ++ u).toList).kind = .identifier := hkind
      rw [String.toList_append, String.toList_ofList] at hsolid hkind
      rw [hsolid, reads_of_takes (passes_name hp hkind).takes]
      exact reads_nil next.state

theorem nameTokens_nil (p : Place) : p.nameTokens [] = [] := by
  cases p <;> rfl

/-- The walk and the parser go through the settled tokens in step. -/
theorem reads_grown (hnamed : Catalog.Named catalog) {ls : List Lexeme} (hls : ls ≠ [])
    (hmodes : ∀ l ∈ ls, (endMode l.source).isSome = true)
    (h : u ∈ (walk catalog p names ls).offers) :
    Reads p.state (grown ls u.toList) ↔ NoKeyword (p.nameTokens (settled ls)) := by
  induction ls generalizing p names with
  | nil => exact absurd rfl hls
  | cons l ls ih =>
    obtain ⟨hmode, hmodes⟩ := List.forall_mem_cons.1 hmodes
    -- Only the last piece can grow: what is in front of it stays the tokens it was.
    by_cases hrest : ls = []
    · subst hrest
      obtain ⟨m, hm⟩ := Option.isSome_iff_exists.1 hmode
      have hsettled : settled [l] = [] := rfl
      rw [grown_single, hsettled, nameTokens_nil]
      exact iff_of_true (reads_last hnamed hm h) (by simp [NoKeyword])
    · rw [grown_cons _ hrest, settled_cons hrest]
      by_cases hl : l.kind = .whitespace
      · rw [walk, if_pos hl] at h
        rw [if_pos hl, if_pos hl, ← reads_afterGap, ← nameTokens_afterGap]
        exact ih hrest hmodes h
      · rw [if_neg hl, if_neg hl, ← reads_afterGap, ← nameTokens_afterGap]
        have hmore : ls.isEmpty = true → ∀ query next, p.afterGap.demand names ≠ .name query next :=
          fun hempty => absurd (List.isEmpty_iff.1 hempty) hrest
        rw [walk, if_neg hl] at h
        rcases read_cases catalog p.afterGap names l ls.isEmpty with ⟨next, names', hfits⟩ |
          ⟨found, hread, -, hnone⟩
        · rw [read_of_fits hfits hmore] at h
          exact reads_step hfits (ih hrest hmodes h)
        · have hlast : ls.isEmpty = false := by simpa using hrest
          rw [hread, hnone hlast] at h
          simp at h

end Offers

section Statement

variable {catalog : Catalog} {input u : String} {first : Token} {ts : List Token}

/-- The tokens of an unfinished statement that stand where names are wanted: behind the first two
words, in front of the last piece, and not behind the bracket that closes the columns. -/
def nameTokens (input : String) : List Token :=
  untilClose ((settled (Lexeme.scan input.toList)).drop 2)

theorem scan_of_solid (h : solidTokens input = first :: ts) :
    ∃ blanks l ls, Lexeme.scan input.toList = blanks ++ l :: ls ∧
      (∀ b ∈ blanks, b.kind = .whitespace) ∧ l.token = first := by
  rw [← Cursor.solid_ofInput, Cursor.solid, List.filter_eq_cons_iff] at h
  obtain ⟨skipped, rest, hmap, hskipped, -, -⟩ := h
  obtain ⟨blanks, ls, hscan, rfl, hls⟩ := List.map_eq_append_iff.1 hmap
  obtain ⟨l, ls, rfl, hl, -⟩ := List.map_eq_cons_iff.1 hls
  refine ⟨blanks, l, ls, hscan, fun b hb => ?_, hl⟩
  have hkind := hskipped b.token (List.mem_map_of_mem hb)
  simpa [Lexeme.token] using hkind

theorem isOpen_of_unplaced {text : String} {vs : List Token}
    (h : (solidTokens text).map Token.unplaced = (first :: vs).map Token.unplaced)
    (hi : first.isKeyword "insert" = true) :
    (∃ r, inspect text = .ok r ∧ r.IsOpen) ↔ Reads .into vs := by
  cases hs : solidTokens text with
  | nil => simp [hs] at h
  | cons t us =>
    rw [hs, List.map_cons, List.map_cons, List.cons.injEq] at h
    have ht : t.isKeyword "insert" = true := by
      have hkeyword : t.unplaced.isKeyword "insert" = true := by
        rw [h.1]
        exact hi
      exact hkeyword
    rw [inspect_isOpen hs ht, ← reads_unplaced, h.2, reads_unplaced]

theorem reads_behind {l : Lexeme} {ls : List Lexeme} (hnamed : Catalog.Named catalog)
    (hkind : l.kind = .keyword) (hmodes : ∀ k ∈ l :: ls, (endMode k.source).isSome = true)
    (h : u ∈ (walk catalog .gapBeforeInto {} ls).offers) :
    ∃ vs, (grown (l :: ls) u.toList).map Token.unplaced = (l.token :: vs).map Token.unplaced ∧
      (Reads .into vs ↔ NoKeyword (untilClose ((settled (l :: ls)).drop 2))) := by
  have hblank : l.kind ≠ .whitespace := by simp [hkind]
  obtain ⟨hmode, hmodes⟩ := List.forall_mem_cons.1 hmodes
  by_cases hls : ls = []
  · subst hls
    obtain rfl : u = " " := by simpa [walk, atEnd, Place.demand] using h
    obtain ⟨m, hm⟩ := Option.isSome_iff_exists.1 hmode
    have herror : kind l.source ≠ .error := by
      rw [← Lexeme.kind, hkind]
      decide
    have hends : m.endsAt [' '] = true := endsAt_of_separates hm (isOpen_of_kind herror) hblank rfl
    have hgrown : grown [l] " ".toList = [token l.source] := solid_append hm hends hblank
    have hnone : untilClose ((settled [l]).drop 2) = [] := rfl
    rw [hgrown, hnone]
    exact ⟨[], rfl, iff_of_true (reads_nil _) (by simp [NoKeyword])⟩
  · rw [grown_cons _ hls, settled_cons hls, if_neg hblank, if_neg hblank, List.drop_succ_cons]
    exact ⟨grown ls u.toList, rfl, reads_grown hnamed hls hmodes h⟩

/-- An offer that is accepted makes a text that the parser reads to its end, exactly if no keyword
was typed where a name belongs. -/
theorem offer_accepted_iff (hnamed : Catalog.Named catalog) (h : solidTokens input = first :: ts)
    (hi : first.isKeyword "insert" = true) (hu : u ∈ (complete catalog input).suffixes) :
    (∃ r, inspect (input ++ u) = .ok r ∧ r.IsOpen) ↔
      ∀ t ∈ nameTokens input, t.kind ≠ .keyword := by
  obtain ⟨blanks, l, ls, hscan, hblanks, rfl⟩ := scan_of_solid h
  have hoffer : u ∈ (walk catalog .gapBeforeInto {} ls).offers := by
    rw [complete, hscan, walkStatement_insert hblanks hi, mem_rankCandidates] at hu
    exact hu.1
  have hkind : l.kind = .keyword := by
    simp only [Token.isKeyword, Token.is, Bool.and_eq_true, beq_iff_eq] at hi
    exact hi.1
  have hmodes : ∀ k ∈ l :: ls, (endMode k.source).isSome = true := by
    intro k hk
    refine endMode_scan input.toList k ?_
    rw [hscan]
    exact List.mem_append_right blanks hk
  have hne : input.toList ≠ [] := by
    intro hnil
    simp [hnil, Lexeme.scan, split, Lexeme.place] at hscan
  have hsolid : (solidTokens (input ++ u)).map Token.unplaced =
      (grown (l :: ls) u.toList).map Token.unplaced := by
    rw [solidTokens_unplaced, String.toList_append, ← grown_scan _ hne, hscan,
      grown_blanks _ hblanks (by simp)]
  obtain ⟨vs, hvs, hreads⟩ := reads_behind hnamed hkind hmodes hoffer
  rw [isOpen_of_unplaced (hsolid.trans hvs) hi, hreads, nameTokens, hscan,
    settled_blanks hblanks (by simp)]
  rfl

/-- A keyspace that is completed. -/
theorem offer_accepted_iff_store :
    let catalog : Catalog := fun _ => .ok ["store"]
    "ore" ∈ (complete catalog "insert into st").suffixes ∧
      ∃ r, inspect "insert into store" = .ok r ∧ r.IsOpen := by
  intro catalog
  have hnamed : Catalog.Named catalog := by
    intro query answer h n hn
    obtain rfl : answer = ["store"] := (Except.ok.inj h).symm
    obtain rfl := List.mem_singleton.1 hn
    unfold IsName
    decide +kernel
  have hinput : solidTokens "insert into st" = [⟨.keyword, "insert", 0, 6⟩,
      ⟨.keyword, "into", 7, 11⟩, ⟨.identifier, "st", 12, 14⟩] := by decide +kernel
  have hoffer : "ore" ∈ (complete catalog "insert into st").suffixes :=
    (mem_rankCandidates _ _).2 ⟨by decide +kernel, by decide⟩
  exact ⟨hoffer, (offer_accepted_iff hnamed hinput rfl hoffer).2 (by decide +kernel)⟩

/-- Behind a keyword in the place of a keyspace, a point is offered that the parser never gets to. -/
theorem offer_refused : ¬∀ (catalog : Catalog) (input u : String) (first : Token) (ts : List Token),
    (∀ query answer, catalog query = .ok answer →
      ∀ n ∈ answer, IsName n ∧ n.toList.head? ≠ some '"') →
    solidTokens input = first :: ts → first.isKeyword "insert" = true →
    u ∈ (complete catalog input).suffixes →
    ∃ r, inspect (input ++ u) = .ok r ∧ r.IsOpen := by
  intro hall
  have hnone : ∀ query answer, (fun _ => .ok [] : Catalog) query = .ok answer →
      ∀ n ∈ answer, IsName n ∧ n.toList.head? ≠ some '"' := by
    intro query answer h
    obtain rfl : answer = [] := (Except.ok.inj h).symm
    simp
  have hinput : solidTokens "insert into select " = [⟨.keyword, "insert", 0, 6⟩,
      ⟨.keyword, "into", 7, 11⟩, ⟨.keyword, "select", 12, 18⟩] := by decide +kernel
  have hoffer : "." ∈ (complete (fun _ => .ok []) "insert into select ").suffixes :=
    (mem_rankCandidates _ _).2 ⟨by decide +kernel, by decide⟩
  have htext : solidTokens ("insert into select " ++ ".") = [⟨.keyword, "insert", 0, 6⟩,
      ⟨.keyword, "into", 7, 11⟩, ⟨.keyword, "select", 12, 18⟩, ⟨.dot, ".", 19, 20⟩] := by
    decide +kernel
  have hinto : Takes .into ⟨.keyword, "into", 7, 11⟩ .tableName := Or.inl ⟨.none, rfl⟩
  have hopen := hall _ _ _ _ _ hnone hinput rfl hoffer
  rw [inspect_isOpen htext rfl, reads_of_takes hinto] at hopen
  exact not_reads_stuck _ rfl hopen

end Statement

end CqlConsole.Completion
