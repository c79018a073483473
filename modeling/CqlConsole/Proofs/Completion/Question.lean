import CqlConsole.Proofs.Completion.Lookup

/-!
# The question that decides a completion

Whether a completion asks the catalog, and what, is decided by the typed text
alone: it asks where the text ends at a place for a name, with the names typed
before. The answer to that one question is all it takes from the catalog, so two
catalogs that answer it alike complete the text alike.
-/

set_option autoImplicit false

namespace CqlConsole.Completion

open CqlConsole.Text

def Place.query? (names : Names) (p : Place) : Option Query :=
  match p.demand names with
  | .name query _ => some query
  | _ => none

def Place.fit? (names : Names) (p : Place) (l : Lexeme) : Option (Place × Names) :=
  match p.demand names with
  | .word word next => if lower l.source = word.toList then some (next, names) else none
  | .name query next =>
    if isWord l then some (next, names.accept query (String.ofList l.source)) else none
  | .moreColumns =>
    if l.kind = .comma then some (.gapBeforeColumn, names)
    else if l.source = [')'] then some (.gapBeforeValues, names)
    else none
  | .gap _ => none
  | .nothing => none

def question : Place → Names → List Lexeme → Option Query
  | p, names, [] => p.query? names
  | p, names, l :: ls =>
    if l.kind = .whitespace then question p.afterGap names ls
    else
      match p.afterGap.fit? names l with
      | none => none
      | some (next, names') =>
        if ls.isEmpty then (p.afterGap.query? names).or (next.query? names')
        else question next names' ls

def statementQuestion : List Lexeme → Option Query
  | [] => none
  | l :: ls =>
    if l.kind = .whitespace then statementQuestion ls
    else if l.token.isKeyword "insert" then question .gapBeforeInto {} ls
    else none

def asked (input : String) : Option Query :=
  statementQuestion (Lexeme.scan input.toList)

def words (ls : List Lexeme) : List String :=
  (ls.filter fun l => l.kind != .whitespace).map fun l => String.ofList l.source

def Query.NamedBy (ws : List String) : Query → Prop
  | .keyspaces => True
  | .tables keyspace => ws[2]? = some keyspace
  | .columns keyspace table => ws[2]? = some keyspace ∧ ws[4]? = some table

def endAnswered (names : Names) (query : Query) : Except ConsoleError (List String) → Findings
  | .error e => degrade query e
  | .ok answer =>
    let cs := answer.filter fun c => c ∉ names.listed query
    { offers := cs, notes := [.found cs.length query.noun] }

/-- What is offered behind the start of a name, by the answer and by what is found behind a name
in full. -/
def typedAnswered (names : Names) (query : Query) (typed : String) (behind : Findings) :
    Except ConsoleError (List String) → Findings
  | .error e => degrade query e
  | .ok answer =>
    let cs := answer.filter fun c => c ∉ names.listed query
    let notes := [Note.found cs.length query.noun]
    let suffixes := (Trie.ofList cs).complete typed
    if suffixes = [""] then behind.after notes else { offers := suffixes, notes := notes }

def Decides (found : Catalog → Findings) : Option Query → Prop
  | none => ∃ f : Findings, f.degraded = none ∧ ∀ catalog, found catalog = f
  | some query => ∃ answered : Except ConsoleError (List String) → Findings,
      (∀ catalog, found catalog = answered (catalog query)) ∧
      (∀ e, answered (.error e) = degrade query e) ∧
      ∀ answer, (answered (.ok answer)).degraded = none

section Walk

variable {p next : Place} {names names' : Names} {l : Lexeme} {ls : List Lexeme} {query : Query}

theorem query?_eq_some : p.query? names = some query ↔ ∃ next, p.demand names = .name query next := by
  rw [Place.query?]
  cases p.demand names <;> simp

theorem query?_eq_none (h : p.query? names = none) (query : Query) (next : Place) :
    p.demand names ≠ .name query next := by
  intro hp
  simp [Place.query?, hp] at h

theorem fits_of_fit? (h : p.fit? names l = some (next, names')) : Fits p names l next names' := by
  rw [Place.fit?] at h
  cases hp : p.demand names with
  | gap next => simp [hp] at h
  | nothing => simp [hp] at h
  | word word q =>
    simp only [hp, Option.ite_none_right_eq_some, Option.some.injEq, Prod.mk.injEq] at h
    obtain ⟨hl, rfl, rfl⟩ := h
    exact .word hp hl
  | name query q =>
    simp only [hp, Option.ite_none_right_eq_some, Option.some.injEq, Prod.mk.injEq] at h
    obtain ⟨hl, rfl, rfl⟩ := h
    exact .name hp hl
  | moreColumns =>
    by_cases hcomma : l.kind = .comma
    · simp only [hp, if_pos hcomma, Option.some.injEq, Prod.mk.injEq] at h
      obtain ⟨rfl, rfl⟩ := h
      exact .comma hp hcomma
    · simp only [hp, if_neg hcomma, Option.ite_none_right_eq_some, Option.some.injEq,
        Prod.mk.injEq] at h
      obtain ⟨hclose, rfl, rfl⟩ := h
      exact .close hp hclose

theorem unfit_of_fit? (h : p.fit? names l = none) (next : Place) (names' : Names) :
    ¬Fits p names l next names' := by
  intro hfits
  cases hfits with
  | word hp hl => simp [Place.fit?, hp, hl] at h
  | name hp hl => simp [Place.fit?, hp, hl] at h
  | comma hp hl => simp [Place.fit?, hp, hl] at h
  | close hp hl =>
    simp only [Place.fit?, hp, hl, if_true] at h
    split_ifs at h

/-- Where no name is wanted, the same is offered at the end whatever the catalog is. -/
theorem atEnd_decides_none (hp : ∀ query next, p.demand names ≠ .name query next) :
    Decides (fun catalog => atEnd catalog names p) none := by
  refine ⟨atEnd (fun _ => .ok []) names p, ?_, fun catalog => ?_⟩
  · rw [atEnd]
    cases h : p.demand names with
    | name query next => exact absurd h (hp query next)
    | _ => rfl
  · show atEnd catalog names p = atEnd (fun _ => .ok []) names p
    rw [atEnd, atEnd]
    cases h : p.demand names with
    | name query next => exact absurd h (hp query next)
    | _ => rfl

theorem atEnd_decides (names : Names) (p : Place) :
    Decides (fun catalog => atEnd catalog names p) (p.query? names) := by
  cases hquery : p.query? names with
  | none => exact atEnd_decides_none (query?_eq_none hquery)
  | some query =>
    obtain ⟨next, hp⟩ := query?_eq_some.1 hquery
    refine ⟨endAnswered names query, fun catalog => ?_, fun e => rfl, fun answer => rfl⟩
    simp only [atEnd, hp, candidates_eq]
    cases catalog query <;> rfl

theorem typed_decides (hp : p.afterGap.demand names = .name query next) (hl : isWord l = true) :
    Decides (fun catalog => walk catalog p names [l]) (some query) := by
  obtain ⟨behind, hbehind, hend⟩ :=
    atEnd_decides_none (demand_after_name hp (names.accept query (String.ofList l.source)))
  refine ⟨typedAnswered names query (String.ofList l.source) behind, fun catalog => ?_,
    fun e => rfl, fun answer => ?_⟩
  · have hdone : atEnd catalog _ next = behind := hend catalog
    have hwalk := walk_name catalog hp hl
    rw [candidates_eq, hdone] at hwalk
    refine hwalk.trans ?_
    cases catalog query <;> rfl
  · simp only [typedAnswered]
    split
    · exact hbehind
    · rfl

theorem isWord_of_fits (h : Fits p names l next names') {q : Place}
    (hp : p.demand names = .name query q) : isWord l = true := by
  cases h with
  | word h _ => simp [hp] at h
  | name _ hl => exact hl
  | comma h _ => simp [hp] at h
  | close h _ => simp [hp] at h

/-- The walk takes nothing from the catalog but the answer to its question. -/
theorem walk_decides (p : Place) (names : Names) (ls : List Lexeme) :
    Decides (fun catalog => walk catalog p names ls) (question p names ls) := by
  induction ls generalizing p names with
  | nil => exact atEnd_decides names p
  | cons l ls ih =>
    by_cases hl : l.kind = .whitespace
    · simp only [walk, question, if_pos hl]
      exact ih p.afterGap names
    · cases hfit : p.afterGap.fit? names l with
      | none =>
        obtain ⟨found, hread, hfound, -⟩ := read_of_unfit ls.isEmpty (unfit_of_fit? hfit)
        simp only [walk, question, if_neg hl, hfit, hread]
        exact ⟨found, hfound, fun _ => rfl⟩
      | some landing =>
        obtain ⟨next, names'⟩ := landing
        have hfits := fits_of_fit? hfit
        -- A name at the end is looked up, and the place behind it asks nothing.
        by_cases hname : ls.isEmpty = true ∧ ∃ query q, p.afterGap.demand names = .name query q
        · obtain ⟨hls, query, q, hp⟩ := hname
          obtain rfl := List.isEmpty_iff.1 hls
          have hquery : p.afterGap.query? names = some query := query?_eq_some.2 ⟨q, hp⟩
          have hquestion : question p names [l] = some query := by
            simp [question, hl, hfit, hquery]
          rw [hquestion]
          exact typed_decides hp (isWord_of_fits hfits hp)
        · have hmore : ls.isEmpty = true → ∀ query q, p.afterGap.demand names ≠ .name query q :=
            fun hls query q hp => hname ⟨hls, query, q, hp⟩
          have hquestion : question p names (l :: ls) = question next names' ls := by
            simp only [question, if_neg hl, hfit]
            split
            · rename_i hls
              have hnone : p.afterGap.query? names = none := by
                rw [Option.eq_none_iff_forall_ne_some]
                intro query hquery
                obtain ⟨q, hp⟩ := query?_eq_some.1 hquery
                exact hmore hls query q hp
              rw [hnone, List.isEmpty_iff.1 hls]
              rfl
            · rfl
          simp only [walk, if_neg hl, read_of_fits hfits hmore, hquestion]
          exact ih next names'

end Walk

section Words

variable {p next : Place} {names names' : Names} {l : Lexeme} {ls : List Lexeme} {query : Query}
  {ws vs : List String}

def Place.Behind (names : Names) (ws : List String) : Place → Prop
  | gapBeforeInto | into => ws.length = 1
  | gapBeforeKeyspace | keyspace => ws.length = 2
  | dot => ws.length = 3 ∧ ws[2]? = some names.keyspace
  | table => ws.length = 4 ∧ ws[2]? = some names.keyspace
  | _ => ws[2]? = some names.keyspace ∧ ws[4]? = some names.table

theorem getElem?_append_of_some {i : Nat} {w : String} (h : ws[i]? = some w) :
    (ws ++ vs)[i]? = some w := by
  obtain ⟨hi, -⟩ := List.getElem?_eq_some_iff.1 h
  rw [List.getElem?_append_left hi, h]

theorem namedBy_append (h : query.NamedBy ws) : query.NamedBy (ws ++ vs) := by
  cases query with
  | keyspaces => trivial
  | tables keyspace => exact getElem?_append_of_some h
  | columns keyspace table => exact ⟨getElem?_append_of_some h.1, getElem?_append_of_some h.2⟩

theorem behind_afterGap (h : p.Behind names ws) : p.afterGap.Behind names ws := by
  cases p <;> exact h

theorem namedBy_query? (h : p.Behind names ws) (hq : p.query? names = some query) :
    query.NamedBy ws := by
  obtain ⟨next, hp⟩ := query?_eq_some.1 hq
  rcases demand_name_cases hp with ⟨rfl, rfl, -⟩ | ⟨rfl, rfl, -⟩ | ⟨rfl, rfl, -⟩
  · trivial
  · exact h.2
  · exact h

theorem behind_step (hfits : Fits p names l next names') (h : p.Behind names ws) :
    next.Behind names' (ws ++ [String.ofList l.source]) := by
  cases hfits with
  | word hp _ =>
    rcases demand_word_cases hp with ⟨rfl, -, rfl⟩ | ⟨rfl, -, rfl⟩ | ⟨rfl, -, rfl⟩ |
      ⟨rfl, -, rfl⟩ | ⟨rfl, -, rfl⟩
    · simp_all [Place.Behind]
    · exact ⟨by simp [h.1], getElem?_append_of_some h.2⟩
    · exact ⟨getElem?_append_of_some h.1, getElem?_append_of_some h.2⟩
    · exact ⟨getElem?_append_of_some h.1, getElem?_append_of_some h.2⟩
    · exact ⟨getElem?_append_of_some h.1, getElem?_append_of_some h.2⟩
  | name hp _ =>
    rcases demand_name_cases hp with ⟨rfl, rfl, rfl⟩ | ⟨rfl, rfl, rfl⟩ | ⟨rfl, rfl, rfl⟩
    · have hlength : ws.length = 2 := h
      exact ⟨by simp [hlength], by simp [← hlength, Names.accept]⟩
    · exact ⟨getElem?_append_of_some h.2, by simp [← h.1, Names.accept]⟩
    · exact ⟨getElem?_append_of_some h.1, getElem?_append_of_some h.2⟩
  | comma hp _ =>
    obtain rfl := demand_more hp
    exact ⟨getElem?_append_of_some h.1, getElem?_append_of_some h.2⟩
  | close hp _ =>
    obtain rfl := demand_more hp
    exact ⟨getElem?_append_of_some h.1, getElem?_append_of_some h.2⟩

theorem words_cons (l : Lexeme) (ls : List Lexeme) :
    words (l :: ls) = if l.kind = .whitespace then words ls else String.ofList l.source :: words ls := by
  by_cases h : l.kind = .whitespace <;> simp [words, h]

theorem namedBy_question (h : p.Behind names ws) (hq : question p names ls = some query) :
    query.NamedBy (ws ++ words ls) := by
  induction ls generalizing p names ws with
  | nil => exact namedBy_append (namedBy_query? h hq)
  | cons l ls ih =>
    rw [question] at hq
    by_cases hl : l.kind = .whitespace
    · rw [if_pos hl] at hq
      rw [words_cons, if_pos hl]
      exact ih (behind_afterGap h) hq
    · rw [if_neg hl] at hq
      rw [words_cons, if_neg hl, List.append_cons]
      cases hfit : p.afterGap.fit? names l with
      | none => simp [hfit] at hq
      | some landing =>
        obtain ⟨next, names'⟩ := landing
        have hnext := behind_step (fits_of_fit? hfit) (behind_afterGap h)
        by_cases hls : ls.isEmpty = true
        · simp only [hfit, hls, if_true, Option.or_eq_some_iff] at hq
          rcases hq with hq | ⟨-, hq⟩
          · exact namedBy_append (namedBy_append (namedBy_query? (behind_afterGap h) hq))
          · exact namedBy_append (namedBy_query? hnext hq)
        · simp only [hfit, if_neg hls] at hq
          exact ih hnext hq

end Words

section Statement

variable {lexemes : List Lexeme} {query : Query}

theorem statement_decides (lexemes : List Lexeme) :
    Decides (fun catalog => walkStatement catalog lexemes) (statementQuestion lexemes) := by
  induction lexemes with
  | nil => exact ⟨{}, rfl, fun _ => rfl⟩
  | cons l ls ih =>
    by_cases hl : l.kind = .whitespace
    · simp only [walkStatement, statementQuestion, if_pos hl]
      exact ih
    · by_cases hinsert : l.token.isKeyword "insert" = true
      · simp only [walkStatement, statementQuestion, if_neg hl, onStatement, if_pos hinsert]
        exact walk_decides .gapBeforeInto {} ls
      · simp only [walkStatement, statementQuestion, if_neg hl, onStatement, if_neg hinsert]
        refine ⟨_, ?_, fun _ => rfl⟩
        split <;> rfl

theorem namedBy_statement (h : statementQuestion lexemes = some query) :
    query.NamedBy (words lexemes) := by
  induction lexemes with
  | nil => cases h
  | cons l ls ih =>
    rw [statementQuestion] at h
    rw [words_cons]
    by_cases hl : l.kind = .whitespace
    · rw [if_pos hl] at h ⊢
      exact ih h
    · by_cases hinsert : l.token.isKeyword "insert" = true
      · rw [if_neg hl, if_pos hinsert] at h
        rw [if_neg hl]
        have hfirst : Place.gapBeforeInto.Behind {} [String.ofList l.source] := rfl
        exact namedBy_question hfirst h
      · simp [hl, hinsert] at h

def completionsOf (found : Findings) : Completions :=
  ⟨rankCandidates found.offers, found.degraded, found.notes⟩

/-- At most one question decides a completion, and the text alone says which: the names in it are
words of the text. Without one, every catalog gives the same completion. With one, the completion
is made of its answer. An error is passed on and nothing offered; there is no other failure. -/
theorem complete_decided (input : String) :
    match asked input with
    | none => ∃ completions : Completions, completions.degraded = none ∧
        ∀ catalog, complete catalog input = completions
    | some query => query.NamedBy (words (Lexeme.scan input.toList)) ∧
        ∃ answered : Except ConsoleError (List String) → Completions,
          (∀ catalog, complete catalog input = answered (catalog query)) ∧
          (∀ e, (answered (.error e)).degraded = some e ∧ (answered (.error e)).suffixes = []) ∧
          ∀ answer, (answered (.ok answer)).degraded = none := by
  have hdecides := statement_decides (Lexeme.scan input.toList)
  cases hasked : asked input with
  | none =>
    rw [asked] at hasked
    rw [hasked] at hdecides
    obtain ⟨found, hfound, hwalk⟩ := hdecides
    exact ⟨completionsOf found, hfound, fun catalog => congrArg completionsOf (hwalk catalog)⟩
  | some query =>
    rw [asked] at hasked
    rw [hasked] at hdecides
    obtain ⟨answered, hwalk, herror, hok⟩ := hdecides
    refine ⟨namedBy_statement hasked, completionsOf ∘ answered,
      fun catalog => congrArg completionsOf (hwalk catalog), fun e => ?_, hok⟩
    rw [Function.comp_apply, herror]
    exact ⟨rfl, by simp [completionsOf, degrade, rankCandidates, dropRepeats]⟩

example : asked "insert into store.users (id, " = some (.columns "store" "users") := by
  decide +kernel

end Statement

end CqlConsole.Completion
