import CqlConsole.Completion.Walk
import CqlConsole.Proofs.Completion.Order
import CqlConsole.Proofs.Trie.Remainders

/-!
# Completing a name

A walk that asks the catalog for names offers what a filter of the answer would
give: every remainder that makes what is typed a name of the answer, each once
and in order. Only a name in full that is the start of no other one is not
completed, and what may follow it is offered.
-/

set_option autoImplicit false

namespace CqlConsole.Completion

open CqlConsole.Text

/-- The lexeme belongs at a place, taken as it stands, and leads to the next one. -/
inductive Fits (p : Place) (names : Names) (l : Lexeme) : Place → Names → Prop where
  | word {word : String} {next : Place} :
      p.demand names = .word word next → lower l.source = word.toList → Fits p names l next names
  | name {query : Query} {next : Place} :
      p.demand names = .name query next → isWord l = true →
      Fits p names l next (names.accept query (String.ofList l.source))
  | comma :
      p.demand names = .moreColumns → l.kind = .comma → Fits p names l .gapBeforeColumn names
  | close :
      p.demand names = .moreColumns → l.source = [')'] → Fits p names l .gapBeforeValues names

def Names.listed (names : Names) : Query → List String
  | .columns _ _ => names.columns
  | _ => []

/-- From a place on, the lexemes end where a name is wanted: the query it answers, the names
listed before it, and what is typed of it. -/
inductive Wants : Place → Names → List Lexeme → Query → List String → String → Prop where
  | ends {p next : Place} {names : Names} {query : Query} :
      p.demand names = .name query next → Wants p names [] query (names.listed query) ""
  | typed {p next : Place} {names : Names} {query : Query} {l : Lexeme} :
      p.afterGap.demand names = .name query next → isWord l = true →
      Wants p names [l] query (names.listed query) (String.ofList l.source)
  | blank {p : Place} {names : Names} {l : Lexeme} {ls : List Lexeme} {query : Query}
      {listed : List String} {w : String} :
      l.kind = .whitespace → Wants p.afterGap names ls query listed w →
      Wants p names (l :: ls) query listed w
  | fits {p next : Place} {names names' : Names} {l : Lexeme} {ls : List Lexeme} {query : Query}
      {listed : List String} {w : String} :
      l.kind ≠ .whitespace → Fits p.afterGap names l next names' →
      Wants next names' ls query listed w → Wants p names (l :: ls) query listed w

/-- The input is an INSERT statement that ends where a name is wanted. -/
def Asks (input : String) (query : Query) (listed : List String) (w : String) : Prop :=
  ∃ blanks l ls, Lexeme.scan input.toList = blanks ++ l :: ls ∧
    (∀ b ∈ blanks, b.kind = .whitespace) ∧ l.token.isKeyword "insert" = true ∧
    Wants .gapBeforeInto {} ls query listed w

def following : Query → List String
  | .keyspaces => ["."]
  | .tables _ => ["("]
  | .columns _ _ => [")", ","]

def Full (cs : List String) (w : String) : Prop :=
  w ≠ "" ∧ w ∈ cs ∧ ∀ u, w ++ u ∈ cs → u = ""

section Read

variable {catalog : Catalog} {p next : Place} {names names' : Names} {query : Query} {l : Lexeme}
  {isLast : Bool}

theorem candidates_eq (catalog : Catalog) (names : Names) (query : Query) :
    candidates catalog names query =
      (catalog query).map fun answer => answer.filter fun c => c ∉ names.listed query := by
  cases query with
  | columns keyspace table => rfl
  | keyspaces => cases h : catalog .keyspaces <;> simp [candidates, Names.listed, h, Except.map]
  | tables keyspace =>
    cases h : catalog (.tables keyspace) <;> simp [candidates, Names.listed, h, Except.map]

theorem demand_word_cases {word : String} (h : p.demand names = .word word next) :
    (p = .into ∧ word = "into" ∧ next = .gapBeforeKeyspace) ∨
    (p = .dot ∧ word = "." ∧ next = .table) ∨
    (p = .columnsOpen ∧ word = "(" ∧ next = .column) ∨
    (p = .values ∧ word = "values" ∧ next = .valuesOpen) ∨
    (p = .valuesOpen ∧ word = "(" ∧ next = .done) := by
  cases p <;> simp_all [Place.demand]

def wantedWords : List String :=
  ["into", ".", "(", "values"]

theorem mem_wantedWords {word : String} (h : p.demand names = .word word next) :
    word ∈ wantedWords := by
  rcases demand_word_cases h with ⟨-, rfl, -⟩ | ⟨-, rfl, -⟩ | ⟨-, rfl, -⟩ | ⟨-, rfl, -⟩ |
    ⟨-, rfl, -⟩ <;> simp [wantedWords]

theorem demand_name_cases (h : p.demand names = .name query next) :
    (p = .keyspace ∧ query = .keyspaces ∧ next = .dot) ∨
    (p = .table ∧ query = .tables names.keyspace ∧ next = .columnsOpen) ∨
    (p = .column ∧ query = .columns names.keyspace names.table ∧ next = .afterColumn) := by
  cases p <;> simp_all [Place.demand]

theorem demand_more (h : p.demand names = .moreColumns) : p = .afterColumn := by
  cases p <;> simp [Place.demand] at h ⊢

theorem demand_after_name (h : p.demand names = .name query next) (names' : Names) (query' : Query)
    (next' : Place) : next.demand names' ≠ .name query' next' := by
  rcases demand_name_cases h with ⟨-, -, rfl⟩ | ⟨-, -, rfl⟩ | ⟨-, -, rfl⟩ <;> simp [Place.demand]

theorem fits_name {q : Place} (h : Fits p names l next names') (hp : p.demand names = .name query q) :
    next = q := by
  cases h with
  | word h _ => simp [hp] at h
  | name h _ =>
    rw [hp, Demand.name.injEq] at h
    exact h.2.symm
  | comma h _ => simp [hp] at h
  | close h _ => simp [hp] at h

theorem read_of_fits (h : Fits p names l next names')
    (hmore : isLast = true → ∀ query next, p.demand names ≠ .name query next) :
    p.read catalog names l isLast = .advance next names' [] := by
  cases h with
  | word hp hl => simp [Place.read, hp, onWord, hl]
  | name hp hl =>
    have hlast : isLast = false := by
      cases isLast with
      | false => rfl
      | true => exact absurd hp (hmore rfl _ _)
    simp [Place.read, hp, onName, hl, hlast]
  | comma hp hl => simp [Place.read, hp, onMoreColumns, hl]
  | close hp hl =>
    have hkind : l.kind = .bracket := by
      rw [Lexeme.kind, hl]
      decide
    simp [Place.read, hp, onMoreColumns, hkind, hl]

/-- A lexeme that does not fit ends the walk, and the catalog is not asked. -/
theorem read_of_unfit (isLast : Bool) (h : ∀ next names', ¬Fits p names l next names') :
    ∃ found : Findings, (∀ catalog, p.read catalog names l isLast = .finish found) ∧
      found.degraded = none ∧ (∀ n noun, .found n noun ∉ found.notes) ∧
      (isLast = false → found.offers = []) := by
  simp only [Place.read]
  cases hp : p.demand names with
  | gap next => exact ⟨{}, fun _ => rfl, rfl, by simp, by simp⟩
  | nothing => exact ⟨{}, fun _ => rfl, rfl, by simp, by simp⟩
  | word word next =>
    have hl : lower l.source ≠ word.toList := fun hl => h next names (.word hp hl)
    simp only [onWord, if_neg hl]
    split
    · rename_i hpart
      refine ⟨_, fun _ => rfl, rfl, by simp, fun hlast => ?_⟩
      simp [hlast] at hpart
    · exact ⟨_, fun _ => rfl, rfl, by simp [refuse], by simp [refuse]⟩
  | name query next =>
    have hl : ¬isWord l = true := fun hl => h next _ (.name hp hl)
    exact ⟨refuse l query.noun, by simp [onName, hl], rfl, by simp [refuse], by simp [refuse]⟩
  | moreColumns =>
    have hcomma : l.kind ≠ .comma := fun hl => h _ names (.comma hp hl)
    have hclose : l.source ≠ [')'] := fun hl => h _ names (.close hp hl)
    exact ⟨refuse l "',' or ')'", by simp [onMoreColumns, hclose], rfl, by simp [refuse],
      by simp [refuse]⟩

/-- A lexeme fits, or the walk ends without a look at the catalog. -/
theorem read_cases (catalog : Catalog) (p : Place) (names : Names) (l : Lexeme) (isLast : Bool) :
    (∃ next names', Fits p names l next names') ∨
      ∃ found, p.read catalog names l isLast = .finish found ∧
        (∀ n noun, .found n noun ∉ found.notes) ∧ (isLast = false → found.offers = []) := by
  by_cases h : ∃ next names', Fits p names l next names'
  · exact Or.inl h
  · obtain ⟨found, hread, -, hquiet, hnone⟩ :=
      read_of_unfit isLast fun next names' hfits => h ⟨next, names', hfits⟩
    exact Or.inr ⟨found, hread catalog, hquiet, hnone⟩

end Read

section Answer

variable {catalog : Catalog} {p next : Place} {names : Names} {query : Query} {l : Lexeme}
  {ls : List Lexeme} {q : Place} {cs listed answer : List String} {w : String}

theorem mem_complete_iff (cs : List String) (hw : w ≠ "") (u : String) :
    u ∈ (Trie.ofList cs).complete w ↔ w ++ u ∈ cs := by
  rw [(Trie.holds_ofList cs).mem_complete, Trie.storable, List.mem_toFinset, List.mem_filter]
  simp [hw]

theorem complete_eq_singleton_iff (cs : List String) (hw : w ≠ "") :
    (Trie.ofList cs).complete w = [""] ↔ Full cs w := by
  have hmem := mem_complete_iff cs hw
  constructor
  · intro h
    have hin : ∀ u, w ++ u ∈ cs ↔ u = "" := by
      intro u
      rw [← hmem, h, List.mem_singleton]
    refine ⟨hw, ?_, fun u hu => (hin u).1 hu⟩
    simpa using (hin "").2 rfl
  · rintro ⟨-, hfull, honly⟩
    refine List.perm_singleton.1 ?_
    rw [List.perm_ext_iff_of_nodup ((Trie.holds_ofList cs).nodup_complete w)
      (List.nodup_singleton "")]
    intro u
    rw [hmem, List.mem_singleton]
    refine ⟨honly u, ?_⟩
    rintro rfl
    simpa using hfull

/-- A lexeme that fits leads on, at the end of the text too if a name is one of the names in full. -/
theorem read_of_full {names' : Names} (h : Fits p names l next names')
    (hname : ∀ query q, p.demand names = .name query q →
      ∃ cs, candidates catalog names query = .ok cs ∧ Full cs (String.ofList l.source))
    (isLast : Bool) : ∃ notes, p.read catalog names l isLast = .advance next names' notes := by
  by_cases hlast : isLast = true ∧ ∃ query q, p.demand names = .name query q
  · obtain ⟨rfl, query, q, hp⟩ := hlast
    obtain ⟨cs, hcs, hfull⟩ := hname query q hp
    have hone := (complete_eq_singleton_iff cs hfull.1).2 hfull
    cases h with
    | @name query' next hp' hl =>
      obtain ⟨rfl, rfl⟩ : query = query' ∧ q = next := by simpa [hp] using hp'
      exact ⟨[.found cs.length query.noun], by simp [Place.read, hp, onName, hl, hcs, hone]⟩
    | _ => simp_all
  · exact ⟨[], read_of_fits h fun hend query q hp => hlast ⟨hend, query, q, hp⟩⟩

theorem atEnd_after_name (catalog : Catalog) (h : p.demand names = .name query next) (names' : Names) :
    ∃ offers, atEnd catalog names' next = { offers := offers } ∧
      ∀ u, u ∈ offers ↔ u ∈ following query := by
  rcases demand_name_cases h with ⟨-, rfl, rfl⟩ | ⟨-, rfl, rfl⟩ | ⟨-, rfl, rfl⟩
  · exact ⟨["."], rfl, by simp [following]⟩
  · exact ⟨["("], rfl, by simp [following]⟩
  · exact ⟨[",", ")"], rfl, by simp [following, or_comm]⟩

theorem source_ne_empty (hl : isWord l = true) : String.ofList l.source ≠ "" := by
  intro h
  have hnil : l.source = [] := by simpa using h
  have hkind : l.kind = .error := by
    rw [Lexeme.kind, hnil]
    decide
  simp [isWord, hkind] at hl

theorem ne_whitespace_of_isWord (hl : isWord l = true) : l.kind ≠ .whitespace := by
  intro h
  simp [isWord, h] at hl

theorem walk_name (catalog : Catalog) (hp : p.afterGap.demand names = .name query next)
    (hl : isWord l = true) :
    walk catalog p names [l] =
      match candidates catalog names query with
      | .error e => degrade query e
      | .ok cs =>
        if (Trie.ofList cs).complete (String.ofList l.source) = [""] then
          (atEnd catalog (names.accept query (String.ofList l.source)) next).after
            [.found cs.length query.noun]
        else
          { offers := (Trie.ofList cs).complete (String.ofList l.source)
            notes := [.found cs.length query.noun] } := by
  rw [walk, if_neg (ne_whitespace_of_isWord hl), Place.read, hp]
  cases hcs : candidates catalog names query with
  | error e => simp [onName, hl, hcs]
  | ok cs =>
    by_cases hfull : (Trie.ofList cs).complete (String.ofList l.source) = [""]
    · simp [onName, hl, hcs, hfull, walk]
    · simp [onName, hl, hcs, hfull]

theorem walk_typed (hp : p.afterGap.demand names = .name query next) (hl : isWord l = true)
    (hcs : candidates catalog names query = .ok cs) :
    ∃ offers, walk catalog p names [l] =
        { offers := offers, notes := [.found cs.length query.noun] } ∧
      (Full cs (String.ofList l.source) → ∀ u, u ∈ offers ↔ u ∈ following query) ∧
      (¬Full cs (String.ofList l.source) → ∀ u, u ∈ offers ↔ String.ofList l.source ++ u ∈ cs) := by
  have hw := source_ne_empty hl
  have hiff := complete_eq_singleton_iff cs hw
  rw [walk_name catalog hp hl, hcs]
  by_cases hfull : Full cs (String.ofList l.source)
  · obtain ⟨offers, hend, hoffers⟩ :=
      atEnd_after_name catalog hp (names.accept query (String.ofList l.source))
    refine ⟨offers, ?_, fun _ => hoffers, fun h => absurd hfull h⟩
    simp [hiff.2 hfull, hend, Findings.after]
  · have hmany : (Trie.ofList cs).complete (String.ofList l.source) ≠ [""] :=
      fun h => hfull (hiff.1 h)
    exact ⟨_, if_neg hmany, fun h => absurd h hfull, fun _ => mem_complete_iff cs hw⟩

theorem walk_of_wants (h : Wants p names ls query listed w) (hanswer : catalog query = .ok answer) :
    let cs := answer.filter fun c => c ∉ listed
    ∃ offers, walk catalog p names ls =
        { offers := offers, notes := [.found cs.length query.noun] } ∧
      (Full cs w → ∀ u, u ∈ offers ↔ u ∈ following query) ∧
      (¬Full cs w → ∀ u, u ∈ offers ↔ w ++ u ∈ cs) := by
  induction h with
  | @ends p next names query hp =>
    refine ⟨answer.filter fun c => c ∉ names.listed query, ?_, fun h => absurd rfl h.1, ?_⟩
    · simp [walk, atEnd, hp, candidates_eq, hanswer, Except.map]
    · intro _ u
      rw [String.empty_append]
  | @typed p next names query l hp hl =>
    exact walk_typed hp hl (by simp [candidates_eq, hanswer, Except.map])
  | @blank p names l ls query listed w hl _ ih =>
    rw [walk, if_pos hl]
    exact ih hanswer
  | @fits p next names names' l ls query listed w hl hfits hwants ih =>
    have hmore : ls.isEmpty = true → ∀ query next, p.afterGap.demand names ≠ .name query next := by
      intro hls query' q hp
      -- Behind a name a name would have to follow, but no place wants two in a row.
      rw [List.isEmpty_iff.1 hls] at hwants
      rw [fits_name hfits hp] at hwants
      cases hwants with
      | ends hnext => exact demand_after_name hp names' query _ hnext
    rw [walk, if_neg hl, read_of_fits hfits hmore]
    exact ih hanswer

theorem atEnd_found {n : Nat} {noun : String}
    (h : .found n noun ∈ (atEnd catalog names p).notes) :
    ∃ query next answer, p.demand names = .name query next ∧ catalog query = .ok answer := by
  rw [atEnd] at h
  cases hp : p.demand names with
  | name query next =>
    cases hanswer : catalog query with
    | ok answer => exact ⟨query, next, answer, rfl, hanswer⟩
    | error e => simp [hp, candidates_eq, hanswer, Except.map, degrade] at h
  | _ => simp [hp] at h

theorem typed_found {n : Nat} {noun : String} (hp : p.afterGap.demand names = .name query next)
    (hblank : l.kind ≠ .whitespace) (h : .found n noun ∈ (walk catalog p names [l]).notes) :
    isWord l = true ∧ ∃ answer, catalog query = .ok answer := by
  by_cases hl : isWord l = true
  · refine ⟨hl, ?_⟩
    cases hanswer : catalog query with
    | ok answer => exact ⟨answer, rfl⟩
    | error e =>
      rw [walk_name catalog hp hl, candidates_eq, hanswer] at h
      simp [Except.map, degrade] at h
  · rw [walk, if_neg hblank, Place.read, hp] at h
    simp [onName, hl, refuse] at h

/-- The walk only has an answer to look at where a name is wanted. -/
theorem wants_of_found {n : Nat} {noun : String}
    (h : .found n noun ∈ (walk catalog p names ls).notes) :
    ∃ query listed w answer, Wants p names ls query listed w ∧ catalog query = .ok answer := by
  induction ls generalizing p names with
  | nil =>
    obtain ⟨query, next, answer, hp, hanswer⟩ := atEnd_found h
    exact ⟨query, _, _, answer, .ends hp, hanswer⟩
  | cons l ls ih =>
    by_cases hl : l.kind = .whitespace
    · rw [walk, if_pos hl] at h
      obtain ⟨query, listed, w, answer, hwants, hanswer⟩ := ih h
      exact ⟨query, listed, w, answer, .blank hl hwants, hanswer⟩
    · by_cases hname : ls.isEmpty = true ∧ ∃ query next, p.afterGap.demand names = .name query next
      · obtain ⟨hls, query, next, hp⟩ := hname
        obtain rfl := List.isEmpty_iff.1 hls
        obtain ⟨hword, answer, hanswer⟩ := typed_found hp hl h
        exact ⟨query, _, _, answer, .typed hp hword, hanswer⟩
      · have hmore : ls.isEmpty = true → ∀ query next, p.afterGap.demand names ≠ .name query next :=
          fun hls query next hp => hname ⟨hls, query, next, hp⟩
        rw [walk, if_neg hl] at h
        rcases read_cases catalog p.afterGap names l ls.isEmpty with ⟨next, names', hfits⟩ |
          ⟨found, hread, hquiet, -⟩
        · rw [read_of_fits hfits hmore] at h
          obtain ⟨query, listed, w, answer, hwants, hanswer⟩ := ih h
          exact ⟨query, listed, w, answer, .fits hl hfits hwants, hanswer⟩
        · rw [hread] at h
          exact absurd h (hquiet n noun)

end Answer

section Statement

variable {catalog : Catalog}

theorem walkStatement_blanks {blanks ls : List Lexeme} {l : Lexeme}
    (hblanks : ∀ b ∈ blanks, b.kind = .whitespace) (hl : l.kind ≠ .whitespace) :
    walkStatement catalog (blanks ++ l :: ls) = onStatement catalog l ls := by
  induction blanks with
  | nil => rw [List.nil_append, walkStatement, if_neg hl]
  | cons b blanks ih =>
    rw [List.cons_append, walkStatement, if_pos (hblanks b (by simp))]
    exact ih fun c hc => hblanks c (by simp [hc])

theorem walkStatement_insert {blanks ls : List Lexeme} {l : Lexeme}
    (hblanks : ∀ b ∈ blanks, b.kind = .whitespace) (hl : l.token.isKeyword "insert" = true) :
    walkStatement catalog (blanks ++ l :: ls) = walk catalog .gapBeforeInto {} ls := by
  have hkind : l.kind ≠ .whitespace := by
    intro h
    simp [Token.isKeyword, Token.is, Lexeme.token, h] at hl
  rw [walkStatement_blanks hblanks hkind, onStatement, if_pos hl]

theorem insert_of_found {n : Nat} {noun : String} {lexemes : List Lexeme}
    (h : .found n noun ∈ (walkStatement catalog lexemes).notes) :
    ∃ blanks l ls, lexemes = blanks ++ l :: ls ∧ (∀ b ∈ blanks, b.kind = .whitespace) ∧
      l.token.isKeyword "insert" = true := by
  induction lexemes with
  | nil => simp [walkStatement] at h
  | cons l ls ih =>
    rw [walkStatement] at h
    split at h
    · rename_i hl
      obtain ⟨blanks, m, rest, rfl, hblanks, hm⟩ := ih h
      refine ⟨l :: blanks, m, rest, rfl, ?_, hm⟩
      simpa [hl] using hblanks
    · by_cases hl : l.token.isKeyword "insert" = true
      · exact ⟨[], l, ls, rfl, by simp, hl⟩
      · rw [onStatement, if_neg hl] at h
        split at h <;> simp at h

theorem complete_of_asks {input : String} {query : Query} {listed answer : List String}
    {w : String} (h : Asks input query listed w) (hanswer : catalog query = .ok answer) :
    let cs := answer.filter fun c => c ∉ listed
    ∃ offers, complete catalog input =
        ⟨rankCandidates offers, none, [.found cs.length query.noun]⟩ ∧
      (Full cs w → ∀ u, u ∈ offers ↔ u ∈ following query) ∧
      (¬Full cs w → ∀ u, u ∈ offers ↔ w ++ u ∈ cs) := by
  obtain ⟨blanks, l, ls, hscan, hblanks, hl, hwants⟩ := h
  obtain ⟨offers, hwalk, hoffers⟩ := walk_of_wants hwants hanswer
  refine ⟨offers, ?_, hoffers⟩
  rw [complete, hscan, walkStatement_insert hblanks hl, hwalk]

/-- What is offered where a name is wanted and not typed in full. -/
theorem mem_suffixes_of_asks {input : String} {query : Query} {listed answer : List String}
    {w : String} (h : Asks input query listed w) (hanswer : catalog query = .ok answer)
    (hpart : ¬Full (answer.filter fun c => c ∉ listed) w) (u : String) :
    u ∈ (complete catalog input).suffixes ↔ u ≠ "" ∧ w ++ u ∈ answer ∧ w ++ u ∉ listed := by
  obtain ⟨offers, hcomplete, -, hoffers⟩ := complete_of_asks h hanswer
  rw [hcomplete, mem_rankCandidates, hoffers hpart, and_comm]
  simp

theorem asks_of_found {input : String} {n : Nat} {noun : String}
    (h : .found n noun ∈ (complete catalog input).notes) :
    ∃ query listed w answer, Asks input query listed w ∧ catalog query = .ok answer := by
  rw [complete] at h
  obtain ⟨blanks, l, ls, hscan, hblanks, hl⟩ := insert_of_found h
  rw [hscan, walkStatement_insert hblanks hl] at h
  obtain ⟨query, listed, w, answer, hwants, hanswer⟩ := wants_of_found h
  exact ⟨query, listed, w, answer, ⟨blanks, l, ls, hscan, hblanks, hl, hwants⟩, hanswer⟩

theorem following_ranked (query : Query) :
    (following query).Pairwise Before ∧ "" ∉ following query := by
  cases query with
  | keyspaces => simp [following]
  | tables keyspace => simp [following]
  | columns keyspace table =>
    have hbefore : Before ")" "," := Or.inr (by decide)
    simp [following, hbefore]

/-- Completion looks at an answer of the catalog exactly where a name is wanted. What it then
offers is what filtering the answer gives, ordered by bytes: the remainders of the names that
start with what is typed. A name in full that is the start of no other is followed instead. -/
theorem complete_names (catalog : Catalog) (input : String) :
    (∀ n noun, .found n noun ∈ (complete catalog input).notes ↔
      ∃ query listed w answer, Asks input query listed w ∧ catalog query = .ok answer ∧
        n = (answer.filter fun c => c ∉ listed).length ∧ noun = query.noun) ∧
    ∀ query listed w answer, Asks input query listed w → catalog query = .ok answer →
      let cs := answer.filter fun c => c ∉ listed
      let suffixes := (complete catalog input).suffixes
      (Full cs w → suffixes = following query) ∧
      (¬Full cs w → suffixes.Nodup ∧ suffixes.Pairwise Before ∧
        ∀ u, u ∈ suffixes ↔ u ≠ "" ∧ w ++ u ∈ cs) := by
  constructor
  · intro n noun
    constructor
    · intro hfound
      obtain ⟨query, listed, w, answer, hasks, hanswer⟩ := asks_of_found hfound
      obtain ⟨offers, hcomplete, -⟩ := complete_of_asks hasks hanswer
      rw [hcomplete, List.mem_singleton, Note.found.injEq] at hfound
      exact ⟨query, listed, w, answer, hasks, hanswer, hfound⟩
    · rintro ⟨query, listed, w, answer, hasks, hanswer, rfl, rfl⟩
      obtain ⟨offers, hcomplete, -⟩ := complete_of_asks hasks hanswer
      rw [hcomplete]
      exact List.mem_singleton_self _
  · intro query listed w answer hasks hanswer cs suffixes
    obtain ⟨offers, hcomplete, hfull, hpart⟩ := complete_of_asks hasks hanswer
    have hsuffixes : suffixes = rankCandidates offers := congrArg Completions.suffixes hcomplete
    have hranked := pairwise_rankCandidates offers
    rw [hsuffixes]
    constructor
    · intro h
      obtain ⟨hfollowing, hempty⟩ := following_ranked query
      refine eq_of_pairwise_before hranked hfollowing fun u => ?_
      rw [mem_rankCandidates, hfull h u]
      refine ⟨And.left, fun hu => ⟨hu, ?_⟩⟩
      rintro rfl
      exact hempty hu
    · intro h
      refine ⟨hranked.imp Before.ne, hranked, fun u => ?_⟩
      rw [mem_rankCandidates, hpart h u, and_comm]

/-- A word that two keyspaces start with is completed, a keyspace in full is not. -/
theorem complete_names_keyspaces :
    let catalog : Catalog := fun _ => .ok ["system_auth", "store", "system"]
    (Asks "insert into sys" .keyspaces [] "sys" ∧
      ∀ u, u ∈ (complete catalog "insert into sys").suffixes ↔
        u ≠ "" ∧ "sys" ++ u ∈ ["system_auth", "store", "system"]) ∧
    Asks "insert into store" .keyspaces [] "store" ∧
      (complete catalog "insert into store").suffixes = ["."] := by
  intro catalog
  have hpart : Asks "insert into sys" .keyspaces [] "sys" :=
    ⟨[], ⟨0, "insert".toList⟩, [⟨6, [' ']⟩, ⟨7, "into".toList⟩, ⟨11, [' ']⟩, ⟨12, "sys".toList⟩],
      by decide, by simp, by decide,
      .blank (by decide) (.fits (by decide) (.word rfl (by decide))
        (.blank (by decide) (.typed rfl (by decide))))⟩
  have hfull : Asks "insert into store" .keyspaces [] "store" :=
    ⟨[], ⟨0, "insert".toList⟩, [⟨6, [' ']⟩, ⟨7, "into".toList⟩, ⟨11, [' ']⟩, ⟨12, "store".toList⟩],
      by decide, by simp, by decide,
      .blank (by decide) (.fits (by decide) (.word rfl (by decide))
        (.blank (by decide) (.typed rfl (by decide))))⟩
  refine ⟨⟨hpart, ?_⟩, hfull, ?_⟩
  · have hnot : ¬Full ["system_auth", "store", "system"] "sys" := fun h => absurd h.2.1 (by decide)
    exact (((complete_names catalog _).2 _ _ _ _ hpart rfl).2 hnot).2.2
  · have hstore : Full ["system_auth", "store", "system"] "store" :=
      (complete_eq_singleton_iff _ (by decide)).1 (by decide)
    exact ((complete_names catalog _).2 _ _ _ _ hfull rfl).1 hstore

end Statement

end CqlConsole.Completion
