import CqlConsole.Proofs.Completion.Acceptance
import CqlConsole.Proofs.Schema.Lookup

/-!
# Writing a target by completion alone

A text that starts with `insert` can be written by picking one offer after the
other. Each pick is a piece of its own in the text, so the walk and the parser
come through it in step. With names of which none is the start of another, the
picks lead from `insert` to the values of any table and any of its columns.
-/

set_option autoImplicit false

namespace CqlConsole.Completion

open CqlConsole.Insert CqlConsole.Run CqlConsole.Text

/-- An offer that is picked at a place, and the place and the names behind it. A name is picked
where it is the start of no other that is offered. -/
inductive Pick (catalog : Catalog) (p : Place) (names : Names) : String → Place → Names → Prop where
  | space {next : Place} : p.demand names = .gap next → Pick catalog p names " " next names
  | word {word : String} {next : Place} :
      p.demand names = .word word next → Pick catalog p names word next names
  | name {query : Query} {next : Place} {cs : List String} {w : String} :
      p.demand names = .name query next → candidates catalog names query = .ok cs →
      Full cs w → IsName w → Pick catalog p names w next (names.accept query w)
  | comma : p.demand names = .moreColumns → Pick catalog p names "," .gapBeforeColumn names
  | close : p.demand names = .moreColumns → Pick catalog p names ")" .gapBeforeValues names

inductive Picks (catalog : Catalog) : Place → Names → List String → Place → Names → Prop where
  | nil {p : Place} {names : Names} : Picks catalog p names [] p names
  | cons {p q r : Place} {names names' names'' : Names} {w : String} {ws : List String} :
      Pick catalog p names w q names' → Picks catalog q names' ws r names'' →
      Picks catalog p names (w :: ws) r names''

namespace Pick

variable {catalog : Catalog} {p next q : Place} {names names' names'' : Names} {w v : String}

theorem offered (h : Pick catalog p names w next names') :
    w ∈ (atEnd catalog names p).offers := by
  cases h with
  | space hp => simp [atEnd, hp]
  | word hp => simp [atEnd, hp]
  | name hp hcs hfull _ => simpa [atEnd, hp, hcs] using hfull.2.1
  | comma hp => simp [atEnd, hp]
  | close hp => simp [atEnd, hp]

theorem space_or_fits (h : Pick catalog p names w next names') (n : Nat) :
    (w = " " ∧ names' = names ∧ p.demand names = .gap next) ∨
      (Fits p names ⟨n, w.toList⟩ next names' ∧ kind w.toList ≠ .whitespace ∧
        ∀ query q, p.demand names = .name query q → IsName w ∧
          ∃ cs, candidates catalog names query = .ok cs ∧ Full cs w) := by
  cases h with
  | space hp => exact Or.inl ⟨rfl, rfl, hp⟩
  | word hp =>
    obtain ⟨hlower, hkind, -⟩ := piece_of_wanted hp
    exact Or.inr ⟨.word hp hlower, hkind, by simp [hp]⟩
  | @name query next cs w hp hcs hfull hname =>
    have hkind := (solid_of_isName hname).2
    have hword : isWord ⟨n, w.toList⟩ = true := isWord_iff.2 (Or.inl hkind)
    have hfits : Fits p names ⟨n, w.toList⟩ next
        (names.accept query (String.ofList w.toList)) := .name hp hword
    rw [String.ofList_toList] at hfits
    refine Or.inr ⟨hfits, by simp [hkind], fun query' q hq => ?_⟩
    rw [hp, Demand.name.injEq] at hq
    rw [← hq.1]
    exact ⟨hname, cs, hcs, hfull⟩
  | comma hp => exact Or.inr ⟨.comma hp rfl, by decide, by simp [hp]⟩
  | close hp => exact Or.inr ⟨.close hp rfl, by decide, by simp [hp]⟩

theorem exists_endMode (h : Pick catalog p names w next names') : ∃ m, endMode w.toList = some m := by
  cases h with
  | space _ => exact ⟨.blanks, rfl⟩
  | word hp => exact Option.isSome_iff_exists.1 (piece_of_wanted hp).2.2
  | name _ _ _ hname => exact endMode_of_isName hname
  | comma _ => exact ⟨.punctuation, rfl⟩
  | close _ => exact ⟨.punctuation, rfl⟩

theorem ne_nil (h : Pick catalog p names w next names') : w.toList ≠ [] := by
  obtain ⟨m, hm⟩ := h.exists_endMode
  intro hnil
  rw [hnil] at hm
  cases hm

theorem endsAt (h : Pick catalog p names w next names') (h' : Pick catalog next names' v q names'')
    {m : Mode} (hm : endMode w.toList = some m) : m.endsAt v.toList = true := by
  rcases h.space_or_fits 0 with ⟨rfl, -, hp⟩ | ⟨hfits, -, hname⟩
  · obtain rfl : Mode.blanks = m := Option.some.inj hm
    rcases h'.space_or_fits 0 with ⟨-, -, hnext⟩ | ⟨-, hkind, -⟩
    · exact absurd hnext ((afterGap_of_gap hp).2 names' q)
    · rw [← Mode.endsAt_append h'.ne_nil []]
      exact blanks_endsAt h'.ne_nil hkind []
  · exact endsAt_offer hfits (fun query q hp => (solid_of_isName (hname query q hp).1).2) hm
      h'.offered

theorem walk_cons (h : Pick catalog p names w next names') (n : Nat) (ls : List Lexeme) :
    (walk catalog p names (⟨n, w.toList⟩ :: ls)).offers = (walk catalog next names' ls).offers := by
  rcases h.space_or_fits n with ⟨rfl, rfl, hp⟩ | ⟨hfits, hkind, hname⟩
  · have hblank : Lexeme.kind ⟨n, " ".toList⟩ = .whitespace := rfl
    rw [walk, if_pos hblank, (afterGap_of_gap hp).1]
  · have hblank : Lexeme.kind ⟨n, w.toList⟩ ≠ .whitespace := hkind
    obtain ⟨notes, hread⟩ : ∃ notes, p.read catalog names ⟨n, w.toList⟩ ls.isEmpty =
        .advance next names' notes := by
      refine read_of_full hfits (fun query q hp => ?_) _
      rw [String.ofList_toList]
      exact (hname query q hp).2
    rw [walk, if_neg hblank, afterGap_of_fits hfits, hread]
    rfl

end Pick

theorem isKeyword_insert : (Lexeme.token ⟨0, "insert".toList⟩).isKeyword "insert" = true := by
  decide

namespace Picks

variable {catalog : Catalog} {p q r : Place} {names names' names'' : Names}
  {ws vs : List String}

theorem append (h : Picks catalog p names ws q names') (h' : Picks catalog q names' vs r names'') :
    Picks catalog p names (ws ++ vs) r names'' := by
  induction h with
  | nil => exact h'
  | cons hpick _ ih => exact .cons hpick (ih h')

/-- Each of the offers is on offer behind the ones before it. -/
theorem offered_at (h : Picks catalog p names ws q names') {i : Nat} (hi : i < ws.length) :
    ∃ r names'', Picks catalog p names (ws.take i) r names'' ∧
      ws[i] ∈ (atEnd catalog names'' r).offers ∧ ws[i] ≠ "" := by
  induction h generalizing i with
  | nil => cases hi
  | @cons p q r names names' names'' w ws hpick _ ih =>
    cases i with
    | zero => exact ⟨p, names, .nil, hpick.offered, by simpa using hpick.ne_nil⟩
    | succ i =>
      obtain ⟨r, names₁, hfront, hoffer⟩ := ih (Nat.lt_of_succ_lt_succ hi)
      exact ⟨r, names₁, .cons hpick hfront, hoffer⟩

theorem split_join {s : List Char} {m : Mode} (h : Picks catalog p names ws q names')
    (hm : endMode s = some m)
    (hends : ∀ w r names'', Pick catalog p names w r names'' → m.endsAt w.toList = true) :
    split (s ++ (String.join ws).toList) = s :: ws.map String.toList := by
  -- On the picks, for any run in front: where it ends, the next pick begins.
  induction h generalizing s m with
  | nil => simpa using split_single hm
  | @cons p q r names names' names'' w ws hpick _ ih =>
    obtain ⟨k, hk⟩ := hpick.exists_endMode
    have hw : m.endsAt (w.toList ++ (String.join ws).toList) = true := by
      rw [Mode.endsAt_append hpick.ne_nil]
      exact hends w q names' hpick
    rw [String.join_cons, String.toList_append, split_append hm hw,
      ih hk fun v r names'' hnext => hpick.endsAt hnext hk]
    rfl

theorem scan_join (h : Picks catalog .gapBeforeInto {} ws p names) :
    Lexeme.scan (String.join ("insert" :: ws)).toList =
      ⟨0, "insert".toList⟩ :: Lexeme.place 6 (ws.map String.toList) := by
  have hword : endMode "insert".toList = some .word := rfl
  have hends : ∀ w r names'', Pick catalog .gapBeforeInto {} w r names'' →
      Mode.word.endsAt w.toList = true := by
    intro w r names'' hpick
    obtain rfl : w = " " := List.mem_singleton.1 hpick.offered
    rfl
  rw [String.join_cons, String.toList_append, Lexeme.scan, h.split_join hword hends]
  rfl

theorem walk_place (h : Picks catalog p names ws q names') (n : Nat) :
    (walk catalog p names (Lexeme.place n (ws.map String.toList))).offers =
      (atEnd catalog names' q).offers := by
  induction h generalizing n with
  | nil => rfl
  | cons hpick _ ih =>
    rw [List.map_cons, Lexeme.place, hpick.walk_cons]
    exact ih _

theorem mem_complete (h : Picks catalog .gapBeforeInto {} ws p names) (u : String) :
    u ∈ (complete catalog (String.join ("insert" :: ws))).suffixes ↔
      u ∈ (atEnd catalog names p).offers ∧ u ≠ "" := by
  have hwalk : walkStatement catalog (⟨0, "insert".toList⟩ :: Lexeme.place 6 (ws.map String.toList)) =
      walk catalog .gapBeforeInto {} (Lexeme.place 6 (ws.map String.toList)) :=
    @walkStatement_insert catalog [] _ _ (by simp) isKeyword_insert
  rw [complete, h.scan_join, hwalk, mem_rankCandidates, h.walk_place]

theorem readFrom_place (h : Picks catalog p names ws q names') {s : State} (hs : p.Meets s)
    (n : Nat) : ∃ s' ts, q.Meets s' ∧
      readFrom s (p.draft names) (Cursor.solid ⟨n, Lexeme.place n (ws.map String.toList)⟩) =
        .ok ⟨(q.draft names').statement, .incomplete s', ts⟩ := by
  induction h generalizing s n with
  | @nil p names =>
    refine ⟨s, [], hs, ?_⟩
    simp [Cursor.solid, Lexeme.place, readFrom, not_accepting hs]
  | @cons p q r names names' names'' w ws hpick _ ih =>
    rw [List.map_cons, Lexeme.place, Cursor.solid_cons n (n + byteSize w.toList)]
    -- A space leaves the parser where it is, also in the state for a further column.
    rcases hpick.space_or_fits n with ⟨rfl, rfl, hp⟩ | ⟨hfits, hkind, hname⟩
    · have hblank : Lexeme.kind ⟨n, " ".toList⟩ = .whitespace := rfl
      obtain ⟨hmeets, hdraft⟩ := meets_of_gap hp hs
      rw [if_pos hblank, ← hdraft]
      exact ih hmeets _
    · have hblank : Lexeme.kind ⟨n, w.toList⟩ ≠ .whitespace := hkind
      obtain ⟨s', ts, hs', hread⟩ := ih (Or.inl rfl) (n + byteSize w.toList)
      rw [if_neg hblank, readFrom_fits hfits
        (fun query q hp => (solid_of_isName (hname query q hp).1).2) hs, hread]
      exact ⟨s', _ :: ts, hs', rfl⟩

/-- The parser comes to the place that the picks lead to, with the names that were picked. -/
theorem inspect_join (h : Picks catalog .gapBeforeInto {} ws p names) :
    ∃ s ts, p.Meets s ∧ inspect (String.join ("insert" :: ws)) =
      .ok ⟨(p.draft names).statement, .incomplete s, ts⟩ := by
  have hsolid : solidTokens (String.join ("insert" :: ws)) = Lexeme.token ⟨0, "insert".toList⟩ ::
      Cursor.solid ⟨6, Lexeme.place 6 (ws.map String.toList)⟩ := by
    have hblank : Lexeme.kind ⟨0, "insert".toList⟩ ≠ .whitespace := by decide
    rw [← Cursor.solid_ofInput, Cursor.ofInput, h.scan_join, Cursor.solid_cons 0 6, if_neg hblank]
  have hstart : Place.gapBeforeInto.Meets .into := Or.inl rfl
  rw [inspect_of_insert hsolid isKeyword_insert]
  exact h.readFrom_place hstart 6

end Picks

def Separate (names : List String) : Prop :=
  ∀ n ∈ names, IsName n ∧ ∀ m ∈ names, n.toList <+: m.toList → m = n

instance (names : List String) : Decidable (Separate names) :=
  inferInstanceAs (Decidable (∀ n ∈ names, IsName n ∧ ∀ m ∈ names, n.toList <+: m.toList → m = n))

def columnPieces : List String → List String
  | [] => []
  | c :: cs => c :: cs.flatMap fun d => [",", " ", d]

def targetPieces (keyspace table : String) (columns : List String) : List String :=
  [" ", "into", " ", keyspace, ".", table, "("] ++ columnPieces columns ++ [")", " ", "values", "("]

section Target

variable {catalog : Catalog} {keyspaces tables answer listed columns : List String}
  {w keyspace table : String}

theorem ne_empty_of_isName (h : IsName w) : w ≠ "" := by
  rintro rfl
  cases (solid_of_isName h).1

theorem full_of_separate (h : Separate answer) (hw : w ∈ answer) (hnew : w ∉ listed) :
    Full (answer.filter fun c => c ∉ listed) w := by
  obtain ⟨hname, honly⟩ := h w hw
  refine ⟨ne_empty_of_isName hname, by simpa using ⟨hw, hnew⟩, fun u hu => ?_⟩
  have hsame := honly (w ++ u) (List.mem_of_mem_filter hu) (by simp)
  simpa using congrArg String.toList hsame

theorem pick_name {p next : Place} {names : Names} {query : Query}
    (hp : p.demand names = .name query next) (hanswer : catalog query = .ok answer)
    (h : Separate answer) (hw : w ∈ answer) (hnew : w ∉ names.listed query) :
    Pick catalog p names w next (names.accept query w) := by
  have hcs : candidates catalog names query =
      .ok (answer.filter fun c => c ∉ names.listed query) := by
    rw [candidates_eq, hanswer]
    rfl
  exact .name hp hcs (full_of_separate h hw hnew) (h w hw).1

theorem picks_columns (hanswer : catalog (.columns keyspace table) = .ok answer)
    (h : Separate answer) (hmem : ∀ c ∈ columns, c ∈ answer) (hnodup : (listed ++ columns).Nodup) :
    Picks catalog .afterColumn ⟨keyspace, table, listed⟩ (columns.flatMap fun c => [",", " ", c])
      .afterColumn ⟨keyspace, table, listed ++ columns⟩ := by
  induction columns generalizing listed with
  | nil =>
    rw [List.append_nil]
    exact .nil
  | cons c columns ih =>
    obtain ⟨hc, hmem⟩ := List.forall_mem_cons.1 hmem
    have hnew : c ∉ listed := fun hc => (List.nodup_append.1 hnodup).2.2 c hc c (by simp) rfl
    rw [List.append_cons] at hnodup
    have hpick : Pick catalog .column ⟨keyspace, table, listed⟩ c .afterColumn
        ⟨keyspace, table, listed ++ [c]⟩ := pick_name rfl hanswer h hc hnew
    have hrest := ih hmem hnodup
    rw [List.append_assoc] at hrest
    exact .cons (.comma rfl) (.cons (.space rfl) (.cons hpick hrest))

theorem picks_target (hkeyspaces : catalog .keyspaces = .ok keyspaces) (hk : Separate keyspaces)
    (hkeyspace : keyspace ∈ keyspaces) (htables : catalog (.tables keyspace) = .ok tables)
    (ht : Separate tables) (htable : table ∈ tables)
    (hanswer : catalog (.columns keyspace table) = .ok answer) (h : Separate answer)
    (hne : columns ≠ []) (hmem : ∀ c ∈ columns, c ∈ answer) (hnodup : columns.Nodup) :
    Picks catalog .gapBeforeInto {} (targetPieces keyspace table columns) .done
      ⟨keyspace, table, columns⟩ := by
  obtain ⟨c, rest, rfl⟩ := List.exists_cons_of_ne_nil hne
  obtain ⟨hc, hrest⟩ := List.forall_mem_cons.1 hmem
  have hfirst : Pick catalog .column ⟨keyspace, table, []⟩ c .afterColumn
      ⟨keyspace, table, [c]⟩ := pick_name rfl hanswer h hc (by simp [Names.listed])
  have hcolumns : Picks catalog .column ⟨keyspace, table, []⟩ (columnPieces (c :: rest))
      .afterColumn ⟨keyspace, table, c :: rest⟩ :=
    .cons hfirst (picks_columns hanswer h hrest hnodup)
  have hopen : Picks catalog .gapBeforeInto {} [" ", "into", " ", keyspace, ".", table, "("]
      .column ⟨keyspace, table, []⟩ :=
    .cons (.space rfl) (.cons (.word rfl) (.cons (.space rfl)
      (.cons (pick_name rfl hkeyspaces hk hkeyspace (by simp [Names.listed])) (.cons (.word rfl)
        (.cons (pick_name rfl htables ht htable (by simp [Names.listed]))
          (.cons (.word rfl) .nil))))))
  have hclose : Picks catalog .afterColumn ⟨keyspace, table, c :: rest⟩ [")", " ", "values", "("]
      .done ⟨keyspace, table, c :: rest⟩ :=
    .cons (.close rfl) (.cons (.space rfl) (.cons (.word rfl) (.cons (.word rfl) .nil)))
  exact (hopen.append hcolumns).append hclose

end Target

end CqlConsole.Completion

namespace CqlConsole.Schema

open CqlConsole.Completion

/-- The names of a snapshot can be told apart by their starts where they are offered together. -/
structure Snapshot.Separate (s : Snapshot) : Prop where
  keyspaces : Completion.Separate (s.keyspaces.map Keyspace.name)
  tables : ∀ k ∈ s.keyspaces, Completion.Separate (k.tables.map Table.name)
  columns : ∀ k ∈ s.keyspaces, ∀ t ∈ k.tables, Completion.Separate t.columns

/-- Any columns of any table can be listed by completion alone: behind `insert` each piece of the text
is on offer where it stands, and the parser reads the whole as this target, up to the first value. -/
theorem target_written {s : Snapshot} {k : Keyspace} {t : Table} {columns : List String}
    (hvalid : s.validate = .ok ()) (h : s.Separate) (hk : k ∈ s.keyspaces) (ht : t ∈ k.tables)
    (hne : columns ≠ []) (hmem : ∀ c ∈ columns, c ∈ t.columns) (hnodup : columns.Nodup) :
    let pieces := "insert" :: targetPieces k.name t.name columns
    (∀ i (hi : i < pieces.length), 1 ≤ i →
      pieces[i] ∈ (complete s.catalog (String.join (pieces.take i))).suffixes) ∧
    ∃ r, inspect (String.join pieces) = .ok r ∧ r.outcome = .incomplete .firstValue ∧
      r.statement = { keyspace := some k.name, table := t.name, columns := columns } := by
  intro pieces
  have hpicks : Picks s.catalog .gapBeforeInto {} (targetPieces k.name t.name columns) .done
      ⟨k.name, t.name, columns⟩ :=
    picks_target rfl h.keyspaces (List.mem_map_of_mem hk) (Snapshot.catalog_tables hvalid hk)
      (h.tables k hk) (List.mem_map_of_mem ht) (Snapshot.catalog_columns hvalid hk ht)
      (h.columns k hk t ht) hne hmem hnodup
  constructor
  · intro i hi hfirst
    obtain ⟨j, rfl⟩ := Nat.exists_eq_add_of_le' hfirst
    obtain ⟨p, names, hfront, hoffer⟩ := hpicks.offered_at (Nat.lt_of_succ_lt_succ hi)
    exact (hfront.mem_complete _).2 hoffer
  · obtain ⟨state, ts, hmeets, hinspect⟩ := hpicks.inspect_join
    obtain rfl : state = .firstValue := by
      rcases hmeets with h | ⟨h, -⟩
      · exact h
      · cases h
    exact ⟨_, hinspect, rfl, rfl⟩

/-- A table next to others: behind its keyspace it is offered, and the text that names two of its
columns is read with them. -/
theorem target_written_users :
    let users : Table := { name := "users", columns := ["id", "email", "age"] }
    let store : Keyspace := { name := "store", tables := [{ name := "orders" }, users] }
    let s : Snapshot := { keyspaces := [{ name := "system" }, store] }
    "users" ∈ (complete s.catalog "insert into store.").suffixes ∧
    ∃ r, inspect "insert into store.users(age, id) values(" = .ok r ∧
      r.outcome = .incomplete .firstValue ∧
      r.statement = { keyspace := some "store", table := "users", columns := ["age", "id"] } := by
  intro users store s
  have hseparate : s.Separate := ⟨by decide +kernel, by decide +kernel, by decide +kernel⟩
  have hstore : store ∈ s.keyspaces := by simp [s]
  have husers : users ∈ store.tables := by simp [store]
  have hcolumns : ∀ c ∈ ["age", "id"], c ∈ users.columns := by decide
  obtain ⟨hoffered, hread⟩ := target_written (by decide) hseparate hstore husers (by decide)
    hcolumns (by decide)
  exact ⟨hoffered 6 (by decide) (by decide), hread⟩

end CqlConsole.Schema
