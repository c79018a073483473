import CqlConsole.Proofs.Schema.Lookup

/-!
# What a typed name stands for

A typed name stands for the entry of exactly this name, and if there is none, for
the entry whose name it is once quotes and capitals are read as CQL reads them.
In a snapshot that is valid it stands for at most one entry, so lookups find
what they list and do not depend on the order of keyspaces and tables.
-/

set_option autoImplicit false

namespace CqlConsole.Schema

def FirstRepeat (names : List String) (n : String) : Prop :=
  ∃ front rest, names = front ++ n :: rest ∧ front.Nodup ∧ n ∈ front

section Repeated

variable {seen names : List String} {n : String} {keyspaces : List Keyspace}

theorem firstRepeated_eq_some (hseen : seen.Nodup) :
    firstRepeated seen names = some n ↔
      ∃ front rest, names = front ++ n :: rest ∧ (seen ++ front).Nodup ∧ n ∈ seen ++ front := by
  induction names generalizing seen with
  | nil => simp [firstRepeated]
  | cons m names ih =>
    rw [firstRepeated]
    by_cases hm : m ∈ seen
    · -- Anything in front of `n` would begin with the name `m` that is seen already.
      rw [if_pos hm, Option.some.injEq]
      constructor
      · rintro rfl
        exact ⟨[], names, rfl, by simpa using hseen, by simpa using hm⟩
      · rintro ⟨front, rest, hnames, hnodup, -⟩
        cases front with
        | nil => exact (List.cons.inj hnames).1
        | cons x front =>
          obtain rfl : m = x := (List.cons.inj hnames).1
          exact absurd rfl ((List.nodup_append.1 hnodup).2.2 m hm m List.mem_cons_self)
    · have hlonger : (seen ++ [m]).Nodup := by
        rw [List.nodup_append]
        refine ⟨hseen, List.nodup_singleton m, ?_⟩
        rintro x hx y hy rfl
        exact hm (List.mem_singleton.1 hy ▸ hx)
      rw [if_neg hm, ih hlonger]
      constructor
      · rintro ⟨front, rest, rfl, hnodup, hn⟩
        rw [← List.append_cons] at hnodup hn
        exact ⟨m :: front, rest, rfl, hnodup, hn⟩
      · rintro ⟨front, rest, hnames, hnodup, hn⟩
        cases front with
        | nil =>
          obtain rfl : m = n := (List.cons.inj hnames).1
          exact absurd (by simpa using hn) hm
        | cons x front =>
          obtain ⟨rfl, rfl⟩ := List.cons.inj hnames
          rw [List.append_cons] at hnodup hn
          exact ⟨front, rest, rfl, hnodup, hn⟩

theorem firstRepeated_iff : firstRepeated [] names = some n ↔ FirstRepeat names n :=
  firstRepeated_eq_some List.nodup_nil

theorem FirstRepeat.not_nodup (h : FirstRepeat names n) : ¬names.Nodup := by
  obtain ⟨front, rest, rfl, -, hn⟩ := h
  intro hnodup
  exact (List.nodup_append.1 hnodup).2.2 n hn n List.mem_cons_self rfl

theorem repeatedTable?_eq_some {keyspace table : String} :
    repeatedTable? keyspaces = some (keyspace, table) ↔
      ∃ front k rest, keyspaces = front ++ k :: rest ∧
        (∀ j ∈ front, (j.tables.map Table.name).Nodup) ∧
        FirstRepeat (k.tables.map Table.name) table ∧ k.name = keyspace := by
  induction keyspaces with
  | nil => simp [repeatedTable?]
  | cons j keyspaces ih =>
    rw [repeatedTable?]
    cases h : firstRepeated [] (j.tables.map Table.name) with
    | some n =>
      have hrepeat := firstRepeated_iff.1 h
      simp only [Option.some.injEq, Prod.mk.injEq]
      constructor
      · rintro ⟨rfl, rfl⟩
        exact ⟨[], j, keyspaces, rfl, by simp, hrepeat, rfl⟩
      · rintro ⟨front, k, rest, hkeyspaces, hfront, hk, hname⟩
        cases front with
        | nil =>
          obtain rfl : j = k := (List.cons.inj hkeyspaces).1
          rw [firstRepeated_iff.2 hk] at h
          exact ⟨hname, (Option.some.inj h).symm⟩
        | cons x front =>
          obtain rfl : j = x := (List.cons.inj hkeyspaces).1
          exact absurd (hfront j List.mem_cons_self) hrepeat.not_nodup
    | none =>
      have hnodup := (firstRepeated_eq_none.1 h).1
      simp only [ih]
      constructor
      · rintro ⟨front, k, rest, rfl, hfront, hk⟩
        exact ⟨j :: front, k, rest, rfl, List.forall_mem_cons.2 ⟨hnodup, hfront⟩, hk⟩
      · rintro ⟨front, k, rest, hkeyspaces, hfront, hk, hname⟩
        cases front with
        | nil =>
          obtain rfl : j = k := (List.cons.inj hkeyspaces).1
          exact absurd hnodup hk.not_nodup
        | cons x front =>
          obtain ⟨rfl, rfl⟩ := List.cons.inj hkeyspaces
          exact ⟨front, k, rest, rfl, (List.forall_mem_cons.1 hfront).2, hk, hname⟩

end Repeated

namespace Snapshot

section Validation

variable {s : Snapshot} {e : SchemaError}

inductive Fault (s : Snapshot) : String → Prop where
  | keyspace {n : String} : FirstRepeat (s.keyspaces.map Keyspace.name) n →
      Fault s ("duplicate keyspace '" ++ n ++ "'")
  | table {front rest : List Keyspace} {k : Keyspace} {n : String} :
      (s.keyspaces.map Keyspace.name).Nodup → s.keyspaces = front ++ k :: rest →
      (∀ j ∈ front, (j.tables.map Table.name).Nodup) →
      FirstRepeat (k.tables.map Table.name) n →
      Fault s ("duplicate table '" ++ k.name ++ "." ++ n ++ "'")

theorem validate_of_fault {reason : String} (h : s.Fault reason) :
    s.validate = .error (.invalidSnapshot reason) := by
  cases h with
  | keyspace hrepeat => rw [validate, firstRepeated_iff.2 hrepeat]
  | table hnodup hkeyspaces hfront hrepeat =>
    have hnone : firstRepeated [] (s.keyspaces.map Keyspace.name) = none :=
      firstRepeated_eq_none.2 ⟨hnodup, by simp⟩
    rw [validate, hnone, repeatedTable?_eq_some.2 ⟨_, _, _, hkeyspaces, hfront, hrepeat, rfl⟩]

theorem validate_eq_error :
    s.validate = .error e ↔ ∃ reason, s.Fault reason ∧ e = .invalidSnapshot reason := by
  constructor
  · intro h
    rw [validate] at h
    cases hk : firstRepeated [] (s.keyspaces.map Keyspace.name) with
    | some n =>
      rw [hk] at h
      exact ⟨_, .keyspace (firstRepeated_iff.1 hk), (Except.error.inj h).symm⟩
    | none =>
      rw [hk] at h
      cases ht : repeatedTable? s.keyspaces with
      | some repeated =>
        obtain ⟨keyspace, table⟩ := repeated
        obtain ⟨front, k, rest, hkeyspaces, hfront, hrepeat, rfl⟩ := repeatedTable?_eq_some.1 ht
        rw [ht] at h
        have hnodup := (firstRepeated_eq_none.1 hk).1
        exact ⟨_, .table hnodup hkeyspaces hfront hrepeat, (Except.error.inj h).symm⟩
      | none =>
        rw [ht] at h
        cases h
  · rintro ⟨reason, hfault, rfl⟩
    exact validate_of_fault hfault

end Validation

end Snapshot

/-- The entry has the typed name, or no entry has it and the name of this one is what the typed
text reads as. -/
def StandsFor {α : Type} (name : α → String) (entries : List α) (typed : String) (e : α) : Prop :=
  e ∈ entries ∧
    (name e = typed ∨ (∀ x ∈ entries, name x ≠ typed) ∧ name e = Text.identifierName typed)

def StandsForNone {α : Type} (name : α → String) (entries : List α) (typed : String) : Prop :=
  ∀ x ∈ entries, name x ≠ typed ∧ name x ≠ Text.identifierName typed

instance {α : Type} [DecidableEq α] (name : α → String) (entries : List α) (typed : String) (e : α) :
    Decidable (StandsFor name entries typed e) :=
  inferInstanceAs (Decidable (_ ∧ _))

instance {α : Type} (name : α → String) (entries : List α) (typed : String) :
    Decidable (StandsForNone name entries typed) :=
  inferInstanceAs (Decidable (∀ x ∈ entries, _))

section Named

variable {α : Type} {name : α → String} {entries entries' : List α} {typed : String} {e : α}

theorem findNamed_eq_some (hnodup : (entries.map name).Nodup) :
    findNamed name typed entries = some e ↔ StandsFor name entries typed e := by
  have hnone : entries.find? (fun x => name x == typed) = none ↔ ∀ x ∈ entries, name x ≠ typed := by
    simp
  rw [findNamed, Option.or_eq_some_iff, find?_eq_some_iff hnodup, find?_eq_some_iff hnodup, hnone,
    StandsFor]
  tauto

theorem findNamed_eq_none :
    findNamed name typed entries = none ↔ StandsForNone name entries typed := by
  simp [findNamed, Option.or_eq_none_iff, StandsForNone, forall_and]

end Named

namespace Snapshot

section Answers

variable {s : Snapshot} {k : Keyspace} {typed : String} {e : SchemaError}

theorem keyspace_eq_ok (h : (s.keyspaces.map Keyspace.name).Nodup) :
    s.keyspace typed = .ok k ↔ StandsFor Keyspace.name s.keyspaces typed k := by
  rw [← findNamed_eq_some h, keyspace]
  cases findNamed Keyspace.name typed s.keyspaces <;> simp

theorem keyspace_eq_error : s.keyspace typed = .error e ↔
    StandsForNone Keyspace.name s.keyspaces typed ∧ e = .unknownKeyspace typed := by
  rw [← findNamed_eq_none, keyspace]
  cases findNamed Keyspace.name typed s.keyspaces <;> simp [eq_comm]

theorem table_of_keyspace (h : s.keyspace typed = .ok k) (table : String) :
    s.table typed table =
      match findNamed Table.name table k.tables with
      | some t => .ok t
      | none => .error (.unknownTable typed table) := by
  rw [Snapshot.table, h]
  rfl

theorem table_of_error (h : s.keyspace typed = .error e) (table : String) :
    s.table typed table = .error e := by
  rw [Snapshot.table, h]
  rfl

theorem nodup_tables (hvalid : s.validate = .ok ()) (h : s.keyspace typed = .ok k) :
    (k.tables.map Table.name).Nodup := by
  obtain ⟨hnodup, htables⟩ := validate_eq_ok.1 hvalid
  exact htables k ((keyspace_eq_ok hnodup).1 h).1

/-- Every lookup has one answer: the entry that the typed name stands for, or else the error that
carries the names as they were typed. -/
structure Resolves (s : Snapshot) : Prop where
  keyspace_ok : ∀ typed k, s.keyspace typed = .ok k ↔ StandsFor Keyspace.name s.keyspaces typed k
  keyspace_error : ∀ typed e, s.keyspace typed = .error e ↔
    StandsForNone Keyspace.name s.keyspaces typed ∧ e = .unknownKeyspace typed
  table_ok : ∀ typed table t, s.table typed table = .ok t ↔
    ∃ k, StandsFor Keyspace.name s.keyspaces typed k ∧ StandsFor Table.name k.tables table t
  table_error : ∀ typed table e, s.table typed table = .error e ↔
    StandsForNone Keyspace.name s.keyspaces typed ∧ e = .unknownKeyspace typed ∨
      ∃ k, StandsFor Keyspace.name s.keyspaces typed k ∧
        StandsForNone Table.name k.tables table ∧ e = .unknownTable typed table

theorem resolves_of_valid (hvalid : s.validate = .ok ()) : s.Resolves := by
  obtain ⟨hnodup, -⟩ := validate_eq_ok.1 hvalid
  refine ⟨fun typed k => keyspace_eq_ok hnodup, fun typed e => keyspace_eq_error, ?_, ?_⟩
  · intro typed table t
    simp only [← keyspace_eq_ok hnodup]
    cases hk : s.keyspace typed with
    | error e => simp [table_of_error hk]
    | ok k =>
      rw [table_of_keyspace hk]
      simp only [Except.ok.injEq, exists_eq_left', ← findNamed_eq_some (nodup_tables hvalid hk)]
      cases findNamed Table.name table k.tables <;> simp
  · intro typed table e
    simp only [← keyspace_eq_ok hnodup, ← keyspace_eq_error]
    cases hk : s.keyspace typed with
    | error e => simp [table_of_error hk]
    | ok k =>
      rw [table_of_keyspace hk]
      simp only [Except.ok.injEq, exists_eq_left', reduceCtorEq, false_or, ← findNamed_eq_none]
      cases findNamed Table.name table k.tables <;> simp [eq_comm]

/-- A name that is listed is found again, and the columns listed are those of the table found. -/
structure FindsListed (s : Snapshot) : Prop where
  keyspaces : s.names .keyspaces = .ok (s.keyspaces.map Keyspace.name) ∧
    ∀ k ∈ s.keyspaces, s.keyspace k.name = .ok k
  tables : ∀ typed k, s.keyspace typed = .ok k →
    s.names (.tables typed) = .ok (k.tables.map Table.name) ∧
      ∀ t ∈ k.tables, s.table typed t.name = .ok t
  columns : ∀ typed table t, s.table typed table = .ok t →
    s.names (.columns typed table) = .ok t.columns

theorem findsListed_of_valid (hvalid : s.validate = .ok ()) : s.FindsListed := by
  obtain ⟨hnodup, -⟩ := validate_eq_ok.1 hvalid
  refine ⟨⟨rfl, fun k hk => ?_⟩, fun typed k hk => ⟨?_, fun t ht => ?_⟩, fun typed table t ht => ?_⟩
  · rw [keyspace, findNamed_of_mem hnodup hk]
  · rw [names, hk]
    rfl
  · rw [table_of_keyspace hk, findNamed_of_mem (nodup_tables hvalid hk) ht]
  · rw [names, ht]
    rfl

end Answers

end Snapshot

inductive SameAnswer {α : Type} (r : α → α → Prop) :
    Except SchemaError α → Except SchemaError α → Prop where
  | error (e : SchemaError) : SameAnswer r (.error e) (.error e)
  | ok {a b : α} : r a b → SameAnswer r (.ok a) (.ok b)

structure Keyspace.Reordered (k k' : Keyspace) : Prop where
  name : k.name = k'.name
  tables : k.tables.Perm k'.tables

section Order

variable {α : Type} {name : α → String} {entries entries' : List α} {typed : String}
  {ks ks' : List Keyspace}

theorem SameAnswer.refl {r : α → α → Prop} (hr : ∀ a, r a a) (answer : Except SchemaError α) :
    SameAnswer r answer answer := by
  cases answer with
  | error e => exact .error e
  | ok a => exact .ok (hr a)

theorem findNamed_perm (hnodup : (entries.map name).Nodup) (h : entries.Perm entries') :
    findNamed name typed entries = findNamed name typed entries' := by
  have hnodup' : (entries'.map name).Nodup := (h.map name).nodup_iff.1 hnodup
  ext e
  rw [findNamed_eq_some hnodup, findNamed_eq_some hnodup', StandsFor, StandsFor, h.mem_iff]
  simp only [h.mem_iff]

theorem find?_rel {r : α → α → Prop} (hname : ∀ a b, r a b → name a = name b)
    (h : List.Forall₂ r entries entries') (n : String) :
    Option.Rel r (entries.find? fun x => name x == n) (entries'.find? fun x => name x == n) := by
  induction h with
  | nil => exact .none
  | @cons a b entries entries' hab _ ih =>
    rw [List.find?_cons, List.find?_cons, ← hname a b hab]
    cases name a == n with
    | true => exact .some hab
    | false => exact ih

theorem findNamed_rel {r : α → α → Prop} (hname : ∀ a b, r a b → name a = name b)
    (h : List.Forall₂ r entries entries') :
    Option.Rel r (findNamed name typed entries) (findNamed name typed entries') := by
  rw [findNamed, findNamed]
  have hexact := find?_rel hname h typed
  have hread := find?_rel hname h (Text.identifierName typed)
  generalize entries.find? (fun x => name x == typed) = a,
    entries'.find? (fun x => name x == typed) = b at hexact ⊢
  cases hexact with
  | some hab => exact .some hab
  | none => exact hread

/-- Keyspaces with their tables in another order have the same names, and so have their tables. -/
theorem names_of_reordered (h : List.Forall₂ Keyspace.Reordered ks ks') :
    ks.map Keyspace.name = ks'.map Keyspace.name ∧
      ((∀ k ∈ ks, (k.tables.map Table.name).Nodup) ↔
        ∀ k ∈ ks', (k.tables.map Table.name).Nodup) := by
  induction h with
  | nil => simp
  | cons hk _ ih =>
    have htables := (hk.tables.map Table.name).nodup_iff
    simp only [List.map_cons, hk.name, ih.1, List.forall_mem_cons, ih.2, htables, true_and]

end Order

namespace Snapshot

/-- The same keyspaces, and in them the same tables, in any order. -/
def Reordered (s s' : Snapshot) : Prop :=
  ∃ ks, s.keyspaces.Perm ks ∧ List.Forall₂ Keyspace.Reordered ks s'.keyspaces

structure SameLookups (s s' : Snapshot) : Prop where
  keyspace : ∀ typed, SameAnswer Keyspace.Reordered (s.keyspace typed) (s'.keyspace typed)
  table : ∀ typed table, s.table typed table = s'.table typed table
  columns : ∀ typed table, s.names (.columns typed table) = s'.names (.columns typed table)
  names : ∀ query, SameAnswer List.Perm (s.names query) (s'.names query)

namespace Reordered

variable {s s' : Snapshot}

theorem valid (h : s.Reordered s') (hvalid : s.validate = .ok ()) : s'.validate = .ok () := by
  obtain ⟨hnodup, htables⟩ := validate_eq_ok.1 hvalid
  obtain ⟨ks, hperm, hsame⟩ := h
  obtain ⟨hnames, hiff⟩ := names_of_reordered hsame
  rw [validate_eq_ok, ← hnames, ← hiff]
  constructor
  · exact (hperm.map Keyspace.name).nodup_iff.1 hnodup
  · intro k hk
    exact htables k (hperm.mem_iff.2 hk)

theorem keyspace_same (h : s.Reordered s') (hvalid : s.validate = .ok ()) (typed : String) :
    SameAnswer Keyspace.Reordered (s.keyspace typed) (s'.keyspace typed) := by
  obtain ⟨hnodup, -⟩ := validate_eq_ok.1 hvalid
  obtain ⟨ks, hperm, hsame⟩ := h
  have hfound : Option.Rel Keyspace.Reordered (findNamed Keyspace.name typed ks)
      (findNamed Keyspace.name typed s'.keyspaces) := findNamed_rel (fun _ _ hk => hk.name) hsame
  rw [← findNamed_perm hnodup hperm] at hfound
  rw [keyspace, keyspace]
  generalize findNamed Keyspace.name typed s.keyspaces = found,
    findNamed Keyspace.name typed s'.keyspaces = found' at hfound
  cases hfound with
  | none => exact .error _
  | some hk => exact .ok hk

theorem table_same (h : s.Reordered s') (hvalid : s.validate = .ok ()) (typed table : String) :
    s.table typed table = s'.table typed table := by
  have hkeyspace := h.keyspace_same hvalid typed
  generalize hs : s.keyspace typed = answer, hs' : s'.keyspace typed = answer' at hkeyspace
  cases hkeyspace with
  | error e => rw [table_of_error hs, table_of_error hs']
  | ok hk =>
    rw [table_of_keyspace hs, table_of_keyspace hs',
      findNamed_perm (nodup_tables hvalid hs) hk.tables]

theorem sameLookups (h : s.Reordered s') (hvalid : s.validate = .ok ()) : s.SameLookups s' := by
  have hcolumns : ∀ typed table,
      s.names (.columns typed table) = s'.names (.columns typed table) := by
    intro typed table
    rw [names, names, h.table_same hvalid]
  refine ⟨h.keyspace_same hvalid, h.table_same hvalid, hcolumns, fun query => ?_⟩
  cases query with
  | keyspaces =>
    obtain ⟨ks, hperm, hsame⟩ := h
    have hnames := hperm.map Keyspace.name
    rw [(names_of_reordered hsame).1] at hnames
    exact .ok hnames
  | tables typed =>
    have hkeyspace := h.keyspace_same hvalid typed
    rw [names, names]
    generalize s.keyspace typed = answer, s'.keyspace typed = answer' at hkeyspace
    cases hkeyspace with
    | error e => exact .error e
    | ok hk => exact .ok (hk.tables.map Table.name)
  | columns typed table =>
    rw [hcolumns]
    exact .refl .refl _

end Reordered

/-- Validation accepts a snapshot exactly if no name is ambiguous in it, and otherwise reports the
first one that is. In a valid snapshot every typed name, quoted or not, stands for at most one entry,
the lookups find it, and what is listed is found under its own name. The order of keyspaces and
tables changes no lookup. -/
theorem lookup_unambiguous (s : Snapshot) :
    (s.validate = .ok () ↔ (s.keyspaces.map Keyspace.name).Nodup ∧
      ∀ k ∈ s.keyspaces, (k.tables.map Table.name).Nodup) ∧
    (∀ e, s.validate = .error e ↔ ∃ reason, s.Fault reason ∧ e = .invalidSnapshot reason) ∧
    (s.validate = .ok () → s.Resolves ∧ s.FindsListed ∧
      ∀ s', s.Reordered s' → s'.validate = .ok () ∧ s.SameLookups s') :=
  ⟨validate_eq_ok, fun _ => validate_eq_error, fun hvalid =>
    ⟨resolves_of_valid hvalid, findsListed_of_valid hvalid, fun _ h =>
      ⟨h.valid hvalid, h.sameLookups hvalid⟩⟩⟩

/-- A name in capitals, the same one in quotes, and one with quotes of its own: the exact name goes
first, and the tables of `store` are found in another order too. -/
theorem lookup_unambiguous_quotes :
    let users : Table := { name := "users", columns := ["id"] }
    let orders : Table := { name := "orders" }
    let upper : Keyspace := { name := "Store" }
    let lower : Keyspace := { name := "store", tables := [users, orders] }
    let quoted : Keyspace := { name := "\"Store\"" }
    let s : Snapshot := { keyspaces := [upper, lower, quoted] }
    let s' : Snapshot := { keyspaces := [quoted, { lower with tables := [orders, users] }, upper] }
    (s.validate = .ok () ∧ s.keyspace "Store" = .ok upper ∧ s.keyspace "STORE" = .ok lower ∧
      s.keyspace "\"Store\"" = .ok quoted ∧
      s.keyspace "\"STORE\"" = .error (.unknownKeyspace "\"STORE\"")) ∧
    s.Reordered s' ∧ s'.table "STORE" "Users" = s.table "STORE" "Users" ∧
      s.table "STORE" "Users" = .ok users := by
  intro users orders upper lower quoted s s'
  have hvalid : s.validate = .ok () := by decide
  have hreordered : s.Reordered s' := by
    refine ⟨[quoted, lower, upper], by decide, ?_⟩
    exact .cons ⟨rfl, .refl _⟩ (.cons ⟨rfl, by decide⟩ (.cons ⟨rfl, .refl _⟩ .nil))
  obtain ⟨hresolves, -, horder⟩ := (lookup_unambiguous s).2.2 hvalid
  have hstore : StandsFor Keyspace.name s.keyspaces "STORE" lower := by decide
  refine ⟨⟨hvalid, (hresolves.keyspace_ok _ _).2 ?_, (hresolves.keyspace_ok _ _).2 hstore,
    (hresolves.keyspace_ok _ _).2 ?_, (hresolves.keyspace_error _ _).2 ?_⟩, hreordered,
    ((horder s' hreordered).2.table _ _).symm, (hresolves.table_ok _ _ _).2 ⟨lower, hstore, ?_⟩⟩
  · decide
  · decide
  · decide
  · decide

end Snapshot

end CqlConsole.Schema
