import CqlConsole.Schema.Snapshot
import Mathlib.Data.List.Nodup

/-!
# Looking names up in a valid snapshot

Validation finds the first name that is given twice, so in a valid snapshot the
names of the keyspaces, and those of the tables of a keyspace, are distinct. A
keyspace or table that is asked for by its own name is then the one found.
-/

set_option autoImplicit false

namespace CqlConsole.Schema

section Repeated

variable {seen names : List String} {keyspaces : List Keyspace}

theorem firstRepeated_eq_none :
    firstRepeated seen names = none ↔ names.Nodup ∧ ∀ n ∈ names, n ∉ seen := by
  induction names generalizing seen with
  | nil => simp [firstRepeated]
  | cons n rest ih =>
    rw [firstRepeated]
    by_cases hn : n ∈ seen
    · simp [hn]
    · simp only [if_neg hn, ih, List.nodup_cons, List.mem_append, List.mem_singleton,
        List.forall_mem_cons]
      constructor
      · rintro ⟨hnodup, hfresh⟩
        exact ⟨⟨fun hmem => hfresh n hmem (Or.inr rfl), hnodup⟩, hn,
          fun m hm hseen => hfresh m hm (Or.inl hseen)⟩
      · rintro ⟨⟨hother, hnodup⟩, -, hfresh⟩
        refine ⟨hnodup, fun m hm hseen => ?_⟩
        rcases hseen with hseen | rfl
        · exact hfresh m hm hseen
        · exact hother hm

theorem repeatedTable?_eq_none :
    repeatedTable? keyspaces = none ↔ ∀ k ∈ keyspaces, (k.tables.map Table.name).Nodup := by
  induction keyspaces with
  | nil => simp [repeatedTable?]
  | cons k rest ih =>
    rw [repeatedTable?, List.forall_mem_cons, ← ih]
    cases h : firstRepeated [] (k.tables.map Table.name) with
    | none =>
      have hnodup := (firstRepeated_eq_none.1 h).1
      simp [hnodup]
    | some name =>
      have hnot : ¬(k.tables.map Table.name).Nodup := by
        intro hnodup
        rw [firstRepeated_eq_none.2 ⟨hnodup, by simp⟩] at h
        cases h
      simp [hnot]

end Repeated

section Named

variable {α : Type} {name : α → String} {entries : List α} {n : String} {e : α}

/-- Of entries with distinct names, one is found by its name. -/
theorem find?_eq_some_iff (hnodup : (entries.map name).Nodup) :
    entries.find? (fun x => name x == n) = some e ↔ e ∈ entries ∧ name e = n := by
  induction entries with
  | nil => simp
  | cons x rest ih =>
    obtain ⟨hx, hrest⟩ := List.nodup_cons.1 hnodup
    by_cases hn : name x = n
    · rw [List.find?_cons_of_pos (by simpa using hn), Option.some.injEq, List.mem_cons]
      constructor
      · rintro rfl
        exact ⟨Or.inl rfl, hn⟩
      · rintro ⟨rfl | he, hname⟩
        · rfl
        · exact absurd (List.mem_map_of_mem he) (hname.trans hn.symm ▸ hx)
    · rw [List.find?_cons_of_neg (by simpa using hn), ih hrest, List.mem_cons]
      constructor
      · rintro ⟨he, hname⟩
        exact ⟨Or.inr he, hname⟩
      · rintro ⟨rfl | he, hname⟩
        · exact absurd hname hn
        · exact ⟨he, hname⟩

theorem findNamed_of_mem (hnodup : (entries.map name).Nodup) (h : e ∈ entries) :
    findNamed name (name e) entries = some e := by
  rw [findNamed, (find?_eq_some_iff hnodup).2 ⟨h, rfl⟩]
  rfl

end Named

namespace Snapshot

variable {s : Snapshot} {k : Keyspace} {t : Table}

theorem validate_eq_ok : s.validate = .ok () ↔
    (s.keyspaces.map Keyspace.name).Nodup ∧
      ∀ k ∈ s.keyspaces, (k.tables.map Table.name).Nodup := by
  rw [validate, ← repeatedTable?_eq_none]
  cases hk : firstRepeated [] (s.keyspaces.map Keyspace.name) with
  | some name =>
    have hnot : ¬(s.keyspaces.map Keyspace.name).Nodup := by
      intro hnodup
      rw [firstRepeated_eq_none.2 ⟨hnodup, by simp⟩] at hk
      cases hk
    simp [hnot]
  | none =>
    have hnodup := (firstRepeated_eq_none.1 hk).1
    cases ht : repeatedTable? s.keyspaces with
    | none => simp [hnodup]
    | some repeated => simp

theorem catalog_tables (hvalid : s.validate = .ok ()) (hk : k ∈ s.keyspaces) :
    s.catalog (.tables k.name) = .ok (k.tables.map Table.name) := by
  obtain ⟨hnodup, -⟩ := validate_eq_ok.1 hvalid
  simp [catalog, names, keyspace, findNamed_of_mem hnodup hk, Except.map, Except.mapError]

theorem catalog_columns (hvalid : s.validate = .ok ()) (hk : k ∈ s.keyspaces) (ht : t ∈ k.tables) :
    s.catalog (.columns k.name t.name) = .ok t.columns := by
  obtain ⟨hnodup, htables⟩ := validate_eq_ok.1 hvalid
  simp [catalog, names, table, keyspace, findNamed_of_mem hnodup hk,
    findNamed_of_mem (htables k hk) ht, Except.map, Except.mapError, bind, Except.bind]

end Snapshot

end CqlConsole.Schema
