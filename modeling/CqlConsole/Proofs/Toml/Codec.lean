import CqlConsole.Proofs.Toml.Documents
import CqlConsole.Toml.Codec

/-!
# What a codec is relied on for

A faithful codec reads back what it wrote: every string, number and truth value
is found under its key in its section, whatever form it was written in, and there
are no other keys. The order in which they are read does not matter. The standard
codec is faithful.
-/

set_option autoImplicit false

namespace CqlConsole.Toml

/-- The value is a table with the keys of the items and no others, and what stands under a key is
what its item reads as. -/
def IsTable {α : Type} (reads : α → Node → Prop) (items : List (String × α)) (n : Node) : Prop :=
  ∃ origin entries, n = .table origin entries ∧ (∀ e ∈ entries, e.1 ∈ items.map Prod.fst) ∧
    ∀ i ∈ items, ∃ v, Entries.get? entries i.1 = some v ∧ reads i.2 v

def IsSection (fields : List (String × Scalar)) (n : Node) : Prop :=
  IsTable (fun x v => v = x.node) fields n

def IsDocument (secs : List Section) (n : Node) : Prop :=
  IsTable IsSection (secs.map fun s => (s.name, s.fields)) n

structure Codec.Faithful (c : Codec) : Prop where
  writes : ∀ secs, Writable secs → ∃ text, c.write secs = .ok text
  reads : ∀ secs text, Writable secs → c.write secs = .ok text →
    ∃ n, c.read text = .ok n ∧ IsDocument secs n

namespace IsTable

variable {α β : Type} {reads : α → Node → Prop} {items : List (String × α)} {n : Node}
  {name : String} {x : α}

theorem isRecordOf {names : List String} (h : IsTable reads items n)
    (hnames : ∀ i ∈ items, i.1 ∈ names) : n.isRecordOf names = true := by
  obtain ⟨origin, entries, rfl, hkeys, -⟩ := h
  rw [Node.isRecordOf, List.all_eq_true]
  intro e he
  obtain ⟨i, hi, hname⟩ := List.mem_map.1 (hkeys e he)
  have hmem : e.1 ∈ names := hname ▸ hnames i hi
  simp [hmem]

theorem field?_eq_some (h : IsTable reads items n) (hx : (name, x) ∈ items) (place : Nat) :
    ∃ v, n.field? place name = some v ∧ reads x v := by
  obtain ⟨origin, entries, rfl, -, hitems⟩ := h
  exact hitems (name, x) hx

theorem field?_eq_none (h : IsTable reads items n) (hname : name ∉ items.map Prod.fst)
    (place : Nat) : n.field? place name = none := by
  obtain ⟨origin, entries, rfl, hkeys, -⟩ := h
  refine Entries.get?_new fun hmem => hname ?_
  obtain ⟨e, he, rfl⟩ := List.mem_map.1 hmem
  exact hkeys e he

theorem fieldOr? {read : Node → Option β} {y : β} (h : IsTable reads items n)
    (hx : (name, x) ∈ items) (hread : ∀ v, reads x v → read v = some y) (whenMissing : β)
    (place : Nat) : n.fieldOr? whenMissing place name read = some y := by
  obtain ⟨v, hv, hreads⟩ := h.field?_eq_some hx place
  rw [Node.fieldOr?, hv]
  exact hread v hreads

theorem of_entries (f : α → Node) {origin : Origin} (hnodup : (items.map Prod.fst).Nodup)
    (hreads : ∀ i ∈ items, reads i.2 (f i.2)) :
    IsTable reads items (.table origin (items.map fun i => (i.1, f i.2))) := by
  have hnames : (items.map fun i => (i.1, f i.2)).map Prod.fst = items.map Prod.fst := by
    rw [List.map_map]
    rfl
  refine ⟨origin, _, rfl, fun e he => hnames ▸ List.mem_map_of_mem he, fun i hi => ?_⟩
  have hentry : (i.1, f i.2) ∈ items.map fun i => (i.1, f i.2) := List.mem_map_of_mem hi
  exact ⟨f i.2, Entries.get?_of_mem (hnames ▸ hnodup) hentry, hreads i hi⟩

end IsTable

theorem isDocument_entries {secs : List Section} (h : Writable secs) :
    IsDocument secs (.table .header (secs.map Section.entry)) := by
  have hentries : secs.map Section.entry = (secs.map fun s => (s.name, s.fields)).map
      fun i => (i.1, Node.table .header (i.2.map entryOf)) := by
    rw [List.map_map]
    rfl
  have hnames : ((secs.map fun s => (s.name, s.fields)).map Prod.fst).Nodup := by
    rw [List.map_map]
    exact h.names.1
  rw [IsDocument, hentries]
  refine IsTable.of_entries (fun fields => .table .header (fields.map entryOf)) hnames
    fun i hi => ?_
  obtain ⟨s, hs, rfl⟩ := List.mem_map.1 hi
  exact IsTable.of_entries Scalar.node (h.keys s hs).1 fun _ _ => rfl

theorem read_standard {secs : List Section} (h : Writable secs) :
    Codec.standard.read (String.ofList (writeSections secs)) =
      .ok (.table .header (secs.map Section.entry)) := by
  show (Toml.read (String.ofList (writeSections secs))).elim _ _ = _
  rw [read_writeSections h]
  rfl

theorem faithful_standard : Codec.standard.Faithful where
  writes secs _ := ⟨_, rfl⟩
  reads secs text h hwrite := by
    cases hwrite
    exact ⟨_, read_standard h, isDocument_entries h⟩

end CqlConsole.Toml
