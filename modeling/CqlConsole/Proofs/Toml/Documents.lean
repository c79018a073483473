import CqlConsole.Proofs.Toml.Values
import Mathlib.Data.List.Nodup

/-!
# Documents read back

A document of sections is read line by line. Each line adds what it says to the
table that is open, at its end, as no name stands twice; so the tables that are
read are the sections that were written, in their order.
-/

set_option autoImplicit false

namespace CqlConsole.Toml

open CqlConsole.Text

def IsBare (name : String) : Prop :=
  name ≠ "" ∧ name.toList.all isKeyChar = true

instance (name : String) : Decidable (IsBare name) :=
  inferInstanceAs (Decidable (_ ∧ _))

def entryOf (field : String × Scalar) : String × Node :=
  (field.1, field.2.node)

def Section.entry (s : Section) : String × Node :=
  (s.name, .table .header (s.fields.map entryOf))

namespace Entries

variable {es : Entries} {key : String} {v w : Node}

theorem get?_new (h : key ∉ es.map Prod.fst) : es.get? key = none := by
  rw [get?, List.find?_eq_none.2, Option.map_none]
  intro e he heq
  exact h (List.mem_map.2 ⟨e, he, by simpa using heq⟩)

theorem get?_of_mem {e : String × Node} (hnodup : (es.map Prod.fst).Nodup) (he : e ∈ es) :
    es.get? e.1 = some e.2 := by
  induction es with
  | nil => cases he
  | cons d es ih =>
    obtain ⟨hd, hes⟩ := List.nodup_cons.1 hnodup
    rcases List.mem_cons.1 he with rfl | he
    · simp [get?]
    · have hne : d.1 ≠ e.1 := fun heq => hd (heq ▸ List.mem_map_of_mem he)
      simpa [get?, hne] using ih hes he

theorem put_new (h : key ∉ es.map Prod.fst) : es.put key v = es ++ [(key, v)] := by
  induction es with
  | nil => rfl
  | cons e es ih =>
    rw [List.map_cons, List.mem_cons, not_or] at h
    rw [put, if_neg (Ne.symm h.1), ih h.2, List.cons_append]

theorem get?_last (h : key ∉ es.map Prod.fst) : get? (es ++ [(key, v)]) key = some v := by
  have hnone := get?_new h
  rw [get?, Option.map_eq_none_iff] at hnone
  rw [get?, List.find?_append, hnone]
  simp

theorem put_last (h : key ∉ es.map Prod.fst) : put key w (es ++ [(key, v)]) = es ++ [(key, w)] := by
  induction es with
  | nil => exact if_pos rfl
  | cons e es ih =>
    rw [List.map_cons, List.mem_cons, not_or] at h
    rw [List.cons_append, put, if_neg (Ne.symm h.1), ih h.2, List.cons_append]

theorem openTable_new (h : key ∉ es.map Prod.fst) :
    openTable [] key es = some (es ++ [(key, .table .header [])]) := by
  simp only [openTable, within, get?_new h, put_new h]

/-- A new key goes to the end of the table that is open. -/
theorem assignUnder_last {inner : Entries} {name : String} (hname : name ∉ es.map Prod.fst)
    (hkey : key ∉ inner.map Prod.fst) :
    assignUnder [name] [] key v (es ++ [(name, .table .header inner)]) =
      some (es ++ [(name, .table .header (inner ++ [(key, v)]))]) := by
  simp [assignUnder, within, get?_last hname, assign, add, get?_new hkey, put_new hkey,
    put_last hname]

end Entries

section Keys

variable {name : String} {c : Char} {t : List Char}

theorem IsBare.exists_cons (h : IsBare name) :
    ∃ c s, name.toList = c :: s ∧ isKeyChar c = true := by
  cases hname : name.toList with
  | nil => exact absurd (String.toList_eq_nil_iff.1 hname) h.1
  | cons c s => exact ⟨c, s, rfl, List.all_eq_true.1 h.2 c (by simp [hname])⟩

theorem IsBare.key? (h : IsBare name) (ht : ∀ c ∈ t.head?, isKeyChar c = false) :
    Toml.key? (name.toList ++ t) = some (name, t) := by
  have htake : (name.toList ++ t).takeWhile isKeyChar = name.toList := by
    have hstop : t.takeWhile isKeyChar = [] := by
      cases t with
      | nil => rfl
      | cons c t => exact List.takeWhile_cons_of_neg (by simp [ht c rfl])
    rw [List.takeWhile_append_of_pos (List.all_eq_true.1 h.2), hstop, List.append_nil]
  obtain ⟨c, s, hname, hc⟩ := h.exists_cons
  have hline : lineString? (name.toList ++ t) = none := by
    rw [hname]
    exact lineString?_of_ne (Run.ne_of_class hc rfl) (Run.ne_of_class hc rfl)
  have hne : name.toList.isEmpty = false := by rw [hname]; rfl
  simp only [Toml.key?, hline, htake, hne, Bool.false_eq_true, if_false, List.drop_left,
    String.ofList_toList]

theorem isSpace_of_key (hc : isKeyChar c = true) : isSpace c = false := by
  rw [isSpace, Bool.or_eq_false_iff]
  exact ⟨Run.beq_of_class rfl hc, Run.beq_of_class rfl hc⟩

theorem skipSpace_of_ne (hc : isSpace c = false) (s : List Char) : skipSpace (c :: s) = c :: s := by
  rw [skipSpace, List.dropWhile_cons_of_neg (by simp [hc])]

theorem IsBare.keyPath? (h : IsBare name) (ht : ∀ c ∈ t.head?, isKeyChar c = false)
    (hpoint : '.' ∉ (skipSpace t).head?) :
    Toml.keyPath? (name.toList ++ t) = some (([], name), skipSpace t) := by
  have hskip : skipSpace (name.toList ++ t) = name.toList ++ t := by
    obtain ⟨c, s, hname, hc⟩ := h.exists_cons
    rw [hname]
    exact skipSpace_of_ne (isSpace_of_key hc) (s ++ t)
  have hkeys : dottedKeys? (name.toList ++ t) = some (([], name), skipSpace t) := by
    rw [dottedKeys?, hskip, h.key? ht]
    dsimp only
    split
    · rename_i heq
      exact absurd (by rw [heq]; rfl) hpoint
    · rfl
  rw [Toml.keyPath?, hkeys]
  rfl

end Keys

section Lines

variable {d d' : Draft} {s line rest : List Char} {name : String}

theorem skipVoid_of_key {c : Char} (hc : isKeyChar c = true) (s : List Char) :
    skipVoid false (c :: s) = some (c :: s) := by
  rw [skipVoid]
  · rw [if_neg (Run.ne_of_class hc rfl), isSpace_of_key hc, if_neg Bool.false_ne_true]
  · exact Run.ne_of_class hc rfl
  · intro _ heq
    exact absurd heq (Run.ne_of_class hc rfl)

theorem lineEnd?_newline (rest : List Char) : lineEnd? ('\n' :: rest) = some rest := by
  simp [lineEnd?, skipSpace, isSpace]

/-- A line changes the document, and reading goes on behind its end. -/
theorem linesFrom_line (hvoid : skipVoid false s = some line) (hne : line ≠ [])
    (hline : line? d line = some (d', '\n' :: rest)) (hrest : rest.length < s.length) :
    linesFrom d s = linesFrom d' rest := by
  rw [linesFrom, hvoid]
  cases line with
  | nil => exact absurd rfl hne
  | cons c line => simp [hline, lineEnd?_newline, hrest]

theorem line?_field {key : String} (h : IsBare key) (x : Scalar) (rest : List Char) :
    line? d (writeField (key, x) ++ rest) =
      (d.entries.assignUnder d.header [] key x.node).map fun es =>
        ({ d with entries := es }, '\n' :: rest) := by
  have htext : writeField (key, x) ++ rest =
      key.toList ++ (' ' :: '=' :: ' ' :: (x.write ++ '\n' :: rest)) := by
    simp [writeField]
  obtain ⟨c, t, hname, hc⟩ := h.exists_cons
  have hassign (u : List Char) : line? d (key.toList ++ u) = assignment? d (key.toList ++ u) := by
    rw [hname, List.cons_append, line?]
    · rintro v heq
      cases (List.cons.inj heq).1
      cases hc
    · rintro v heq
      cases (List.cons.inj heq).1
      cases hc
  obtain ⟨b, w, hwrite, hb⟩ := exists_write x
  have hvalue : value? depthLimit (skipSpace (' ' :: (x.write ++ '\n' :: rest))) =
      some (x.node, '\n' :: rest) := by
    rw [← value?_write depthLimit x rest, hwrite]
    exact congrArg (value? depthLimit) (skipSpace_of_ne hb _)
  have hpath : keyPath? (key.toList ++ (' ' :: '=' :: ' ' :: (x.write ++ '\n' :: rest))) =
      some (([], key), '=' :: ' ' :: (x.write ++ '\n' :: rest)) :=
    h.keyPath? (by simp [isKeyChar]) (by simp [skipSpace, isSpace])
  simp only [htext, hassign, assignment?, hpath, hvalue]

theorem line?_header (h : IsBare name) (rest : List Char) :
    line? d ('[' :: (name.toList ++ ']' :: rest)) =
      (d.entries.openTable [] name).map fun es => (⟨es, [name]⟩, rest) := by
  obtain ⟨c, t, hname, hc⟩ := h.exists_cons
  have hpath : keyPath? (name.toList ++ ']' :: rest) = some (([], name), ']' :: rest) :=
    h.keyPath? (by simp [isKeyChar]) (by simp [skipSpace, isSpace])
  have htable : line? d ('[' :: (name.toList ++ ']' :: rest)) =
      tableHeader? d (name.toList ++ ']' :: rest) := by
    rw [hname, List.cons_append, line?]
    rintro u heq
    cases (List.cons.inj heq).1
    cases hc
  simp only [htable, tableHeader?, hpath]
  rfl

end Lines

section Sections

variable {es : Entries} {name : String} {fields : List (String × Scalar)} {s rest : List Char}

def Distinct (names : List String) : Prop :=
  names.Nodup ∧ ∀ n ∈ names, IsBare n

instance (names : List String) : Decidable (Distinct names) :=
  inferInstanceAs (Decidable (_ ∧ _))

theorem writeField_ne_nil (f : String × Scalar) (rest : List Char) :
    writeField f ++ rest ≠ [] := by
  simp [writeField]

/-- The lines of a section are read into the table that its header opened. -/
theorem linesFrom_fields {inner : Entries} (hname : name ∉ es.map Prod.fst)
    (hnodup : (inner.map Prod.fst ++ fields.map Prod.fst).Nodup)
    (hbare : ∀ f ∈ fields, IsBare f.1) (rest : List Char) :
    linesFrom ⟨es ++ [(name, .table .header inner)], [name]⟩
        (fields.flatMap writeField ++ rest) =
      linesFrom ⟨es ++ [(name, .table .header (inner ++ fields.map entryOf))], [name]⟩ rest := by
  -- The entries read so far are part of the draft, and no key to come is among them.
  induction fields generalizing inner with
  | nil => simp
  | cons f fields ih =>
    obtain ⟨key, x⟩ := f
    obtain ⟨hkey, hkeys⟩ := List.forall_mem_cons.1 hbare
    have hnew : key ∉ inner.map Prod.fst := by
      intro hmem
      exact (List.nodup_append.1 hnodup).2.2 key hmem key (by simp) rfl
    have hrest : ((inner ++ [(key, x.node)]).map Prod.fst ++ fields.map Prod.fst).Nodup := by
      simpa using hnodup
    have hline := line?_field (d := ⟨es ++ [(name, .table .header inner)], [name]⟩) hkey x
      (fields.flatMap writeField ++ rest)
    rw [Entries.assignUnder_last hname hnew, Option.map_some] at hline
    rw [List.flatMap_cons, List.append_assoc]
    obtain ⟨c, t, hc, hchar⟩ := hkey.exists_cons
    have hvoid : skipVoid false (writeField (key, x) ++ (fields.flatMap writeField ++ rest)) =
        some (writeField (key, x) ++ (fields.flatMap writeField ++ rest)) := by
      rw [writeField, hc]
      exact skipVoid_of_key hchar _
    have hlength : (fields.flatMap writeField ++ rest).length <
        (writeField (key, x) ++ (fields.flatMap writeField ++ rest)).length := by
      simp [writeField]
      omega
    rw [linesFrom_line hvoid (writeField_ne_nil _ _) hline hlength]
    rw [ih hrest hkeys]
    simp [entryOf]

/-- A section is read as a table at the end of the document. -/
theorem linesFrom_section {sec : Section} {header : List String}
    (hname : sec.name ∉ es.map Prod.fst) (hbare : IsBare sec.name)
    (hfields : Distinct (sec.fields.map Prod.fst))
    (hvoid : skipVoid false s = some (sec.write ++ rest))
    (hlength : (sec.write ++ rest).length ≤ s.length) :
    linesFrom ⟨es, header⟩ s = linesFrom ⟨es ++ [sec.entry], [sec.name]⟩ rest := by
  have htext : sec.write ++ rest =
      '[' :: (sec.name.toList ++ ']' :: '\n' :: (sec.fields.flatMap writeField ++ rest)) := by
    simp [Section.write]
  rw [htext] at hvoid hlength
  have hline := line?_header (d := ⟨es, header⟩) hbare
    ('\n' :: (sec.fields.flatMap writeField ++ rest))
  rw [Entries.openTable_new hname, Option.map_some] at hline
  rw [linesFrom_line hvoid (List.cons_ne_nil _ _) hline (by simp at hlength ⊢; omega)]
  rw [linesFrom_fields hname (by simpa using hfields.1)
    (fun f hf => hfields.2 f.1 (List.mem_map_of_mem hf)) rest]
  rfl

/-- The sections that a document can hold: with names of their own, with keys of their own, and
with numbers of sixty-three bits. -/
structure Writable (secs : List Section) : Prop where
  names : Distinct (secs.map Section.name)
  keys : ∀ s ∈ secs, Distinct (s.fields.map Prod.fst)
  numbers : ∀ s ∈ secs, ∀ key n, (key, Scalar.natural n) ∈ s.fields → n ≤ 2 ^ 63 - 1

theorem skipVoid_write (sec : Section) (rest : List Char) :
    skipVoid false (sec.write ++ rest) = some (sec.write ++ rest) :=
  rfl

/-- Behind a section come the others, with nothing but an empty line in front of them. -/
theorem exists_others (sec : Section) (secs : List Section) :
    ∃ rest, writeSections (sec :: secs) = sec.write ++ rest ∧
      skipVoid false rest = some (writeSections secs) ∧
      (writeSections secs).length ≤ rest.length := by
  cases secs with
  | nil => exact ⟨[], (List.append_nil _).symm, rfl, Nat.le_refl _⟩
  | cons t secs =>
    refine ⟨'\n' :: writeSections (t :: secs), rfl, ?_, Nat.le_succ _⟩
    rw [skipVoid]
    cases secs with
    | nil =>
      have hlast := skipVoid_write t []
      rwa [List.append_nil] at hlast
    | cons u secs => exact skipVoid_write t _

theorem linesFrom_sections {secs : List Section} {header : List String}
    (hnodup : (es.map Prod.fst ++ secs.map Section.name).Nodup)
    (hbare : ∀ sec ∈ secs, IsBare sec.name)
    (hkeys : ∀ sec ∈ secs, Distinct (sec.fields.map Prod.fst))
    (hvoid : skipVoid false s = some (writeSections secs))
    (hlength : (writeSections secs).length ≤ s.length) :
    (linesFrom ⟨es, header⟩ s).map Draft.entries = some (es ++ secs.map Section.entry) := by
  induction secs generalizing es header s with
  | nil =>
    rw [linesFrom, hvoid]
    simp [writeSections]
  | cons sec secs ih =>
    obtain ⟨rest, htext, hrest, hlengths⟩ := exists_others sec secs
    obtain ⟨hname, hnames⟩ := List.forall_mem_cons.1 hbare
    obtain ⟨hfields, hothers⟩ := List.forall_mem_cons.1 hkeys
    have hnew : sec.name ∉ es.map Prod.fst := fun hmem =>
      (List.nodup_append.1 hnodup).2.2 sec.name hmem sec.name (by simp) rfl
    have hnodup' : ((es ++ [sec.entry]).map Prod.fst ++ secs.map Section.name).Nodup := by
      simpa [Section.entry] using hnodup
    rw [htext] at hvoid hlength
    rw [linesFrom_section hnew hname hfields hvoid hlength,
      ih hnodup' hnames hothers hrest hlengths]
    simp

/-- Sections are read back as tables under their names, with their keys in order. -/
theorem read_writeSections {secs : List Section} (h : Writable secs) :
    read (String.ofList (writeSections secs)) =
      some (.table .header (secs.map Section.entry)) := by
  have hmark : dropMark (writeSections secs) = writeSections secs := by
    cases secs with
    | nil => rfl
    | cons sec secs =>
      obtain ⟨rest, htext, -, -⟩ := exists_others sec secs
      rw [htext]
      rfl
  have hvoid : skipVoid false (writeSections secs) = some (writeSections secs) := by
    cases secs with
    | nil => rfl
    | cons sec secs =>
      obtain ⟨rest, htext, -, -⟩ := exists_others sec secs
      rw [htext, skipVoid_write]
  have hlines : (linesFrom ⟨[], []⟩ (writeSections secs)).map Draft.entries =
      some ([] ++ secs.map Section.entry) :=
    linesFrom_sections (by simpa using h.names.1)
      (fun sec hsec => h.names.2 sec.name (List.mem_map_of_mem hsec)) h.keys hvoid (Nat.le_refl _)
  rw [Option.map_eq_some_iff] at hlines
  obtain ⟨d, hd, hentries⟩ := hlines
  rw [read, String.toList_ofList, hmark]
  show (linesFrom ⟨[], []⟩ (writeSections secs)).map _ = _
  rw [hd, Option.map_some, hentries, List.nil_append]

end Sections

end CqlConsole.Toml
