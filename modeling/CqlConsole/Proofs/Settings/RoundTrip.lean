import CqlConsole.Proofs.Toml.Codec
import CqlConsole.Settings.Document

/-!
# Settings read back

Settings that are written as a document and read again are the same settings.
Every group has its section with all of its keys, so that no default comes in;
only a missing path of the schema is not written, and is missing again.
-/

set_option autoImplicit false

namespace CqlConsole

theorem OutputFormat.ofName?_name (f : OutputFormat) : ofName? f.name = some f := by
  cases f <;> decide

namespace Settings

open CqlConsole.Toml

variable {s : Settings}

theorem writable_sections (h : s.history.maxSize ≤ 2 ^ 63 - 1) : Writable s.sections where
  names := by
    show Distinct ["display", "history", "logging", "schema"]
    decide
  keys := by
    intro sec hsec
    simp only [sections, List.mem_cons, List.not_mem_nil, or_false] at hsec
    rcases hsec with rfl | rfl | rfl | rfl
    · show Distinct ["format", "color_output", "syntax_highlighting"]
      decide
    · show Distinct ["max_size", "file_path", "persist"]
      decide
    · show Distinct ["level", "timestamps"]
      decide
    · cases s.schemaPath with
      | none =>
        show Distinct []
        decide
      | some path =>
        show Distinct ["path"]
        decide
  numbers := by
    intro sec hsec key n hn
    simp only [sections, List.mem_cons, List.not_mem_nil, or_false] at hsec
    rcases hsec with rfl | rfl | rfl | rfl
    · simp at hn
    · obtain ⟨-, rfl⟩ : key = "max_size" ∧ n = s.history.maxSize := by simpa using hn
      exact h
    · simp at hn
    · simp at hn

section Groups

variable {n : Node}

theorem size?_integer {size : Nat} (h : size < 2 ^ 64) : size? (.integer size) = some size :=
  if_pos h

theorem fieldOr?_section {β : Type} {fields : List (String × Scalar)} {name : String}
    {read : Node → Option β} {y : β} (h : IsSection fields n) (x : Scalar)
    (hx : (name, x) ∈ fields) (hread : read x.node = some y) (whenMissing : β) (place : Nat) :
    n.fieldOr? whenMissing place name read = some y :=
  IsTable.fieldOr? h hx (fun _ hv => hv ▸ hread) whenMissing place

theorem Display.ofNode?_section {d : Display} (h : IsSection [("format", .string d.format.name),
    ("color_output", .boolean d.colours), ("syntax_highlighting", .boolean d.highlighting)] n) :
    Display.ofNode? n = some d := by
  have hrecord : n.isRecordOf ["format", "color_output", "syntax_highlighting"] = true :=
    IsTable.isRecordOf h (by simp)
  have hformat : n.fieldOr? .table 0 "format" (fun v => v.choice? >>= OutputFormat.ofName?) =
      some d.format :=
    fieldOr?_section h (.string d.format.name) (by simp) (OutputFormat.ofName?_name d.format) _ _
  have hcolours : n.fieldOr? true 1 "color_output" Node.boolean? = some d.colours :=
    fieldOr?_section h (.boolean d.colours) (by simp) (by rfl) _ _
  have hhighlighting :
      n.fieldOr? true 2 "syntax_highlighting" Node.boolean? = some d.highlighting :=
    fieldOr?_section h (.boolean d.highlighting) (by simp) (by rfl) _ _
  simp only [Display.ofNode?, hrecord, if_true, hformat, hcolours, hhighlighting]
  rfl

theorem History.ofNode?_section (home : String) {r : History} (hsize : r.maxSize < 2 ^ 64)
    (h : IsSection [("max_size", .natural r.maxSize), ("file_path", .string r.filePath),
      ("persist", .boolean r.persist)] n) :
    History.ofNode? home n = some r := by
  have hrecord : n.isRecordOf ["max_size", "file_path", "persist"] = true :=
    IsTable.isRecordOf h (by simp)
  have hmaxSize (d : Nat) : n.fieldOr? d 0 "max_size" size? = some r.maxSize :=
    fieldOr?_section h (.natural r.maxSize) (by simp) (size?_integer hsize) d 0
  have hfilePath (d : String) : n.fieldOr? d 1 "file_path" Node.string? = some r.filePath :=
    fieldOr?_section h (.string r.filePath) (by simp) (by rfl) d 1
  have hpersist (d : Bool) : n.fieldOr? d 2 "persist" Node.boolean? = some r.persist :=
    fieldOr?_section h (.boolean r.persist) (by simp) (by rfl) d 2
  simp only [History.ofNode?, hrecord, if_true, hmaxSize, hfilePath, hpersist]
  rfl

theorem Logging.ofNode?_section {l : Logging} (h : IsSection [("level", .string l.level.name),
    ("timestamps", .boolean l.timestamps)] n) :
    Logging.ofNode? n = some l := by
  have hrecord : n.isRecordOf ["level", "timestamps"] = true := IsTable.isRecordOf h (by simp)
  have hlevel : n.fieldOr? .warn 0 "level" (fun v => v.choice? >>= Level.ofName?) = some l.level :=
    fieldOr?_section h (.string l.level.name) (by simp) (Level.ofName?_name l.level) _ _
  have htimestamps : n.fieldOr? true 1 "timestamps" Node.boolean? = some l.timestamps :=
    fieldOr?_section h (.boolean l.timestamps) (by simp) (by rfl) _ _
  simp only [Logging.ofNode?, hrecord, if_true, hlevel, htimestamps]
  rfl

/-- A path that is not written is missing, and no other key comes in for it. -/
theorem field?_path {path : Option String} (place : Nat)
    (h : IsSection (path.map fun p => ("path", Scalar.string p)).toList n) :
    n.field? place "path" = path.map Node.string := by
  cases path with
  | none => exact IsTable.field?_eq_none h (by simp) place
  | some p =>
    obtain ⟨v, hv, rfl⟩ := IsTable.field?_eq_some h (List.mem_singleton_self _) place
    exact hv

theorem schemaPath?_section {path : Option String}
    (h : IsSection (path.map fun p => ("path", Scalar.string p)).toList n) :
    schemaPath? n = some path := by
  have hrecord : n.isRecordOf ["path"] = true := by
    refine IsTable.isRecordOf h fun i hi => ?_
    obtain ⟨p, -, rfl⟩ : ∃ p, path = some p ∧ ("path", Scalar.string p) = i := by simpa using hi
    exact List.mem_cons_self
  rw [schemaPath?, if_pos hrecord, Node.optional?, field?_path 0 h]
  cases path <;> rfl

end Groups

section Document

variable {n : Node}

/-- All sections are written, so no default comes in for one. -/
theorem ofNode?_document (home : String) (hsize : s.history.maxSize < 2 ^ 64)
    (h : IsDocument s.sections n) : ofNode? home n = some s := by
  have hrecord : n.isRecordOf ["display", "history", "logging", "schema"] = true :=
    IsTable.isRecordOf h (by simp [sections])
  have hdisplay (d : Display) : n.fieldOr? d 0 "display" Display.ofNode? = some s.display :=
    IsTable.fieldOr? h (.head _) (fun _ hv => Display.ofNode?_section hv) d 0
  have hhistory (d : History) :
      n.fieldOr? d 1 "history" (History.ofNode? home) = some s.history :=
    IsTable.fieldOr? h (.tail _ (.head _)) (fun _ hv => History.ofNode?_section home hsize hv) d 1
  have hlogging (d : Logging) : n.fieldOr? d 2 "logging" Logging.ofNode? = some s.logging :=
    IsTable.fieldOr? h (.tail _ (.tail _ (.head _))) (fun _ hv => Logging.ofNode?_section hv) d 2
  have hschema (d : Option String) : n.fieldOr? d 3 "schema" schemaPath? = some s.schemaPath :=
    IsTable.fieldOr? h (.tail _ (.tail _ (.tail _ (.head _)))) (fun _ hv => schemaPath?_section hv)
      d 3
  simp only [ofNode?, hrecord, if_true, hdisplay, hhistory, hlogging, hschema]
  rfl

theorem field?_schemaPath (h : IsDocument s.sections n) :
    (n.field? 3 "schema" >>= Node.field? 0 "path") = s.schemaPath.map Node.string := by
  obtain ⟨v, hv, hsection⟩ :=
    IsTable.field?_eq_some h (.tail _ (.tail _ (.tail _ (.head _)))) 3
  rw [hv]
  exact field?_path 0 hsection

theorem decode_of_read {c : Codec} {text : String} (home : String)
    (hsize : s.history.maxSize < 2 ^ 64) (hread : c.read text = .ok n)
    (h : IsDocument s.sections n) : decode c home text = .ok s := by
  simp only [decode, hread, ofNode?_document home hsize h]

end Document

/-- Whatever codec is used, if only it is faithful, settings are written and are read back, whatever
their paths are and whichever defaults there are. The path of the schema stands in the document if
there is one, and not otherwise. -/
theorem decode_encode {c : Codec} (hc : c.Faithful) (home : String) {s : Settings}
    (h : s.history.maxSize ≤ 2 ^ 63 - 1) :
    ∃ text, encode c s = .ok text ∧ decode c home text = .ok s ∧
      ∃ n, c.read text = .ok n ∧
        (n.field? 3 "schema" >>= Node.field? 0 "path") = s.schemaPath.map Node.string := by
  have hsections := s.writable_sections h
  obtain ⟨text, hwrite⟩ := hc.writes s.sections hsections
  obtain ⟨n, hread, hdocument⟩ := hc.reads s.sections text hsections hwrite
  have hencode : encode c s = .ok text := by
    rw [encode, hwrite]
    rfl
  have hdecode : decode c home text = .ok s := decode_of_read home (by omega) hread hdocument
  exact ⟨text, hencode, hdecode, n, hread, field?_schemaPath hdocument⟩

/-- A path over two lines with quotes of both kinds, and a history of the greatest size. -/
theorem decode_encode_quotes :
    let s : Settings := {
      display := { format := .jsonPretty, colours := false }
      history := { maxSize := 2 ^ 63 - 1, filePath := "C:\\a\"\"\"b'''\n\tc" }
      logging := { level := .trace } }
    Codec.standard.Faithful ∧ s.history.maxSize ≤ 2 ^ 63 - 1 ∧
      ∃ text, encode .standard s = .ok text ∧ decode .standard "home" text = .ok s := by
  intro s
  have h : s.history.maxSize ≤ 2 ^ 63 - 1 := Nat.le_refl _
  obtain ⟨text, hencode, hdecode, -⟩ := decode_encode faithful_standard "home" h
  exact ⟨faithful_standard, h, text, hencode, hdecode⟩

end Settings

end CqlConsole
