import CqlConsole.Cli.Effective
import CqlConsole.Proofs.Cli.Paths
import CqlConsole.Proofs.Settings.RoundTrip

/-!
# Settings in effect

A run has settings unless the file they are to come from cannot be read or has
no settings. They are valid, though only those of the file are checked: options
bring in no empty path and leave the room of the history alone. What the options
name comes from them, and the rest from the file or from the defaults.
-/

set_option autoImplicit false

namespace CqlConsole

def OutputFormat.Named (f : OutputFormat) (name : String) : Prop :=
  let word := String.ofList (Text.lower name.toList)
  word = f.name ∨ f = .jsonPretty ∧ word = "jsonpretty"

theorem OutputFormat.read_eq_ok {f : OutputFormat} {name : String} :
    read name = .ok f ↔ f.Named name := by
  rw [read, Named]
  generalize String.ofList (Text.lower name.toList) = word
  split_ifs with htable hjson hpretty hcompact
  · subst htable
    cases f <;> simp [OutputFormat.name]
  · subst hjson
    cases f <;> simp [OutputFormat.name]
  · rcases hpretty with rfl | rfl <;> cases f <;> simp [OutputFormat.name]
  · subst hcompact
    cases f <;> simp [OutputFormat.name]
  · cases f <;> simp_all [OutputFormat.name]

namespace Settings

open CqlConsole.Files CqlConsole.Toml

variable {s : Settings}

structure Valid (s : Settings) : Prop where
  room : s.history.maxSize ≠ 0
  file : s.history.persist = true → s.history.filePath ≠ ""
  schema : s.schemaPath ≠ some ""

theorem validate_eq_ok : s.validate = .ok () ↔ s.Valid := by
  rw [validate]
  split_ifs with hroom hfile hschema
  · exact iff_of_false nofun fun h => h.room hroom
  · exact iff_of_false nofun fun h => h.file hfile.1 hfile.2
  · exact iff_of_false nofun fun h => h.schema hschema
  · exact iff_of_true rfl ⟨hroom, fun hpersist hempty => hfile ⟨hpersist, hempty⟩, hschema⟩

theorem valid_defaults (home : String) : (defaults home).Valid where
  room := by simp [defaults]
  file _ := pathIn_ne_empty (by decide) home
  schema := by simp [defaults]

section Files

variable {c : Codec} {home path : String} {disk : Disk} {e : SettingsError}

/-- The file has no text, or its text has no settings. -/
inductive Unloadable (c : Codec) (home : String) (disk : Disk) (path : String) :
    SettingsError → Prop
  | unreadable {reason : String} :
    disk.read path = .error reason → Unloadable c home disk path (.fileNotFound path)
  | undecodable {text : String} {e : SettingsError} :
    disk.read path = .ok text → decode c home text = .error e → Unloadable c home disk path e

theorem ofFile_eq_error : ofFile c home disk path = .error e ↔ Unloadable c home disk path e := by
  rw [ofFile]
  cases hread : disk.read path with
  | error reason =>
    constructor
    · rintro ⟨⟩
      exact .unreadable hread
    · rintro (hread' | ⟨hread', -⟩)
      · rfl
      · rw [hread] at hread'
        cases hread'
  | ok text =>
    constructor
    · exact .undecodable hread
    · rintro (hread' | ⟨hread', hdecode⟩)
      · rw [hread] at hread'
        cases hread'
      · rw [hread] at hread'
        cases hread'
        exact hdecode

theorem ofFile_eq_ok :
    ofFile c home disk path = .ok s ↔
      ∃ text, disk.read path = .ok text ∧ decode c home text = .ok s := by
  rw [ofFile]
  cases disk.read path <;> simp

end Files

end Settings

namespace Cli

open CqlConsole.Files CqlConsole.Settings CqlConsole.Toml

/-- The settings that options lead to: what they name is as they say, and all else as before. -/
structure Options.Overrides (o : Options) (base s : Settings) : Prop where
  format_kept : o.format = none → s.display.format = base.display.format
  format_named : ∀ name f, o.format = some name → f.Named name → s.display.format = f
  format_unknown : ∀ name, o.format = some name → (∀ f : OutputFormat, ¬f.Named name) →
    s.display.format = .table
  colours : s.display.colours = if o.noColour then false else base.display.colours
  highlighting : s.display.highlighting = if o.noColour then false else base.display.highlighting
  level : s.logging.level = if o.veryVerbose then .trace else if o.verbose then .debug
    else if o.quiet then .error else base.logging.level
  timestamps : s.logging.timestamps = base.logging.timestamps
  schemaPath : s.schemaPath = if o.schema.isSome then o.schema else base.schemaPath
  persist : s.history.persist = if o.noHistory then false else base.history.persist
  maxSize : s.history.maxSize = base.history.maxSize
  filePath : s.history.filePath = base.history.filePath

namespace Options

variable {o : Options} {base s t : Settings}

theorem overrides_apply (o : Options) (base : Settings) : o.Overrides base (o.apply base) where
  format_kept := by
    intro h
    simp [apply, format?, h]
  format_named := by
    intro name f h hnamed
    simp [apply, format?, h, OutputFormat.read_eq_ok.2 hnamed, Except.toOption]
  format_unknown := by
    intro name h hunknown
    cases hread : OutputFormat.read name with
    | ok f => exact absurd (OutputFormat.read_eq_ok.1 hread) (hunknown f)
    | error e => simp [apply, format?, h, hread, Except.toOption]
  colours := by cases h : o.noColour <;> simp [apply, h]
  highlighting := by cases h : o.noColour <;> simp [apply, h]
  level := by
    rw [apply, level?]
    split_ifs <;> rfl
  timestamps := rfl
  schemaPath := by cases h : o.schema <;> simp [apply, h]
  persist := by cases h : o.noHistory <;> simp [apply, h]
  maxSize := rfl
  filePath := rfl

/-- What the options name does not depend on the settings before. -/
theorem Overrides.again (h : o.Overrides base s) : o.Overrides s s where
  format_kept := fun _ => rfl
  format_named := h.format_named
  format_unknown := h.format_unknown
  colours := by
    split_ifs with ho
    · rw [h.colours, if_pos ho]
    · rfl
  highlighting := by
    split_ifs with ho
    · rw [h.highlighting, if_pos ho]
    · rfl
  level := by
    have hlevel := h.level
    split_ifs at hlevel ⊢
    all_goals first | exact hlevel | rfl
  timestamps := rfl
  schemaPath := by
    split_ifs with ho
    · rw [h.schemaPath, if_pos ho]
    · rfl
  persist := by
    split_ifs with ho
    · rw [h.persist, if_pos ho]
    · rfl
  maxSize := rfl
  filePath := rfl

theorem Overrides.format_eq (h : o.Overrides base s) (h' : o.Overrides base t) :
    s.display.format = t.display.format := by
  cases hname : o.format with
  | none => rw [h.format_kept hname, h'.format_kept hname]
  | some name =>
    by_cases hnamed : ∃ f : OutputFormat, f.Named name
    · obtain ⟨f, hf⟩ := hnamed
      rw [h.format_named name f hname hf, h'.format_named name f hname hf]
    · have hunknown : ∀ f : OutputFormat, ¬f.Named name := not_exists.1 hnamed
      rw [h.format_unknown name hname hunknown, h'.format_unknown name hname hunknown]

/-- Nothing is left open of the settings that options lead to. -/
theorem Overrides.unique (h : o.Overrides base s) (h' : o.Overrides base t) : s = t := by
  have hformat := h.format_eq h'
  have hcolours := h.colours.trans h'.colours.symm
  have hhighlighting := h.highlighting.trans h'.highlighting.symm
  have hlevel := h.level.trans h'.level.symm
  have htimestamps := h.timestamps.trans h'.timestamps.symm
  have hschema := h.schemaPath.trans h'.schemaPath.symm
  have hpersist := h.persist.trans h'.persist.symm
  have hsize := h.maxSize.trans h'.maxSize.symm
  have hfile := h.filePath.trans h'.filePath.symm
  -- The fields are known to agree one by one, so the records are taken apart.
  clear h h'
  obtain ⟨⟨_, _, _⟩, ⟨_, _, _⟩, ⟨_, _⟩, _⟩ := s
  obtain ⟨⟨_, _, _⟩, ⟨_, _, _⟩, ⟨_, _⟩, _⟩ := t
  cases hformat
  cases hcolours
  cases hhighlighting
  cases hlevel
  cases htimestamps
  cases hschema
  cases hpersist
  cases hsize
  cases hfile
  rfl

theorem Overrides.apply_eq (h : o.Overrides base s) : o.apply s = s :=
  (o.overrides_apply s).unique h.again

/-- Options keep settings valid: they add no path but the one of the schema, and a history that is
no longer kept needs none. -/
theorem Overrides.valid (h : o.Overrides base s) (hbase : base.Valid) (ho : o.schema ≠ some "") :
    s.Valid where
  room := by
    rw [h.maxSize]
    exact hbase.room
  file := by
    rw [h.persist, h.filePath]
    split_ifs
    · rintro ⟨⟩
    · exact hbase.file
  schema := by
    rw [h.schemaPath]
    split_ifs
    · exact ho
    · exact hbase.schema

end Options

section Loading

variable {c : Codec} {home : String} {disk : Disk} {o : Options} {s : Settings}

/-- The file that the settings come from: the one that is named, or the one in the home folder if
there is one. -/
def selected? (home : String) (disk : Disk) (o : Options) : Option String :=
  o.settingsFile.or (if disk.holds (defaultPath home) then some (defaultPath home) else none)

/-- The settings before the options: those in the file if they are valid, and else the defaults. -/
inductive Base (c : Codec) (home : String) (disk : Disk) : Option String → Settings → Prop
  | missing : Base c home disk none (defaults home)
  | valid {path text : String} {s : Settings} : disk.read path = .ok text →
    decode c home text = .ok s → s.validate = .ok () → Base c home disk (some path) s
  | invalid {path text : String} {s : Settings} {e : SettingsError} : disk.read path = .ok text →
    decode c home text = .ok s → s.validate = .error e →
    Base c home disk (some path) (defaults home)

theorem load_eq (c : Codec) (home : String) (disk : Disk) (o : Options) :
    load c home disk o.settingsFile =
      (selected? home disk o).elim (.ok (defaults home)) (ofFile c home disk) := by
  rw [selected?]
  cases o.settingsFile with
  | some path => rfl
  | none =>
    rw [load, Option.none_or]
    split_ifs <;> rfl

theorem effective_of_error {e : SettingsError} (h : load c home disk o.settingsFile = .error e) :
    (effective c home disk o).result = .error (.settings e) := by
  simp [effective, h, Report.ofExcept, Except.mapError, bind, Report.bind]

theorem effective_of_valid (h : load c home disk o.settingsFile = .ok s)
    (hvalid : s.validate = .ok ()) : (effective c home disk o).result = .ok (o.apply s) := by
  simp [effective, h, orDefaults, hvalid, Report.ofExcept, Except.mapError, Report.write, bind,
    Report.bind, pure, Report.pure]

theorem effective_of_invalid {e : SettingsError} (h : load c home disk o.settingsFile = .ok s)
    (hinvalid : s.validate = .error e) :
    (effective c home disk o).result = .ok (o.apply (defaults home)) := by
  simp [effective, h, orDefaults, hinvalid, Report.ofExcept, Except.mapError, Report.write, bind,
    Report.bind, pure, Report.pure]

theorem Base.validate {path : Option String} (h : Base c home disk path s) :
    s.validate = .ok () := by
  cases h with
  | missing => exact validate_eq_ok.2 (valid_defaults home)
  | valid _ _ hvalid => exact hvalid
  | invalid _ _ _ => exact validate_eq_ok.2 (valid_defaults home)

/-- A run gets its settings from the base, unless the file fails. -/
theorem effective_cases (c : Codec) (home : String) (disk : Disk) (o : Options) :
    (∃ path e, selected? home disk o = some path ∧ Unloadable c home disk path e ∧
      (effective c home disk o).result = .error (.settings e)) ∨
    ∃ base, Base c home disk (selected? home disk o) base ∧
      (effective c home disk o).result = .ok (o.apply base) := by
  have hload := load_eq c home disk o
  cases hselected : selected? home disk o with
  | none =>
    rw [hselected] at hload
    have hvalid := validate_eq_ok.2 (valid_defaults home)
    exact .inr ⟨_, .missing, effective_of_valid hload hvalid⟩
  | some path =>
    rw [hselected] at hload
    cases hfile : ofFile c home disk path with
    | error e =>
      have hload' := hload.trans hfile
      exact .inl ⟨path, e, rfl, ofFile_eq_error.1 hfile, effective_of_error hload'⟩
    | ok s =>
      have hload' := hload.trans hfile
      obtain ⟨text, hread, hdecode⟩ := ofFile_eq_ok.1 hfile
      cases hs : s.validate with
      | ok u => exact .inr ⟨s, .valid hread hdecode hs, effective_of_valid hload' hs⟩
      | error e =>
        exact .inr ⟨_, .invalid hread hdecode hs, effective_of_invalid hload' hs⟩

end Loading

/-- With options that give no empty path for the schema, a run fails if the file of the settings
cannot be read or holds no settings, and with that error. Otherwise it has valid settings: those of
the file, or all the defaults if these are not valid or there is no file, with what the options
name overridden and all else as it is. The same options change them no further. -/
theorem effective_valid (c : Codec) (home : String) (disk : Disk) (o : Options)
    (ho : o.schema ≠ some "") :
    (∃ path e, selected? home disk o = some path ∧ Unloadable c home disk path e ∧
      (effective c home disk o).result = .error (.settings e)) ∨
    ∃ base s, Base c home disk (selected? home disk o) base ∧
      (effective c home disk o).result = .ok s ∧ s.validate = .ok () ∧
      o.Overrides base s ∧ o.apply s = s := by
  rcases effective_cases c home disk o with hfails | ⟨base, hbase, hresult⟩
  · exact .inl hfails
  · have hoverrides := o.overrides_apply base
    have hvalid := hoverrides.valid (validate_eq_ok.1 hbase.validate) ho
    exact .inr ⟨base, o.apply base, hbase, hresult, validate_eq_ok.2 hvalid, hoverrides,
      hoverrides.apply_eq⟩

/-- A file without room for a history gives way to the defaults as a whole, its format included,
and a name that is no format stands for a table. -/
theorem effective_valid_fallback :
    let kept : Settings :=
      { display := { format := .json }, history := { maxSize := 0, filePath := "h" } }
    let text := String.ofList (writeSections kept.sections)
    let disk : Disk := ⟨fun _ => .ok text, fun _ => true, fun _ => none⟩
    ∃ a, Arguments.read ["-qs", "s.toml", "--format=YAML"] = .ok a ∧ a.options.schema ≠ some "" ∧
      ∃ s, (effective .standard "home" disk a.options).result = .ok s ∧ s.validate = .ok () ∧
        s.display.format = .table ∧ s.logging.level = .error ∧ s.history.maxSize = 1000 ∧
        s.schemaPath = some "s.toml" := by
  intro kept text disk
  have hread : Arguments.read ["-qs", "s.toml", "--format=YAML"] =
      .ok ⟨{ schema := some "s.toml", format := some "YAML", quiet := true }, none⟩ := rfl
  have hsections := kept.writable_sections (by decide)
  have hdecode : decode .standard "home" text = .ok kept :=
    decode_of_read "home" (by decide) (read_standard hsections) (isDocument_entries hsections)
  have hyaml : ∀ f : OutputFormat, ¬f.Named "YAML" := fun f hf => by
    cases OutputFormat.read_eq_ok.2 hf
  have hschema := schema_ne_empty hread
  refine ⟨_, hread, hschema, ?_⟩
  rcases effective_valid .standard "home" disk _ hschema with ⟨path, e, -, hfails, -⟩ |
    ⟨base, s, hbase, hresult, hvalid, hoverrides, -⟩
  · cases hfails with
    | unreadable h => cases h
    | undecodable h h' =>
      cases h
      rw [hdecode] at h'
      cases h'
  · have hdefaults : base = defaults "home" := by
      generalize selected? _ _ _ = path at hbase
      cases hbase with
      | missing => rfl
      | valid h h' hkept =>
        cases h
        rw [hdecode] at h'
        cases h'
        cases hkept
      | invalid _ _ _ => rfl
    refine ⟨s, hresult, hvalid, hoverrides.format_unknown "YAML" rfl hyaml, hoverrides.level, ?_,
      hoverrides.schemaPath⟩
    rw [hoverrides.maxSize, hdefaults]
    rfl

end Cli

end CqlConsole
