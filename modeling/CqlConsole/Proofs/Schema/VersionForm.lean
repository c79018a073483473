import CqlConsole.Proofs.Number.Numerals
import CqlConsole.Proofs.Shell.Submission
import CqlConsole.Schema.Version

/-!
# The form of a version

A version is to be written with two or three numbers, perhaps a letter in front
and the mark of a snapshot build behind them. Reading takes more than that: a
number may have a plus sign, and what follows a third point is not looked at.
-/

set_option autoImplicit false

namespace CqlConsole.Schema.Version

open CqlConsole.Form CqlConsole.Number CqlConsole.Shell CqlConsole.Text Computability

def snapshotMark : List Char :=
  "-SNAPSHOT".toList

def digits (n : UInt32) : Language Char :=
  {s | s ∈ many digit ∧ decimalValue s = n.toNat}

def signedDigits (n : UInt32) : Language Char :=
  maybe (mark '+') * digits n

def ending : Language Char :=
  maybe {snapshotMark}

def missing (n : UInt32) : Language Char :=
  {s | s = [] ∧ n = 0}

/-- The numbers of a version, each written as in `part`, with points between them. A last number
that is missing is zero. Behind two numbers stands what is in `short`, and behind three what is in
`long`. -/
def numbers (part : UInt32 → Language Char) (short long : Language Char) (v : Version) :
    Language Char :=
  part v.major * (mark '.' * (part v.minor *
    (missing v.patch * short + mark '.' * (part v.patch * long))))

/-- The texts that a version is to have. -/
def documented (v : Version) : Language Char :=
  maybe (mark 'v') * numbers digits ending ending v

def accepted (v : Version) : Language Char :=
  maybe (mark 'v') * numbers signedDigits ending (ending + mark '.' * ⊤) v

section Numbers

variable {s : List Char} {n : UInt32}

theorem le_digitsValue (m : Nat) (s : List Char) : m ≤ digitsValue m s := by
  induction s generalizing m with
  | nil => exact Nat.le_refl m
  | cons c s ih =>
    calc m ≤ 10 * m + digitValue c := by omega
      _ ≤ digitsValue (10 * m + digitValue c) s := ih _

/-- No excess goes unnoticed, since the number read so far never gets smaller. -/
theorem wordFrom_eq_ok {m k : Nat} (hm : m < UInt32.size) (s : List Char) :
    wordFrom m s = .ok k ↔ (∀ c ∈ s, c.isDigit = true) ∧ digitsValue m s = k ∧ k < UInt32.size := by
  induction s generalizing m with
  | nil =>
    rw [wordFrom, Except.ok.injEq]
    constructor
    · rintro rfl
      exact ⟨by simp, rfl, hm⟩
    · exact fun h => h.2.1
  | cons c s ih =>
    have hstep : digitsValue m (c :: s) = digitsValue (10 * m + digitValue c) s := rfl
    rw [wordFrom, hstep, List.forall_mem_cons]
    by_cases hc : c.isDigit = true
    · by_cases hlarge : UInt32.size ≤ 10 * m + digitValue c
      · have hgrown := le_digitsValue (10 * m + digitValue c) s
        simp only [hc, Bool.not_true, Bool.false_eq_true, if_false, if_pos hlarge, reduceCtorEq,
          false_iff, not_and]
        intro _ hvalue
        omega
      · rw [if_neg (by simp [hc]), if_neg hlarge, ih (by omega)]
        simp [hc]
    · simp [hc]

/-- Digits are read as the number they spell, if it has room. -/
theorem wordFrom_digits (h : s ≠ []) :
    (wordFrom 0 s).map UInt32.ofNat = .ok n ↔ s ∈ digits n := by
  have hread : (wordFrom 0 s).map UInt32.ofNat = .ok n ↔ wordFrom 0 s = .ok n.toNat := by
    cases hs : wordFrom 0 s with
    | error e => simp [Except.map]
    | ok k =>
      have hk := ((wordFrom_eq_ok (by decide) s).1 hs).2.2
      rw [Except.map, Except.ok.injEq, Except.ok.injEq]
      constructor
      · rintro rfl
        exact (UInt32.toNat_ofNat_of_lt' hk).symm
      · rintro rfl
        exact UInt32.ofNat_toNat
  rw [hread, wordFrom_eq_ok (by decide), digitsValue_zero]
  show _ ↔ s ∈ many digit ∧ _
  rw [digit, mem_many_one]
  constructor
  · rintro ⟨hall, hvalue, -⟩
    exact ⟨⟨h, hall⟩, hvalue⟩
  · rintro ⟨⟨-, hall⟩, hvalue⟩
    exact ⟨hall, hvalue, n.toNat_lt⟩

theorem mem_digits_ne_nil (h : s ∈ digits n) : s ≠ [] :=
  (mem_many_one.1 h.1).1

theorem isDigit_of_mem_digits (h : s ∈ digits n) : ∀ c ∈ s, c.isDigit = true :=
  (mem_many_one.1 h.1).2

theorem mem_signedDigits : s ∈ signedDigits n ↔ s ∈ digits n ∨ ∃ t ∈ digits n, s = '+' :: t := by
  rw [signedDigits, mem_maybe_mul, mem_mark_mul]

theorem word_eq_ok : word s = .ok n ↔ s ∈ signedDigits n := by
  have hsign : ∀ t, '+' :: t ∉ digits n := fun t h => by
    cases isDigit_of_mem_digits h '+' (by simp)
  rw [mem_signedDigits]
  unfold word
  split
  · constructor
    · rintro ⟨⟩
    · rintro (h | ⟨t, -, heq⟩)
      · exact absurd rfl (mem_digits_ne_nil h)
      · cases heq
  · constructor
    · rintro ⟨⟩
    · rintro (h | ⟨t, ht, heq⟩)
      · exact absurd h (hsign [])
      · cases heq
        exact absurd rfl (mem_digits_ne_nil ht)
  · next t ht =>
    have hne : t ≠ [] := fun h => ht h
    rw [wordFrom_digits hne]
    constructor
    · exact fun h => .inr ⟨t, h, rfl⟩
    · rintro (h | ⟨u, hu, heq⟩)
      · exact absurd h (hsign t)
      · cases heq
        exact hu
  · next hnil hone hplus =>
    rw [wordFrom_digits hnil]
    constructor
    · exact .inl
    · rintro (h | ⟨u, -, heq⟩)
      · exact h
      · exact absurd heq (hplus u)

theorem number_eq_ok {text place : String} :
    number text place s = .ok n ↔ s ∈ signedDigits n := by
  rw [← word_eq_ok, number]
  cases word s <;> simp [Except.mapError]

theorem number_eq_error {text place : String} {e : SchemaError}
    (h : number text place s = .error e) : ∃ note, e = .invalidVersion (text ++ note) := by
  rw [number] at h
  cases hs : word s with
  | ok n => simp [hs, Except.mapError] at h
  | error fault =>
    simp only [hs, Except.mapError, Except.error.injEq] at h
    refine ⟨" (invalid " ++ place ++ " version " ++ shown (String.ofList s) ++ ": " ++
      fault.message ++ ")", ?_⟩
    rw [← h]
    simp only [String.append_assoc]

theorem notMem_of_signedDigits {c : Char} (h : s ∈ signedDigits n) (hc : c.isDigit = false)
    (hplus : c ≠ '+') : c ∉ s := by
  intro hmem
  rcases mem_signedDigits.1 h with hs | ⟨t, ht, rfl⟩
  · simp [isDigit_of_mem_digits hs c hmem] at hc
  · rcases List.mem_cons.1 hmem with rfl | hmem
    · exact hplus rfl
    · simp [isDigit_of_mem_digits ht c hmem] at hc

end Numbers

section Layout

variable {s t m : List Char} {part : UInt32 → Language Char} {short long : Language Char}
variable {n : UInt32} {v : Version}

theorem mem_ending : m ∈ ending ↔ m = [] ∨ m = snapshotMark :=
  Iff.rfl

theorem mem_numbers : s ∈ numbers part short long v ↔
    ∃ a ∈ part v.major, ∃ b ∈ part v.minor,
      (v.patch = 0 ∧ ∃ m ∈ short, s = a ++ '.' :: b ++ m) ∨
      ∃ c ∈ part v.patch, ∃ m ∈ long, s = a ++ '.' :: (b ++ '.' :: c) ++ m := by
  constructor
  · intro h
    obtain ⟨a, ha, t, ht, rfl⟩ := Language.mem_mul.1 h
    obtain ⟨u, hu, rfl⟩ := mem_mark_mul.1 ht
    obtain ⟨b, hb, w, hw, rfl⟩ := Language.mem_mul.1 hu
    refine ⟨a, ha, b, hb, ?_⟩
    rcases (Language.mem_add _ _ _).1 hw with hw | hw
    · obtain ⟨c, ⟨rfl, hzero⟩, m, hm, rfl⟩ := Language.mem_mul.1 hw
      exact .inl ⟨hzero, m, hm, by simp⟩
    · obtain ⟨x, hx, rfl⟩ := mem_mark_mul.1 hw
      obtain ⟨c, hc, m, hm, rfl⟩ := Language.mem_mul.1 hx
      exact .inr ⟨c, hc, m, hm, by simp⟩
  · rintro ⟨a, ha, b, hb, ⟨hzero, m, hm, rfl⟩ | ⟨c, hc, m, hm, rfl⟩⟩
    · have hrest : m ∈ missing v.patch * short + mark '.' * (part v.patch * long) :=
        .inl (Language.append_mem_mul (a := []) ⟨rfl, hzero⟩ hm)
      rw [List.append_assoc, List.cons_append]
      exact Language.append_mem_mul ha (mem_mark_mul.2 ⟨_, Language.append_mem_mul hb hrest, rfl⟩)
    · have hrest : '.' :: (c ++ m) ∈ missing v.patch * short + mark '.' * (part v.patch * long) :=
        .inr (mem_mark_mul.2 ⟨_, Language.append_mem_mul hc hm, rfl⟩)
      rw [List.append_assoc, List.cons_append, List.append_assoc, List.cons_append]
      exact Language.append_mem_mul ha (mem_mark_mul.2 ⟨_, Language.append_mem_mul hb hrest, rfl⟩)

theorem mem_led {l : Language Char} : s ∈ maybe (mark 'v') * l ↔ ∃ t ∈ l, s = t ∨ s = 'v' :: t := by
  rw [mem_maybe_mul, mem_mark_mul]
  constructor
  · rintro (h | ⟨t, ht, hs⟩)
    · exact ⟨s, h, .inl rfl⟩
    · exact ⟨t, ht, .inr hs⟩
  · rintro ⟨t, ht, rfl | hs⟩
    · exact .inl ht
    · exact .inr ⟨t, ht, hs⟩

end Layout

section Core

variable {s t m : List Char} {v : Version}

def bare (v : Version) : Language Char :=
  numbers signedDigits 1 (maybe (mark '.' * ⊤)) v

/-- What is taken off a text: a letter in front, and the mark behind. -/
theorem exists_core (s : List Char) :
    ∃ m ∈ ending, trim s = core s ++ m ∨ trim s = 'v' :: (core s ++ m) := by
  have hletter : dropTail snapshotMark (trim s) = core s ∨
      dropTail snapshotMark (trim s) = 'v' :: core s := by
    show _ = core s ∨ _ = 'v' :: core s
    rw [core]
    split
    · exact .inr ‹_›
    · exact .inl rfl
  rcases exists_dropTail snapshotMark (trim s) with hs | hs
  · refine ⟨[], .inl rfl, ?_⟩
    rw [hs, List.append_nil]
    exact hletter
  · refine ⟨snapshotMark, .inr rfl, ?_⟩
    rw [hs]
    rcases hletter with h | h
    · exact .inl (by rw [h])
    · exact .inr (by rw [h, List.cons_append])

def EndsInDigit (s : List Char) : Prop :=
  ∃ d ∈ s.getLast?, d.isDigit = true

theorem endsInDigit_of_mem {n : UInt32} (h : s ∈ signedDigits n) : EndsInDigit s := by
  have hends : ∀ t ∈ digits n, EndsInDigit t := fun t ht => by
    refine ⟨t.getLast (mem_digits_ne_nil ht), List.getLast?_eq_getLast_of_ne_nil _, ?_⟩
    exact isDigit_of_mem_digits ht _ (List.getLast_mem _)
  rcases mem_signedDigits.1 h with hs | ⟨t, ht, rfl⟩
  · exact hends s hs
  · obtain ⟨d, hd, hdigit⟩ := hends t ht
    exact ⟨d, by rw [List.getLast?_cons, Option.mem_def.1 hd]; rfl, hdigit⟩

theorem EndsInDigit.append (h : EndsInDigit t) (s : List Char) : EndsInDigit (s ++ t) := by
  obtain ⟨d, hd, hdigit⟩ := h
  exact ⟨d, by rw [List.getLast?_append, Option.mem_def.1 hd]; rfl, hdigit⟩

theorem EndsInDigit.cons (h : EndsInDigit t) (c : Char) : EndsInDigit (c :: t) :=
  h.append [c]

/-- The mark is found behind a digit, and nothing else is taken for it. -/
theorem dropTail_ending (h : EndsInDigit s) (hm : m ∈ ending) :
    dropTail snapshotMark (s ++ m) = s := by
  rcases mem_ending.1 hm with rfl | rfl
  · rw [List.append_nil]
    refine dropTail_of_not_suffix ?_
    rintro ⟨front, rfl⟩
    -- The last character of the mark is a letter.
    obtain ⟨d, hd, hdigit⟩ := h
    rw [List.getLast?_append] at hd
    cases hd
    cases hdigit
  · exact dropTail_append s snapshotMark

/-- A mark behind a point stands in what follows the point. -/
theorem exists_dropTail_point (s t : List Char) :
    ∃ u, dropTail snapshotMark (s ++ '.' :: t) = s ++ '.' :: u := by
  rcases exists_dropTail snapshotMark (s ++ '.' :: t) with h | h
  · exact ⟨t, h.symm⟩
  · have hmark : snapshotMark <:+ s ++ '.' :: t := ⟨_, h.symm⟩
    have hpoint : '.' :: t <:+ s ++ '.' :: t := List.suffix_append s _
    -- Of two ends of one text one is an end of the other, and the mark has no point.
    rcases List.suffix_or_suffix_of_suffix hmark hpoint with hin | hin
    · rcases List.suffix_cons_iff.1 hin with heq | ⟨u, rfl⟩
      · cases heq
      · refine ⟨u, ?_⟩
        have happend : s ++ '.' :: (u ++ snapshotMark) = s ++ '.' :: u ++ snapshotMark := by simp
        rw [happend, dropTail_append]
    · have hmem : '.' ∈ snapshotMark := hin.subset List.mem_cons_self
      exact absurd hmem (by decide)

theorem dropTail_numbers (h : s ∈ numbers signedDigits ending (ending + mark '.' * ⊤) v) :
    dropTail snapshotMark s ∈ bare v := by
  obtain ⟨a, ha, b, hb, ⟨hzero, m, hm, rfl⟩ | ⟨c, hc, m, hm, rfl⟩⟩ := mem_numbers.1 h
  · have hends : EndsInDigit (a ++ '.' :: b) := ((endsInDigit_of_mem hb).cons '.').append a
    rw [dropTail_ending hends hm]
    exact mem_numbers.2 ⟨a, ha, b, hb, .inl ⟨hzero, [], rfl, by simp⟩⟩
  · have hends : EndsInDigit (a ++ '.' :: (b ++ '.' :: c)) :=
      ((((endsInDigit_of_mem hc).cons '.').append b).cons '.').append a
    refine mem_numbers.2 ⟨a, ha, b, hb, .inr ⟨c, hc, ?_⟩⟩
    rcases (Language.mem_add _ _ _).1 hm with hm | hm
    · rw [dropTail_ending hends hm]
      exact ⟨[], .inl rfl, by simp⟩
    · obtain ⟨t, -, rfl⟩ := mem_mark_mul.1 hm
      obtain ⟨u, hu⟩ := exists_dropTail_point (a ++ '.' :: (b ++ '.' :: c)) t
      exact ⟨'.' :: u, .inr (mem_mark_mul.2 ⟨u, trivial, rfl⟩), hu⟩

theorem head_of_bare (h : s ∈ bare v) : s.head? ≠ some 'v' := by
  obtain ⟨a, ha, b, -, hrest⟩ := mem_numbers.1 h
  have hhead : ∀ t, (a ++ t).head? ≠ some 'v' := fun t => by
    have hletter : 'v' ∉ a := notMem_of_signedDigits ha (by decide) (by decide)
    cases a with
    | nil => exact absurd (mem_signedDigits.1 ha) (by
        rintro (h | ⟨t, -, ht⟩)
        · exact mem_digits_ne_nil h rfl
        · cases ht)
    | cons c a =>
      intro heq
      cases heq
      exact hletter List.mem_cons_self
  rcases hrest with ⟨-, m, -, rfl⟩ | ⟨c, -, m, -, rfl⟩
  · rw [List.append_assoc]
    exact hhead _
  · rw [List.append_assoc]
    exact hhead _

theorem bare_ending (h : s ∈ bare v) (hm : m ∈ ending) :
    s ++ m ∈ numbers signedDigits ending (ending + mark '.' * ⊤) v := by
  obtain ⟨a, ha, b, hb, ⟨hzero, d, rfl, rfl⟩ | ⟨c, hc, d, hd, rfl⟩⟩ := mem_numbers.1 h
  · exact mem_numbers.2 ⟨a, ha, b, hb, .inl ⟨hzero, m, hm, by simp⟩⟩
  · refine mem_numbers.2 ⟨a, ha, b, hb, .inr ⟨c, hc, d ++ m, ?_, by simp⟩⟩
    rcases hd with rfl | hd
    · exact .inl hm
    · obtain ⟨t, -, rfl⟩ := mem_mark_mul.1 hd
      exact .inr (mem_mark_mul.2 ⟨t ++ m, trivial, rfl⟩)

theorem dropTail_letter (s : List Char) :
    dropTail snapshotMark ('v' :: s) = 'v' :: dropTail snapshotMark s := by
  by_cases h : snapshotMark <:+ s
  · obtain ⟨front, rfl⟩ := h
    rw [← List.cons_append, dropTail_append, dropTail_append]
  · rw [dropTail_of_not_suffix h]
    refine dropTail_of_not_suffix fun hsuffix => ?_
    rcases List.suffix_cons_iff.1 hsuffix with heq | hin
    · cases heq
    · exact h hin

theorem core_of_letter (h : dropTail snapshotMark (trim s) = 'v' :: t) : core s = t := by
  have hmark : dropTail "-SNAPSHOT".toList (trim s) = 'v' :: t := h
  rw [core, hmark]
  rfl

theorem core_of_head (h : (dropTail snapshotMark (trim s)).head? ≠ some 'v') :
    core s = dropTail snapshotMark (trim s) := by
  rw [core]
  split
  · next hs => exact absurd (congrArg List.head? hs) h
  · rfl

/-- Without the letter and the mark an accepted text is what is cut into numbers. -/
theorem core_mem_bare : core s ∈ bare v ↔ trim s ∈ accepted v := by
  rw [accepted, mem_led]
  constructor
  · intro h
    obtain ⟨m, hm, hs⟩ := exists_core s
    exact ⟨core s ++ m, bare_ending h hm, hs⟩
  · rintro ⟨t, ht, hs⟩
    have hbare := dropTail_numbers ht
    rcases hs with hs | hs
    · have hhead := head_of_bare hbare
      rw [← hs] at hbare hhead
      rwa [core_of_head hhead]
    · rwa [core_of_letter (hs ▸ dropTail_letter t)]

end Core

section Reading

variable {text : String} {v : Version} {a b c : List Char} {rest : List (List Char)}

theorem ofText_two (h : pieces '.' (core text.toList) = [a, b]) :
    ofText text = .ok v ↔
      a ∈ signedDigits v.major ∧ b ∈ signedDigits v.minor ∧ v.patch = 0 := by
  simp only [ofText, h, bind_eq_ok, number_eq_ok, pure, Except.pure, Except.ok.injEq]
  constructor
  · rintro ⟨major, ha, minor, hb, rfl⟩
    exact ⟨ha, hb, rfl⟩
  · rintro ⟨ha, hb, hzero⟩
    exact ⟨v.major, ha, v.minor, hb, by rw [← hzero]⟩

theorem ofText_three (h : pieces '.' (core text.toList) = a :: b :: c :: rest) :
    ofText text = .ok v ↔
      a ∈ signedDigits v.major ∧ b ∈ signedDigits v.minor ∧ c ∈ signedDigits v.patch := by
  simp only [ofText, h, bind_eq_ok, number_eq_ok, pure, Except.pure, Except.ok.injEq]
  constructor
  · rintro ⟨major, ha, minor, hb, patch, hc, rfl⟩
    exact ⟨ha, hb, hc⟩
  · rintro ⟨ha, hb, hc⟩
    exact ⟨v.major, ha, v.minor, hb, v.patch, hc, rfl⟩

theorem point_of_pieces (h : pieces '.' (core text.toList) = a :: b :: c :: rest) :
    ∃ m ∈ maybe (mark '.' * ⊤), core text.toList = a ++ '.' :: (b ++ '.' :: c) ++ m := by
  have hjoined := joined_pieces '.' (core text.toList)
  rw [h] at hjoined
  cases rest with
  | nil => exact ⟨[], .inl rfl, by rw [← hjoined]; simp [List.intercalate]⟩
  | cons d ds =>
    refine ⟨'.' :: ['.'].intercalate (d :: ds), .inr (mem_mark_mul.2 ⟨_, trivial, rfl⟩), ?_⟩
    rw [← hjoined]
    simp [List.intercalate]

theorem bare_of_ofText (h : ofText text = .ok v) : core text.toList ∈ bare v := by
  cases hpieces : pieces '.' (core text.toList) with
  | nil => exact absurd hpieces (pieces_ne_nil _ _)
  | cons a ps =>
    cases ps with
    | nil => simp [ofText, hpieces] at h
    | cons b ps =>
      cases ps with
      | nil =>
        obtain ⟨ha, hb, hzero⟩ := (ofText_two hpieces).1 h
        have hjoined := joined_pieces '.' (core text.toList)
        rw [hpieces] at hjoined
        refine mem_numbers.2 ⟨a, ha, b, hb, .inl ⟨hzero, [], rfl, ?_⟩⟩
        rw [← hjoined]
        simp [List.intercalate]
      | cons c rest =>
        obtain ⟨ha, hb, hc⟩ := (ofText_three hpieces).1 h
        obtain ⟨m, hm, hcore⟩ := point_of_pieces hpieces
        exact mem_numbers.2 ⟨a, ha, b, hb, .inr ⟨c, hc, m, hm, hcore⟩⟩

theorem ofText_of_bare (h : core text.toList ∈ bare v) : ofText text = .ok v := by
  have hpoint {n : UInt32} {s : List Char} (hs : s ∈ signedDigits n) : '.' ∉ s :=
    notMem_of_signedDigits hs (by decide) (by decide)
  obtain ⟨a, ha, b, hb, ⟨hzero, m, rfl, hcore⟩ | ⟨c, hc, m, hm, hcore⟩⟩ := mem_numbers.1 h
  · refine (ofText_two ?_).2 ⟨ha, hb, hzero⟩
    rw [hcore, List.append_nil, pieces_append_cons (hpoint ha), pieces_of_notMem (hpoint hb)]
  -- What follows a third point may be cut into any number of pieces, and none of them is read.
  · obtain ⟨rest, hrest⟩ : ∃ rest, pieces '.' (c ++ m) = c :: rest := by
      rcases hm with rfl | hm
      · exact ⟨[], by rw [List.append_nil, pieces_of_notMem (hpoint hc)]⟩
      · obtain ⟨t, -, rfl⟩ := mem_mark_mul.1 hm
        exact ⟨_, pieces_append_cons (hpoint hc) t⟩
    have hpieces : pieces '.' (core text.toList) = a :: b :: c :: rest := by
      rw [hcore, List.append_assoc, List.cons_append, List.append_assoc, List.cons_append,
        pieces_append_cons (hpoint ha), pieces_append_cons (hpoint hb), hrest]
    exact (ofText_three hpieces).2 ⟨ha, hb, hc⟩

theorem ofText_eq_ok : ofText text = .ok v ↔ trim text.toList ∈ accepted v := by
  rw [← core_mem_bare]
  exact ⟨bare_of_ofText, ofText_of_bare⟩

theorem ofText_eq_error {e : SchemaError} (h : ofText text = .error e) :
    ∃ note, e = .invalidVersion (text ++ note) := by
  have hwhole : SchemaError.invalidVersion text = .invalidVersion (text ++ "") := by
    rw [String.append_empty]
  rw [ofText] at h
  split at h
  · exact ⟨"", by rw [← hwhole]; exact (Except.error.inj h).symm⟩
  · exact ⟨"", by rw [← hwhole]; exact (Except.error.inj h).symm⟩
  · simp only [bind_eq_error, pure, Except.pure, reduceCtorEq, and_false, exists_false,
      or_false] at h
    rcases h with h | ⟨-, -, h⟩
    · exact number_eq_error h
    · exact number_eq_error h
  · simp only [bind_eq_error, pure, Except.pure, reduceCtorEq, and_false, exists_false,
      or_false] at h
    rcases h with h | ⟨-, -, h | ⟨-, -, h⟩⟩
    · exact number_eq_error h
    · exact number_eq_error h
    · exact number_eq_error h

end Reading

section Departures

variable {s t m : List Char} {n : UInt32} {v : Version}

theorem mem_digits_iff : s ∈ digits n ↔ s ∈ signedDigits n ∧ '+' ∉ s := by
  rw [mem_signedDigits]
  constructor
  · intro h
    refine ⟨.inl h, fun hplus => ?_⟩
    cases isDigit_of_mem_digits h '+' hplus
  · rintro ⟨h | ⟨t, -, rfl⟩, hplus⟩
    · exact h
    · exact absurd List.mem_cons_self hplus

theorem count_point (h : s ∈ signedDigits n) : s.count '.' = 0 :=
  List.count_eq_zero.2 (notMem_of_signedDigits h (by decide) (by decide))

theorem plain_of_ending (hm : m ∈ ending) : '+' ∉ m ∧ m.count '.' = 0 := by
  rcases mem_ending.1 hm with rfl | rfl <;> decide

/-- The numbers are read in other texts as well only if one has a sign or a third point follows. -/
theorem numbers_documented_iff : t ∈ numbers digits ending ending v ↔
    t ∈ numbers signedDigits ending (ending + mark '.' * ⊤) v ∧ '+' ∉ t ∧ t.count '.' ≤ 2 := by
  rw [mem_numbers, mem_numbers]
  constructor
  · rintro ⟨a, ha, b, hb, ⟨hzero, m, hm, rfl⟩ | ⟨c, hc, m, hm, rfl⟩⟩
    · obtain ⟨hplus, hcount⟩ := plain_of_ending hm
      rw [mem_digits_iff] at ha hb
      refine ⟨⟨a, ha.1, b, hb.1, .inl ⟨hzero, m, hm, rfl⟩⟩, by simp [ha.2, hb.2, hplus], ?_⟩
      simp [count_point ha.1, count_point hb.1, hcount]
    · obtain ⟨hplus, hcount⟩ := plain_of_ending hm
      rw [mem_digits_iff] at ha hb hc
      refine ⟨⟨a, ha.1, b, hb.1, .inr ⟨c, hc.1, m, .inl hm, rfl⟩⟩,
        by simp [ha.2, hb.2, hc.2, hplus], ?_⟩
      simp [count_point ha.1, count_point hb.1, count_point hc.1, hcount]
  · rintro ⟨⟨a, ha, b, hb, ⟨hzero, m, hm, rfl⟩ | ⟨c, hc, m, hm, rfl⟩⟩, hplus, hcount⟩
    · simp only [List.mem_append, List.mem_cons, not_or] at hplus
      exact ⟨a, mem_digits_iff.2 ⟨ha, hplus.1.1⟩, b, mem_digits_iff.2 ⟨hb, hplus.1.2.2⟩,
        .inl ⟨hzero, m, hm, rfl⟩⟩
    · simp only [List.mem_append, List.mem_cons, not_or] at hplus
      obtain ⟨⟨hplusA, -, hplusB, -, hplusC⟩, -⟩ := hplus
      have hending : m ∈ ending := by
        rcases (Language.mem_add _ _ _).1 hm with hm | hm
        · exact hm
        · obtain ⟨t, -, rfl⟩ := mem_mark_mul.1 hm
          simp [count_point ha, count_point hb, count_point hc] at hcount
      exact ⟨a, mem_digits_iff.2 ⟨ha, hplusA⟩, b, mem_digits_iff.2 ⟨hb, hplusB⟩,
        .inr ⟨c, mem_digits_iff.2 ⟨hc, hplusC⟩, m, hending, rfl⟩⟩

theorem documented_iff :
    s ∈ documented v ↔ s ∈ accepted v ∧ '+' ∉ s ∧ s.count '.' ≤ 2 := by
  rw [documented, accepted, mem_led, mem_led]
  constructor
  · rintro ⟨t, ht, hs⟩
    obtain ⟨hnumbers, hplus, hcount⟩ := numbers_documented_iff.1 ht
    refine ⟨⟨t, hnumbers, hs⟩, ?_⟩
    rcases hs with rfl | rfl
    · exact ⟨hplus, hcount⟩
    · simp [hplus, hcount]
  · rintro ⟨⟨t, ht, hs⟩, hplus, hcount⟩
    refine ⟨t, numbers_documented_iff.2 ⟨ht, ?_⟩, hs⟩
    rcases hs with rfl | rfl
    · exact ⟨hplus, hcount⟩
    · simpa using And.intro hplus hcount

theorem count_trim {c : Char} (hc : isBlank c = false) (s : List Char) :
    (trim s).count c = s.count c := by
  obtain ⟨a, b, ha, hb, hs⟩ := exists_trim s
  have hnone {t : List Char} (ht : ∀ d ∈ t, isBlank d = true) : t.count c = 0 := by
    rw [List.count_eq_zero]
    intro hmem
    simp [ht c hmem] at hc
  conv_rhs => rw [hs, List.count_append, List.count_append, hnone ha, hnone hb]
  omega

end Departures

/-- A text is read as a version exactly if, with the blanks around it left out, it has two or three
numbers with points between them, perhaps with a plus sign before a number, a letter in front and
the mark of a snapshot build behind, or with a third point and anything behind it. Of these texts
the form that versions are to have holds those without a plus sign and with no more than two points.
Every other text is an error, one of versions that shows it. -/
theorem ofText_accepts (text : String) :
    (∀ v, ofText text = .ok v ↔ trim text.toList ∈ accepted v) ∧
    (∀ v, trim text.toList ∈ documented v ↔
      ofText text = .ok v ∧ '+' ∉ text.toList ∧ text.toList.count '.' ≤ 2) ∧
    ((∃ v, ofText text = .ok v) ∨
      ∃ note, ofText text = .error (.invalidVersion (text ++ note))) := by
  refine ⟨fun v => ofText_eq_ok, fun v => ?_, ?_⟩
  · rw [documented_iff, ofText_eq_ok, ← List.count_eq_zero, ← List.count_eq_zero,
      count_trim (by decide), count_trim (by decide)]
  · cases h : ofText text with
    | ok v => exact .inl ⟨v, rfl⟩
    | error e =>
      obtain ⟨note, rfl⟩ := ofText_eq_error h
      exact .inr ⟨note, rfl⟩

/-- Reading takes a fourth number. -/
theorem accepts_surplus : ¬∀ (text : String) (v : Version),
    ofText text = .ok v ↔ trim text.toList ∈ documented v := by
  intro h
  have hread : ofText "4.0.0.1" = .ok ⟨4, 0, 0⟩ := by decide +kernel
  have hdocumented := (h "4.0.0.1" ⟨4, 0, 0⟩).1 hread
  have hpoints := (documented_iff.1 hdocumented).2.2
  revert hpoints
  decide +kernel

end CqlConsole.Schema.Version
