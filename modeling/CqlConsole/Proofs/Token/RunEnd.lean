import CqlConsole.Proofs.Token.Solid
import Mathlib.Data.List.Basic

/-!
# Where a run ends

A run that is followed by a character that cannot go on with it stays a run
when the text around it changes. Which characters those are depends on the mode
in which it ends, and the kind of a run says enough about that mode: a comma
cuts off any token, and a point cuts off a name.
-/

set_option autoImplicit false

namespace CqlConsole

namespace Run

open CqlConsole.Text

namespace Mode

def endsAt (m : Mode) : List Char → Bool
  | [] => true
  | c :: _ => (m.step c).isNone

theorem endsAt_append {m : Mode} {r : List Char} (hr : r ≠ []) (s : List Char) :
    m.endsAt (r ++ s) = m.endsAt r := by
  obtain ⟨c, r, rfl⟩ := List.exists_cons_of_ne_nil hr
  rfl

def opening : Mode → Mode
  | quoted q _ => quoted q false
  | m => m

theorem opening_start (c : Char) : (start c).opening = start c := by
  unfold start
  split_ifs <;> rfl

theorem opening_step {m n : Mode} {c : Char} (h : m.step c = some n) :
    n.opening = m.opening := by
  cases m with
  | punctuation => cases h
  | quoted q closing =>
    simp only [step] at h
    split_ifs at h
    cases h
    rfl
  | number | blanks | word =>
    simp only [step] at h
    split_ifs at h
    cases h
    rfl

/-- A run keeps the mode it began in, up to the quotes that may close it. -/
theorem opening_steps {m n : Mode} {s : List Char} (h : m.steps s = some n) :
    n.opening = m.opening := by
  induction s generalizing m with
  | nil =>
    cases h
    rfl
  | cons c s ih =>
    rw [steps, Option.bind_eq_some_iff] at h
    obtain ⟨k, hk, hs⟩ := h
    rw [ih hs, opening_step hk]

theorem steps_append {m : Mode} (s t : List Char) :
    m.steps (s ++ t) = (m.steps s).bind fun n => n.steps t := by
  induction s generalizing m with
  | nil => rfl
  | cons c s ih =>
    rw [List.cons_append, steps, steps, Option.bind_assoc]
    simp only [ih]

/-- A mode that a class of characters keeps goes on over these characters only. -/
theorem steps_of_loop {m : Mode} {p : Char → Bool} {s : List Char}
    (h : ∀ c, m.step c = if p c = true then some m else none) :
    m.steps s = if s.all p = true then some m else none := by
  induction s with
  | nil => rfl
  | cons c s ih =>
    rw [steps, h, List.all_cons]
    by_cases hc : p c = true <;> simp [hc, ih]

theorem steps_blanks {s : List Char} :
    blanks.steps s = if s.all isBlank = true then some .blanks else none :=
  steps_of_loop fun _ => rfl

end Mode

def endMode : List Char → Option Mode
  | [] => none
  | c :: s => (Mode.start c).steps s

theorem opening_endMode {c : Char} {s : List Char} {m : Mode} (h : endMode (c :: s) = some m) :
    m.opening = .start c := by
  rw [Mode.opening_steps h, Mode.opening_start]

theorem splitFrom_of_endsAt {m : Mode} {s : List Char} (h : m.endsAt s = true) :
    splitFrom m s = ([], split s) := by
  cases s with
  | nil => rfl
  | cons c s =>
    have hc : m.step c = none := Option.isNone_iff_eq_none.1 h
    simp only [splitFrom, hc, split]

theorem splitFrom_append {m n : Mode} {r : List Char} (h : m.steps r = some n) (s : List Char) :
    splitFrom m (r ++ s) = (r ++ (splitFrom n s).1, (splitFrom n s).2) := by
  induction r generalizing m with
  | nil =>
    cases h
    rfl
  | cons c r ih =>
    rw [Mode.steps, Option.bind_eq_some_iff] at h
    obtain ⟨k, hk, hs⟩ := h
    simp only [List.cons_append, splitFrom, hk, ih hs]

/-- A run that ends where the rest begins is the first run of both together. -/
theorem split_append {r s : List Char} {m : Mode} (h : endMode r = some m)
    (hs : m.endsAt s = true) : split (r ++ s) = r :: split s := by
  cases r with
  | nil => cases h
  | cons c r =>
    rw [List.cons_append, split, splitFrom_append h, splitFrom_of_endsAt hs, List.append_nil]

theorem split_single {r : List Char} {m : Mode} (h : endMode r = some m) : split r = [r] := by
  have happend := split_append h (s := []) rfl
  rwa [List.append_nil] at happend

theorem endMode_splitFrom (m : Mode) (s : List Char) :
    (m.steps (splitFrom m s).1).isSome = true ∧
      ∀ r ∈ (splitFrom m s).2, (endMode r).isSome = true := by
  induction s generalizing m with
  | nil => simp [splitFrom, Mode.steps]
  | cons c s ih =>
    rw [splitFrom]
    cases h : m.step c with
    | some n =>
      obtain ⟨hfirst, hrest⟩ := ih n
      exact ⟨by simpa [Mode.steps, h] using hfirst, hrest⟩
    | none =>
      obtain ⟨hfirst, hrest⟩ := ih (.start c)
      refine ⟨rfl, fun r hr => ?_⟩
      rcases List.mem_cons.1 hr with rfl | hr
      · exact hfirst
      · exact hrest r hr

theorem endMode_split (s : List Char) : ∀ r ∈ split s, (endMode r).isSome = true := by
  cases s with
  | nil => simp [split]
  | cons c s =>
    obtain ⟨hfirst, hrest⟩ := endMode_splitFrom (.start c) s
    intro r hr
    rcases List.mem_cons.1 hr with rfl | hr
    · exact hfirst
    · exact hrest r hr

theorem Mode.isOpen_of_step {m : Mode} {c : Char} (h : m.step c = none) : m.isOpen = false := by
  cases m with
  | quoted q closing =>
    cases closing with
    | true => rfl
    | false => simp [step] at h
  | _ => rfl

theorem splitFrom_closed (m : Mode) (s : List Char) :
    ((splitFrom m s).2 ≠ [] → (m.steps (splitFrom m s).1).any Mode.isOpen = false) ∧
      (splitFrom m s).2.Pairwise fun r _ => isOpen r = false := by
  induction s generalizing m with
  | nil => simp [splitFrom]
  | cons c s ih =>
    rw [splitFrom]
    cases h : m.step c with
    | some n =>
      obtain ⟨hfirst, hrest⟩ := ih n
      exact ⟨fun hne => by simpa [Mode.steps, h] using hfirst hne, hrest⟩
    | none =>
      obtain ⟨hfirst, hrest⟩ := ih (.start c)
      refine ⟨fun _ => Mode.isOpen_of_step h, List.pairwise_cons.2 ⟨fun r hr => ?_, hrest⟩⟩
      exact hfirst (List.ne_nil_of_mem hr)

/-- Only the last run of a text can lack its closing quote. -/
theorem split_closed (s : List Char) : (split s).Pairwise fun r _ => isOpen r = false := by
  cases s with
  | nil => exact List.Pairwise.nil
  | cons c s =>
    obtain ⟨hfirst, hrest⟩ := splitFrom_closed (.start c) s
    exact List.pairwise_cons.2 ⟨fun r hr => hfirst (List.ne_nil_of_mem hr), hrest⟩

section Classes

variable {p : Char → Bool} {c d : Char}

def quotes : List Char :=
  ['\'', '"']

def marks : List Char :=
  ['(', ')', ',', '.', ';', '*', '?', ':']

theorem isQuote_iff (c : Char) : isQuote c = true ↔ c ∈ quotes := by
  simp [isQuote, quotes]

theorem isPunctuation_iff (c : Char) : isPunctuation c = true ↔ c ∈ marks := by
  simp [isPunctuation, marks, or_assoc]

/-- A class that holds none of the characters of a list shares none with it. -/
theorem not_mem_of_class {cs : List Char} (hp : cs.any p = false) (h : p c = true) : c ∉ cs := by
  intro hc
  exact List.any_eq_false.1 hp c hc h

theorem isQuote_eq_false (hp : quotes.any p = false) (h : p c = true) : isQuote c = false := by
  rw [Bool.eq_false_iff, Ne, isQuote_iff]
  exact not_mem_of_class hp h

theorem isPunctuation_eq_false (hp : marks.any p = false) (h : p c = true) :
    isPunctuation c = false := by
  rw [Bool.eq_false_iff, Ne, isPunctuation_iff]
  exact not_mem_of_class hp h

theorem ne_of_class (hc : p c = true) (hd : p d = false) : c ≠ d := by
  rintro rfl
  rw [hc] at hd
  cases hd

theorem beq_of_class (hd : p d = false) (hc : p c = true) : (c == d) = false :=
  beq_false_of_ne (ne_of_class hc hd)

end Classes

section Kinds

variable {c : Char} {s : List Char}

/-- No blank lies between the space and the control characters behind ASCII. -/
theorem toNat_of_isBlank (h : isBlank c = true) : c.toNat ≤ 32 ∨ 133 ≤ c.toNat := by
  simp only [isBlank, Bool.or_eq_true, Bool.and_eq_true, decide_eq_true_eq, beq_iff_eq] at h
  omega

theorem isHexDigit_of_isBlank (h : isBlank c = true) : isHexDigit c = false := by
  have hn := toNat_of_isBlank h
  simp only [isHexDigit, Char.isDigit, Char.le_def, UInt32.le_iff_toNat_le, Bool.or_eq_false_iff,
    Bool.and_eq_false_iff, decide_eq_false_iff_not, ge_iff_le]
  simp only [Char.toNat, Char.reduceVal, UInt32.reduceToNat] at hn ⊢
  omega

theorem toLower_of_isBlank (h : isBlank c = true) : c.toLower = c := by
  have hn := toNat_of_isBlank h
  have hupper : ¬ (c.val ≥ 'A'.val ∧ c.val ≤ 'Z'.val) := by
    simp only [ge_iff_le, UInt32.le_iff_toNat_le]
    simp only [Char.toNat, Char.reduceVal, UInt32.reduceToNat] at hn ⊢
    omega
  exact dif_neg hupper

theorem start_of_isBlank (h : isBlank c = true) : Mode.start c = .blanks := by
  have hpunctuation : isPunctuation c = false := isPunctuation_eq_false rfl h
  have hquote : isQuote c = false := isQuote_eq_false rfl h
  have hminus : c ≠ '-' := ne_of_class h rfl
  simp [Mode.start, hpunctuation, hquote, hminus, h]

theorem isOpen_of_isBlank (h : isBlank c = true) : isOpen (c :: s) = false := by
  rw [isOpen, start_of_isBlank h]
  cases hm : Mode.blanks.steps s with
  | none => rfl
  | some m =>
    have hopening := Mode.opening_steps hm
    have hblanks : m = .blanks := by cases m <;> first | rfl | cases hopening
    rw [hblanks]
    rfl

theorem isUuid_of_isBlank (h : isBlank c = true) : isUuid (c :: s) = false := by
  simp [isUuid, isHexGroups, isHexDigit_of_isBlank h]

theorem isWordOf_of_isBlank {words : List String} (h : isBlank c = true)
    (hw : ∀ w ∈ words, ∃ d u, w.toList = d :: u ∧ isBlank d = false) :
    isWordOf words (c :: s) = false := by
  rw [isWordOf, List.any_eq_false]
  intro w hmem heq
  obtain ⟨d, u, hd, hblank⟩ := hw w hmem
  simp only [hd, lower, List.map_cons, beq_iff_eq, List.cons.injEq, toLower_of_isBlank h] at heq
  exact ne_of_class h hblank heq.1.symm

theorem punctuationKind_of_not_isPunctuation (h : isPunctuation c = false) :
    punctuationKind (c :: s) = none := by
  unfold punctuationKind
  split
  case h_9 => rfl
  all_goals
    rename_i heq
    cases heq
    cases h

theorem kind_of_isBlank (h : isBlank c = true) : kind (c :: s) = .whitespace := by
  have hboolean : isWordOf ["true", "false"] (c :: s) = false :=
    isWordOf_of_isBlank h (by simp [isBlank])
  have hfloat : isWordOf ["nan", "infinity"] (c :: s) = false :=
    isWordOf_of_isBlank h (by simp [isBlank])
  have hblob : isBlob (c :: s) = false := by
    unfold isBlob
    split
    case h_1 _ _ heq =>
      cases heq
      cases h
    case h_2 => rfl
  simp [kind, isOpen_of_isBlank h, isUuid_of_isBlank h, hboolean, hfloat, hblob,
    punctuationKind_of_not_isPunctuation (isPunctuation_eq_false rfl h), plainKind, h]

theorem isBlank_of_kind (h : kind (c :: s) = .whitespace) : isBlank c = true := by
  rw [kind] at h
  split_ifs at h
  cases hp : punctuationKind (c :: s) with
  | some k =>
    rw [hp] at h
    exact absurd (mem_punctuationKinds (hp.trans (congrArg some h))) (by decide)
  | none =>
    rw [hp, Option.getD_none, plainKind] at h
    by_cases hc : isBlank c = true
    · exact hc
    · rw [if_neg hc] at h
      split_ifs at h
      rcases numberKind_cases (c :: s) with hn | hn | hn <;> simp [hn] at h

theorem endMode_of_whitespace {r : List Char} {m : Mode} (h : endMode r = some m)
    (hk : kind r = .whitespace) : m = .blanks := by
  cases r with
  | nil => cases h
  | cons c r =>
    have hopening := opening_endMode h
    rw [start_of_isBlank (isBlank_of_kind hk)] at hopening
    cases m <;> first | rfl | cases hopening

theorem start_eq_quoted {q : Char} (h : Mode.start c = .quoted q false) : isQuote q = true := by
  unfold Mode.start at h
  split_ifs at h with _ hq
  cases h
  exact hq

theorem start_eq_blanks (h : Mode.start c = .blanks) : isBlank c = true := by
  unfold Mode.start at h
  split_ifs at h with _ _ _ hb
  exact hb

theorem start_eq_number (h : Mode.start c = .number) : c = '-' ∨ c.isDigit = true := by
  unfold Mode.start at h
  split_ifs at h with _ _ hm _ hd
  · exact .inl (beq_iff_eq.1 hm)
  · exact .inr hd

theorem isOpen_of_kind {r : List Char} (h : kind r ≠ .error) : isOpen r = false := by
  rw [Bool.eq_false_iff]
  intro hopen
  exact h (by rw [kind, if_pos hopen])

/-- How a run ends that is no white space and has no open quote. -/
theorem endMode_cases {r : List Char} {m : Mode} (h : endMode r = some m)
    (ho : isOpen r = false) (hw : kind r ≠ .whitespace) :
    m = .punctuation ∨ m = .word ∨ m = .number ∨
      ∃ q, isQuote q = true ∧ m = .quoted q true := by
  cases r with
  | nil => cases h
  | cons c r =>
    have hstart := opening_endMode h
    cases m with
    | punctuation => exact .inl rfl
    | word => exact .inr (.inl rfl)
    | number => exact .inr (.inr (.inl rfl))
    | blanks =>
      have hkind := kind_of_isBlank (s := r) (start_eq_blanks hstart.symm)
      exact absurd hkind hw
    | quoted q closing =>
      have hclosing : closing = true := by
        rw [endMode] at h
        rw [isOpen, h] at ho
        cases closing with
        | true => rfl
        | false => cases ho
      rw [hclosing]
      exact .inr (.inr (.inr ⟨q, start_eq_quoted hstart.symm, rfl⟩))

theorem plainKind_of_name {r : List Char} (h : kind r = .identifier) :
    plainKind r = .identifier := by
  rw [kind] at h
  split_ifs at h
  cases hp : punctuationKind r with
  | none => rwa [hp] at h
  | some k =>
    rw [hp] at h
    exact absurd (mem_punctuationKinds (hp.trans (congrArg some h))) (by decide)

theorem isAlpha_iff (c : Char) :
    c.isAlpha = true ↔ (65 ≤ c.toNat ∧ c.toNat ≤ 90) ∨ (97 ≤ c.toNat ∧ c.toNat ≤ 122) := by
  have halpha : c.isAlpha = (decide (c.val ≥ 'A'.val ∧ c.val ≤ 'Z'.val) ||
      (decide (c.val ≥ 'a'.val) && decide (c.val ≤ 'z'.val))) := rfl
  simp only [halpha, ge_iff_le, UInt32.le_iff_toNat_le, Bool.or_eq_true, Bool.and_eq_true,
    decide_eq_true_eq, Char.reduceVal, UInt32.reduceToNat, Char.toNat_val]

theorem isAlpha_of_isDigit (h : c.isDigit = true) : c.isAlpha = false := by
  rw [Char.isDigit_iff_toNat] at h
  rw [Bool.eq_false_iff, Ne, isAlpha_iff]
  simp only [Char.toNat, Char.reduceVal, UInt32.reduceToNat] at h ⊢
  omega

theorem plainKind_number (h : Mode.start c = .number) : plainKind (c :: s) ≠ .identifier := by
  have hname : (c == '"' || isPlainName (c :: s)) = false := by
    rcases start_eq_number h with rfl | hd
    · rfl
    · have hquote : c ≠ '"' := by
        rintro rfl
        cases hd
      simp [hquote, isPlainName, isAlpha_of_isDigit hd]
  rw [plainKind, hname, if_neg Bool.false_ne_true]
  split_ifs <;> rcases numberKind_cases (c :: s) with h | h | h <;> simp [h]

/-- A name is no number, so a point does not go on with it. -/
theorem endMode_ne_number {r : List Char} {m : Mode} (h : endMode r = some m)
    (hk : kind r = .identifier) : m ≠ .number := by
  rintro rfl
  cases r with
  | nil => cases h
  | cons c r => exact plainKind_number (opening_endMode h).symm (plainKind_of_name hk)

end Kinds

def separates : List Char → Bool
  | [] => true
  | c :: _ => c == ' ' || c == ',' || c == ')' || c == ';'

theorem endsAt_of_separates {r s : List Char} {m : Mode} (h : endMode r = some m)
    (ho : isOpen r = false) (hw : kind r ≠ .whitespace) (hs : separates s = true) :
    m.endsAt s = true := by
  cases s with
  | nil => rfl
  | cons d s =>
    simp only [separates, Bool.or_eq_true, beq_iff_eq, or_assoc] at hs
    rcases endMode_cases h ho hw with rfl | rfl | rfl | ⟨q, hq, rfl⟩
    · rfl
    · rcases hs with rfl | rfl | rfl | rfl <;> rfl
    · rcases hs with rfl | rfl | rfl | rfl <;> rfl
    · have hd : d ≠ q := by
        rintro rfl
        rcases hs with rfl | rfl | rfl | rfl <;> cases hq
      simp [Mode.endsAt, Mode.step, hd]

/-- White space cuts off any run whose quotes are closed. -/
theorem endsAt_blank {r : List Char} {m : Mode} {c : Char} (h : endMode r = some m)
    (ho : isOpen r = false) (hw : kind r ≠ .whitespace) (hc : isBlank c = true) (s : List Char) :
    m.endsAt (c :: s) = true := by
  rcases endMode_cases h ho hw with rfl | rfl | rfl | ⟨q, hq, rfl⟩
  · rfl
  · simp [Mode.endsAt, Mode.step, hc]
  · have hnumber : (c.isAlphanum || c == '.' || c == '+' || c == '-') = false := by
      have hn := toNat_of_isBlank hc
      rw [Bool.eq_false_iff]
      intro h
      simp only [Bool.or_eq_true, Char.isAlphanum, isAlpha_iff, Char.isDigit_iff_toNat,
        Char.reduceToNat, beq_iff_eq] at h
      rcases h with (((h | h) | rfl) | rfl) | rfl
      · omega
      · omega
      all_goals cases hc
    simp [Mode.endsAt, Mode.step, hnumber]
  · have hne : c ≠ q := (ne_of_class hq (isQuote_eq_false rfl hc)).symm
    simp [Mode.endsAt, Mode.step, hne]

theorem endsAt_mark {r : List Char} {m : Mode} {c : Char} (h : endMode r = some m)
    (hk : kind r = .identifier) (hc : isPunctuation c = true) (s : List Char) :
    m.endsAt (c :: s) = true := by
  have ho : isOpen r = false := isOpen_of_kind (by simp [hk])
  rcases endMode_cases h ho (by simp [hk]) with rfl | rfl | rfl | ⟨q, hq, rfl⟩
  · rfl
  · simp [Mode.endsAt, Mode.step, hc]
  · exact absurd rfl (endMode_ne_number h hk)
  · have hne : c ≠ q := (ne_of_class hq (isQuote_eq_false rfl hc)).symm
    simp [Mode.endsAt, Mode.step, hne]

end Run

end CqlConsole
