import CqlConsole.Proofs.Token.Growth

/-!
# Runs that are words

A letter followed by letters, digits and underscores is one run. It is a truth
value, one of the two words that are floats, a keyword or a name, and only its
letters in lower case decide which.
-/

set_option autoImplicit false

namespace CqlConsole.Run

open CqlConsole.Text

def isNameChar (c : Char) : Bool :=
  c.isAlphanum || c == '_'

section NameChar

variable {c : Char} {s : List Char} {w : String}

theorem isPunctuation_of_isNameChar (h : isNameChar c = true) : isPunctuation c = false :=
  isPunctuation_eq_false rfl h

theorem isQuote_of_isNameChar (h : isNameChar c = true) : isQuote c = false :=
  isQuote_eq_false rfl h

theorem toNat_of_isNameChar (h : isNameChar c = true) : 48 ≤ c.toNat ∧ c.toNat ≤ 122 := by
  rw [isNameChar, Bool.or_eq_true, Char.isAlphanum, Bool.or_eq_true, isAlpha_iff,
    Char.isDigit_iff_toNat, beq_iff_eq] at h
  simp only [Char.toNat, Char.reduceVal, UInt32.reduceToNat] at h ⊢
  rcases h with ((h | h) | h) | rfl
  · omega
  · omega
  · omega
  · decide

theorem isBlank_of_isNameChar (h : isNameChar c = true) : isBlank c = false := by
  rw [Bool.eq_false_iff]
  intro hb
  have hname := toNat_of_isNameChar h
  have hblank := toNat_of_isBlank hb
  omega

theorem isNameChar_of_isAlpha (h : c.isAlpha = true) : isNameChar c = true := by
  simp [isNameChar, Char.isAlphanum, h]

theorem start_of_isAlpha (h : c.isAlpha = true) : Mode.start c = .word := by
  have hname := isNameChar_of_isAlpha h
  have hminus : c ≠ '-' := by
    rintro rfl
    cases h
  have hdigit : c.isDigit = false := by
    rw [Bool.eq_false_iff]
    intro hd
    rw [isAlpha_of_isDigit hd] at h
    cases h
  simp [Mode.start, isPunctuation_of_isNameChar hname, isQuote_of_isNameChar hname, hminus,
    isBlank_of_isNameChar hname, hdigit]

theorem steps_word (h : s.all isNameChar = true) : Mode.word.steps s = some .word := by
  induction s with
  | nil => rfl
  | cons c s ih =>
    obtain ⟨hc, hs⟩ := Bool.and_eq_true_iff.1 (List.all_cons ▸ h)
    simp [Mode.steps, Mode.step, isPunctuation_of_isNameChar hc, isBlank_of_isNameChar hc,
      isQuote_of_isNameChar hc, ih hs]

theorem endMode_of_isPlainName (h : isPlainName s = true) : endMode s = some .word := by
  cases s with
  | nil => cases h
  | cons c s =>
    obtain ⟨hc, hs⟩ := Bool.and_eq_true_iff.1 h
    rw [endMode, start_of_isAlpha hc, steps_word hs]

theorem isNameChar_of_mem (h : isPlainName s = true) (hc : c ∈ s) : isNameChar c = true := by
  cases s with
  | nil => cases h
  | cons d s =>
    obtain ⟨hd, hs⟩ := Bool.and_eq_true_iff.1 h
    rcases List.mem_cons.1 hc with rfl | hc
    · exact isNameChar_of_isAlpha hd
    · exact List.all_eq_true.1 hs c hc

/-- The start of a name that needs no quotes is one as well. -/
theorem isPlainName_of_append {t : List Char} (h : isPlainName (s ++ t) = true) (hs : s ≠ []) :
    isPlainName s = true := by
  cases s with
  | nil => exact absurd rfl hs
  | cons c s =>
    rw [List.cons_append, isPlainName, List.all_append, Bool.and_eq_true, Bool.and_eq_true] at h
    rw [isPlainName, h.1, h.2.1, Bool.true_and]

theorem isPlainName_of_identifier (h : kind s = .identifier) (hq : s.head? ≠ some '"') :
    isPlainName s = true := by
  have hplain := plainKind_of_name h
  cases s with
  | nil => cases hplain
  | cons c s =>
    have hc : (c == '"') = false := by simpa using hq
    rw [plainKind, hc, Bool.false_or] at hplain
    split_ifs at hplain with _ _ hname
    · exact hname
    · rcases numberKind_cases (c :: s) with hn | hn | hn <;> simp [hn] at hplain

/-- The groups of a universally unique identifier are joined by a sign that is in no word. -/
theorem isUuid_of_isPlainName (h : isPlainName s = true) : isUuid s = false := by
  rw [isUuid, isHexGroups]
  split
  · rename_i rest hdrop
    have hminus : '-' ∈ s := List.mem_of_mem_drop (hdrop ▸ List.mem_cons_self)
    have hname := isNameChar_of_mem h hminus
    cases hname
  · exact Bool.and_false _
  · simp

theorem kind_of_isPlainName (h : isPlainName s = true) :
    kind s = if isWordOf ["true", "false"] s then .boolean
      else if isWordOf ["nan", "infinity"] s then .float
      else if isWordOf keywords s then .keyword
      else .identifier := by
  have hopen : isOpen s = false := by
    have hmode := endMode_of_isPlainName h
    cases s with
    | nil => cases h
    | cons c s =>
      rw [endMode] at hmode
      rw [isOpen, hmode]
      rfl
  have hblob : isBlob s = false := by
    unfold isBlob
    split
    · cases h
    · rfl
  have hpunctuation : punctuationKind s = none := by
    unfold punctuationKind
    split
    case h_9 => rfl
    all_goals cases h
  have hplain : plainKind s = if isWordOf keywords s then .keyword else .identifier := by
    cases s with
    | nil => cases h
    | cons c s =>
      have hblank := isBlank_of_isNameChar (isNameChar_of_mem h List.mem_cons_self)
      simp [plainKind, hblank, h]
  simp [kind, hopen, isUuid_of_isPlainName h, hblob, hpunctuation, hplain]

end NameChar

section Lower

variable {c : Char} {s : List Char} {w : String}

theorem toLower_cases (c : Char) : c.toLower = c ∨ c.isAlpha = true ∧ c.toLower.isAlpha = true := by
  by_cases h : c.val ≥ 'A'.val ∧ c.val ≤ 'Z'.val
  · have hval : c.toLower.val = c.val + 32 := congrArg Char.val (dif_pos h)
    simp only [ge_iff_le, Char.reduceVal, UInt32.le_iff_toNat_le, UInt32.reduceToNat,
      Char.toNat_val] at h
    have hnat : c.toLower.toNat = c.toNat + 32 := by
      rw [← Char.toNat_val, hval, UInt32.toNat_add]
      exact Nat.mod_eq_of_lt (show c.toNat + 32 < 2 ^ 32 by omega)
    rw [isAlpha_iff, isAlpha_iff]
    omega
  · exact Or.inl (dif_neg h)

theorem isAlpha_of_toLower (h : c.toLower.isAlpha = true) : c.isAlpha = true := by
  rcases toLower_cases c with heq | ⟨halpha, -⟩
  · rwa [heq] at h
  · exact halpha

theorem eq_of_lower_sign {d : Char} (h : lower s = [d]) (hd : d.isAlpha = false) : s = [d] := by
  rw [lower, List.map_eq_singleton_iff] at h
  obtain ⟨c, rfl, hc⟩ := h
  rcases toLower_cases c with heq | ⟨-, halpha⟩
  · rw [← heq, hc]
  · rw [hc, hd] at halpha
    cases halpha

theorem isPlainName_of_lower (h : lower s = w.toList) (hw : w.toList.all Char.isAlpha = true)
    (hne : w ≠ "") : isPlainName s = true := by
  have hall : ∀ c ∈ s, c.isAlpha = true := by
    intro c hc
    have hmem : c.toLower ∈ w.toList := h ▸ List.mem_map_of_mem hc
    exact isAlpha_of_toLower (List.all_eq_true.1 hw _ hmem)
  cases s with
  | nil =>
    have hnil : w = "" := by simpa [lower] using h.symm
    exact absurd hnil hne
  | cons c s =>
    rw [isPlainName, hall c List.mem_cons_self, Bool.true_and, List.all_eq_true]
    exact fun d hd => isNameChar_of_isAlpha (hall d (List.mem_cons_of_mem c hd))

/-- A word is the same token in capitals and in lower case. -/
theorem kind_of_lower (h : lower s = w.toList) (hw : w.toList.all Char.isAlpha = true)
    (hne : w ≠ "") (hlow : lower w.toList = w.toList) : kind s = kind w.toList := by
  have hwords : ∀ words, isWordOf words s = isWordOf words w.toList := by
    intro words
    rw [isWordOf, isWordOf, h, hlow]
  rw [kind_of_isPlainName (isPlainName_of_lower h hw hne),
    kind_of_isPlainName (isPlainName_of_lower hlow hw hne)]
  simp only [hwords]

end Lower

end CqlConsole.Run
