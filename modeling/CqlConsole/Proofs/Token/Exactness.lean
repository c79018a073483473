import CqlConsole.Proofs.Token.Forms
import CqlConsole.Proofs.Token.Tiling

/-!
# Tokens and their forms

A text is one token of a kind exactly if it has the form of the kind. The tests
for the kinds overlap and are made in a fixed order, so a form has to fail each
test in front of its own: numbers and identifiers of hexadecimal digits differ in
their minus signs, blobs and numbers in their second character, and words in the
list that holds them. What is no form at all is an error.
-/

set_option autoImplicit false

namespace CqlConsole

namespace Form

open CqlConsole.Text Computability

def AtMost (p : Char → Bool) (n : Nat) (l : Language Char) : Prop :=
  ∀ s ∈ l, s.countP p ≤ n

section AtMost

variable {p q : Char → Bool} {n k : Nat} {l m : Language Char} {c : Char}

theorem atMost_mul (hl : AtMost p n l) (hm : AtMost p k m) : AtMost p (n + k) (l * m) := by
  intro s hs
  obtain ⟨a, ha, b, hb, rfl⟩ := Language.mem_mul.1 hs
  rw [List.countP_append]
  exact Nat.add_le_add (hl a ha) (hm b hb)

theorem atMost_add (hl : AtMost p n l) (hm : AtMost p n m) : AtMost p n (l + m) := by
  rintro s (hs | hs)
  · exact hl s hs
  · exact hm s hs

theorem atMost_maybe (hl : AtMost p n l) : AtMost p n (maybe l) := by
  rintro s (hs | hs)
  · cases hs
    exact Nat.zero_le n
  · exact hl s hs

theorem atMost_mark (h : p c = true → 0 < n) : AtMost p n (mark c) := by
  rintro s rfl
  rw [List.countP_singleton]
  split
  · rename_i hc
    exact h hc
  · exact Nat.zero_le n

theorem atMost_star (h : ∀ c, q c = true → p c = false) : AtMost p 0 (one q)∗ := by
  intro s hs
  rw [Nat.le_zero, List.countP_eq_zero]
  intro c hc
  rw [h c (mem_one_star.1 hs c hc)]
  exact Bool.false_ne_true

theorem atMost_many (h : ∀ c, q c = true → p c = false) : AtMost p 0 (many (one q)) := by
  intro s hs
  obtain ⟨hne, hall⟩ := mem_many_one.1 hs
  exact atMost_star h s (mem_one_star.2 hall)

end AtMost

section Numerals

variable {p : Char → Bool} {n : Nat}

/-- The characters of numbers, the minus sign counted once for each place it may take. -/
theorem atMost_integer (hdigit : ∀ c, c.isDigit = true → p c = false)
    (hminus : p '-' = true → 0 < n) : AtMost p n integer :=
  atMost_mul (atMost_maybe (atMost_mark hminus)) (atMost_many hdigit)

theorem atMost_exponent (hdigit : ∀ c, c.isDigit = true → p c = false)
    (hmarks : ['e', 'E', '+'].any p = false) (hminus : p '-' = true → 0 < n) :
    AtMost p n exponent := by
  simp only [List.any_cons, Bool.or_eq_false_iff] at hmarks
  obtain ⟨he, hE, hplus, -⟩ := hmarks
  have hletter : AtMost p 0 (mark 'e' + mark 'E') :=
    atMost_add (atMost_mark (by simp [he])) (atMost_mark (by simp [hE]))
  have hsign : AtMost p n (maybe (mark '+' + mark '-')) :=
    atMost_maybe (atMost_add (atMost_mark (by simp [hplus])) (atMost_mark hminus))
  have hall := atMost_mul hletter (atMost_mul hsign (atMost_many hdigit))
  rwa [Nat.add_zero, Nat.zero_add] at hall

theorem atMost_decimal (hdigit : ∀ c, c.isDigit = true → p c = false)
    (hmarks : ['.', 'e', 'E', '+'].any p = false) (hminus : p '-' = true → 0 < n) :
    AtMost p (n + n) decimal := by
  rw [List.any_cons, Bool.or_eq_false_iff] at hmarks
  obtain ⟨hpoint, hmarks⟩ := hmarks
  have hexponent := atMost_exponent hdigit hmarks hminus
  have hfraction : AtMost p 0 fraction :=
    atMost_mul (atMost_mark (by simp [hpoint])) (atMost_star hdigit)
  have hboth := atMost_mul hfraction (atMost_maybe hexponent)
  rw [Nat.zero_add] at hboth
  exact atMost_mul (atMost_integer hdigit hminus) (atMost_add hboth hexponent)

end Numerals

end Form

namespace Run

open CqlConsole.Text CqlConsole.Form

section Signs

variable {c : Char} {s : List Char}

theorem toLower_of_not_isAlpha (h : c.isAlpha = false) : c.toLower = c := by
  rcases toLower_cases c with heq | ⟨halpha, -⟩
  · exact heq
  · rw [h] at halpha
    cases halpha

/-- No word of the language begins with a sign or a digit. -/
theorem isWordOf_of_not_isAlpha {words : List String} (h : c.isAlpha = false)
    (hw : ∀ w ∈ words, (w.toList.head?.any Char.isAlpha) = true) :
    isWordOf words (c :: s) = false := by
  rw [isWordOf, List.any_eq_false]
  intro w hmem heq
  have hhead := hw w hmem
  rw [beq_iff_eq.1 heq, lower, List.map_cons, List.head?_cons, Option.any_some,
    toLower_of_not_isAlpha h, h] at hhead
  cases hhead

/-- What a run is that begins with no letter, by the tests that are left. -/
theorem kind_of_not_isAlpha (hc : c.isAlpha = false) (hp : isPunctuation c = false)
    (ho : isOpen (c :: s) = false) :
    kind (c :: s) = if isUuid (c :: s) then .uuid
      else if isBlob (c :: s) then .blob
      else if isBlank c then .whitespace
      else if c == '"' then .identifier
      else if c.isDigit || c == '-' then numberKind (c :: s)
      else if c == '\'' then .string
      else .error := by
  have hboolean : isWordOf ["true", "false"] (c :: s) = false :=
    isWordOf_of_not_isAlpha hc (by decide)
  have hfloat : isWordOf ["nan", "infinity"] (c :: s) = false :=
    isWordOf_of_not_isAlpha hc (by decide)
  have hkeyword : isWordOf keywords (c :: s) = false :=
    isWordOf_of_not_isAlpha hc (by decide +kernel)
  simp [kind, ho, hboolean, hfloat, hkeyword, punctuationKind_of_not_isPunctuation hp, plainKind,
    isPlainName, hc]

end Signs

section Proper

variable {c q : Char} {s : List Char}

def IsToken (k : TokenKind) (s : List Char) : Prop :=
  (endMode s).isSome = true ∧ kind s = k

theorem isHexDigit_iff (c : Char) : isHexDigit c = true ↔
    (48 ≤ c.toNat ∧ c.toNat ≤ 57) ∨ (97 ≤ c.toNat ∧ c.toNat ≤ 102) ∨
      (65 ≤ c.toNat ∧ c.toNat ≤ 70) := by
  simp only [isHexDigit, Bool.or_eq_true, Bool.and_eq_true, decide_eq_true_eq,
    Char.isDigit_iff_toNat, Char.le_def, UInt32.le_iff_toNat_le, Char.reduceVal,
    UInt32.reduceToNat, Char.reduceToNat, Char.toNat_val, or_assoc]

theorem isNumberChar_of_isHexDigit (h : isHexDigit c = true) : isNumberChar c = true := by
  have halnum : c.isAlphanum = true := by
    rw [isHexDigit_iff] at h
    rw [Char.isAlphanum, Bool.or_eq_true, isAlpha_iff, Char.isDigit_iff_toNat]
    simp only [Char.reduceToNat]
    omega
  simp [isNumberChar, halnum]

theorem countP_minus_of_hexDigits (h : s.all isHexDigit = true) : s.countP (· == '-') = 0 := by
  rw [List.countP_eq_zero]
  intro d hd
  rw [beq_of_class rfl (List.all_eq_true.1 h d hd)]
  exact Bool.false_ne_true

/-- There is one minus sign between two groups, and none inside of them. -/
theorem signs_of_isHexGroups {ns : List Nat} (h : isHexGroups ns s = true) :
    s.countP (· == '-') = ns.length - 1 ∧ ∀ d ∈ s, isHexDigit d = true ∨ d = '-' := by
  induction ns using groups.induct generalizing s with
  | case1 =>
    rw [List.isEmpty_iff.1 h]
    simp
  | case2 n =>
    have hall := (Bool.and_eq_true_iff.1 h).2
    exact ⟨countP_minus_of_hexDigits hall, fun d hd => Or.inl (List.all_eq_true.1 hall d hd)⟩
  | case3 n ns hns ih =>
    rw [isHexGroups.eq_3 _ _ _ hns, Bool.and_eq_true, Bool.and_eq_true] at h
    obtain ⟨⟨-, hhead⟩, hrest⟩ := h
    split at hrest
    · rename_i rest hdrop
      obtain ⟨hcount, hchars⟩ := ih hrest
      have hlen : 0 < ns.length := List.length_pos_of_ne_nil hns
      rw [← List.take_append_drop n s, hdrop]
      constructor
      · rw [List.countP_append, countP_minus_of_hexDigits hhead, List.countP_cons_of_pos (by rfl),
          hcount, List.length_cons]
        omega
      · rw [List.forall_mem_append, List.forall_mem_cons]
        exact ⟨fun d hd => Or.inl (List.all_eq_true.1 hhead d hd), Or.inr rfl, hchars⟩
    · cases hrest

theorem isUuid_of_numeral (h : numberKind s ≠ .error) : isUuid s = false := by
  rw [Bool.eq_false_iff]
  intro huuid
  have hcount := (signs_of_isHexGroups huuid).1
  simp only [List.length_cons, List.length_nil] at hcount
  -- There are four minus signs between the groups, and no more than two in a number.
  have hdigit : ∀ c : Char, c.isDigit = true → (c == '-') = false := fun _ => beq_of_class rfl
  rcases numberKind_cases s with hkind | hkind | hkind
  · exact h hkind
  · have hmost := atMost_integer (n := 1) hdigit (fun _ => Nat.one_pos) s (mem_integer.2 hkind)
    omega
  · have hmost := atMost_decimal (n := 1) hdigit (by decide) (fun _ => Nat.one_pos) s
      (mem_decimal.2 hkind)
    omega

theorem isBlob_of_numeral (h : numberKind s ≠ .error) : isBlob s = false := by
  unfold isBlob
  split
  · rename_i x t
    rw [Bool.and_eq_false_iff]
    left
    rw [Bool.eq_false_iff]
    intro hx
    apply h
    rcases Bool.or_eq_true_iff.1 hx with hx | hx <;> rw [beq_iff_eq.1 hx] <;> rfl
  · rfl

theorem isNumberChar_of_numeral (h : numberKind s ≠ .error) (hc : c ∈ s) :
    isNumberChar c = true := by
  have hdigit : ∀ d : Char, d.isDigit = true → (!isNumberChar d) = false := by
    intro d hd
    simp [isNumberChar, Char.isAlphanum, hd]
  have hcount : s.countP (fun d => !isNumberChar d) = 0 := by
    rw [← Nat.le_zero]
    rcases numberKind_cases s with hkind | hkind | hkind
    · exact absurd hkind h
    · exact atMost_integer hdigit (by decide) s (mem_integer.2 hkind)
    · exact atMost_decimal (n := 0) hdigit (by decide) (by decide) s (mem_decimal.2 hkind)
  simpa using List.countP_eq_zero.1 hcount c hc

theorem start_of_numeral (h : numberKind (c :: s) ≠ .error) : Mode.start c = .number := by
  by_cases hminus : c = '-'
  · rw [hminus]
    rfl
  · refine start_of_isDigit ?_
    by_contra hdigit
    apply h
    rw [numberKind, dropMinus.eq_2]
    · simp [hdigit]
    · intro t heq
      exact hminus (List.cons.inj heq).1

theorem isOpen_eq (s : List Char) : isOpen s = (endMode s).any Mode.isOpen := by
  cases s <;> rfl

theorem isOpen_of_number (h : endMode s = some .number) : isOpen s = false := by
  rw [isOpen_eq, h]
  rfl

theorem isAlpha_of_start_number (h : Mode.start c = .number) :
    c.isAlpha = false ∧ isPunctuation c = false ∧ isBlank c = false ∧ c ≠ '"' ∧
      (c.isDigit || c == '-') = true := by
  rcases start_eq_number h with rfl | hdigit
  · decide
  · have hname : isNameChar c = true := by simp [isNameChar, Char.isAlphanum, hdigit]
    refine ⟨isAlpha_of_isDigit hdigit, isPunctuation_of_isNameChar hname,
      isBlank_of_isNameChar hname, ?_, by rw [hdigit, Bool.true_or]⟩
    rintro rfl
    cases hdigit

theorem endMode_number (h : Mode.start c = .number) (hs : ∀ d ∈ s, isNumberChar d = true) :
    endMode (c :: s) = some .number := by
  rw [endMode, h, steps_number, if_pos (List.all_eq_true.2 hs)]

theorem isToken_numeral (h : numberKind s ≠ .error) : IsToken (numberKind s) s := by
  cases s with
  | nil => exact absurd rfl h
  | cons c s =>
    have hstart := start_of_numeral h
    have hmode := endMode_number hstart fun d hd =>
      isNumberChar_of_numeral h (List.mem_cons_of_mem c hd)
    obtain ⟨halpha, hpunctuation, hblank, hquote, hdigit⟩ := isAlpha_of_start_number hstart
    refine ⟨Option.isSome_of_eq_some hmode, ?_⟩
    rw [kind_of_not_isAlpha halpha hpunctuation (isOpen_of_number hmode), isUuid_of_numeral h,
      isBlob_of_numeral h, hblank, hdigit]
    simp [hquote]

theorem isToken_blob (h : isBlob s = true) : IsToken .blob s := by
  have hblob := h
  unfold isBlob at h
  split at h
  · rename_i x t
    obtain ⟨hx, ht⟩ := Bool.and_eq_true_iff.1 h
    have hchars : ∀ d ∈ x :: t, isNumberChar d = true ∧ (d == '-') = false := by
      rw [List.forall_mem_cons]
      constructor
      · rcases Bool.or_eq_true_iff.1 hx with hx | hx <;> rw [beq_iff_eq.1 hx] <;> decide
      · intro d hd
        have hdigit := List.all_eq_true.1 ht d hd
        exact ⟨isNumberChar_of_isHexDigit hdigit, beq_of_class rfl hdigit⟩
    have hmode := endMode_number (c := '0') rfl fun d hd => (hchars d hd).1
    have huuid : isUuid ('0' :: x :: t) = false := by
      rw [Bool.eq_false_iff]
      intro huuid
      have hcount := (signs_of_isHexGroups huuid).1
      have hnone : (x :: t).countP (· == '-') = 0 := by
        rw [List.countP_eq_zero]
        intro d hd
        simp [(hchars d hd).2]
      rw [List.countP_cons_of_neg (by decide), hnone] at hcount
      cases hcount
    refine ⟨Option.isSome_of_eq_some hmode, ?_⟩
    rw [kind_of_not_isAlpha (by rfl) (by rfl) (isOpen_of_number hmode), huuid, hblob]
    rfl
  · cases h

theorem isAlpha_or_isDigit_of_isHexDigit (h : isHexDigit c = true) :
    c.isAlpha = true ∨ c.isDigit = true := by
  rw [isHexDigit_iff] at h
  rw [isAlpha_iff, Char.isDigit_iff_toNat]
  simp only [Char.reduceToNat]
  omega

theorem isWordChar_of_isHexDigit (h : isHexDigit c = true) : isWordChar c = true := by
  have hname : isNameChar c = true := by
    rcases isAlpha_or_isDigit_of_isHexDigit h with hc | hc <;>
      simp [isNameChar, Char.isAlphanum, hc]
  simp [isWordChar, isPunctuation_of_isNameChar hname, isBlank_of_isNameChar hname,
    isQuote_of_isNameChar hname]

theorem isHexDigit_of_isUuid (h : isUuid (c :: s) = true) : isHexDigit c = true := by
  rw [isUuid, isHexGroups.eq_3 _ _ _ (List.cons_ne_nil _ _)] at h
  simp only [List.take_succ_cons, List.all_cons, Bool.and_eq_true] at h
  exact h.1.2.1

theorem isToken_uuid (h : isUuid s = true) : IsToken .uuid s := by
  have hchars := (signs_of_isHexGroups h).2
  cases s with
  | nil => cases h
  | cons c s =>
    have hnumber : ∀ d ∈ s, isNumberChar d = true := by
      intro d hd
      rcases hchars d (List.mem_cons_of_mem c hd) with hd | rfl
      · exact isNumberChar_of_isHexDigit hd
      · rfl
    have hword : ∀ d ∈ s, isWordChar d = true := by
      intro d hd
      rcases hchars d (List.mem_cons_of_mem c hd) with hd | rfl
      · exact isWordChar_of_isHexDigit hd
      · rfl
    obtain ⟨m, hm, hopen⟩ : ∃ m, endMode (c :: s) = some m ∧ m.isOpen = false := by
      rcases isAlpha_or_isDigit_of_isHexDigit (isHexDigit_of_isUuid h) with hc | hc
      · refine ⟨.word, ?_, rfl⟩
        rw [endMode, start_of_isAlpha hc, steps_wordChars, if_pos (List.all_eq_true.2 hword)]
      · exact ⟨.number, endMode_number (start_of_isDigit hc) hnumber, rfl⟩
    refine ⟨Option.isSome_of_eq_some hm, ?_⟩
    rw [kind, isOpen_eq, hm, Option.any_some, hopen, if_neg Bool.false_ne_true, if_pos h]

theorem start_of_isQuote (h : isQuote c = true) : Mode.start c = .quoted c false := by
  simp only [isQuote, Bool.or_eq_true, beq_iff_eq] at h
  rcases h with rfl | rfl <;> rfl

theorem isToken_enclosed (hq : isQuote q = true) (h : s ∈ enclosed q) :
    IsToken (if q = '"' then .identifier else .string) s := by
  obtain ⟨t, rfl, ht⟩ := mem_enclosed.1 h
  have hmode : endMode (q :: t) = some (.quoted q true) := by
    rw [endMode, start_of_isQuote hq, ht]
  simp only [isQuote, Bool.or_eq_true, beq_iff_eq] at hq
  have hopen : isOpen (q :: t) = false := by
    rw [isOpen_eq, hmode]
    rfl
  have huuid : isUuid (q :: t) = false := by
    rw [Bool.eq_false_iff]
    intro h
    have hhex := isHexDigit_of_isUuid h
    rcases hq with rfl | rfl <;> cases hhex
  refine ⟨Option.isSome_of_eq_some hmode, ?_⟩
  rcases hq with rfl | rfl
  · rw [kind_of_not_isAlpha (by rfl) (by rfl) hopen, huuid]
    rfl
  · rw [kind_of_not_isAlpha (by rfl) (by rfl) hopen, huuid]
    rfl

theorem isToken_blanks (h : s ∈ blanks) : IsToken .whitespace s := by
  obtain ⟨hne, hall⟩ := mem_many_one.1 h
  obtain ⟨c, s, rfl⟩ := List.exists_cons_of_ne_nil hne
  obtain ⟨hc, hs⟩ := List.forall_mem_cons.1 hall
  refine ⟨?_, kind_of_isBlank hc⟩
  rw [endMode, start_of_isBlank hc, Mode.steps_blanks, if_pos (List.all_eq_true.2 hs)]
  rfl

theorem isWordOf_of_lower {words : List String} {w : String} (h : lower s = w.toList) :
    isWordOf words s = decide (w ∈ words) := by
  rw [Bool.eq_iff_iff, isWordOf, List.any_eq_true, decide_eq_true_eq, h]
  constructor
  · rintro ⟨v, hv, heq⟩
    rwa [← String.toList_inj.1 (beq_iff_eq.1 heq)]
  · intro hw
    exact ⟨w, hw, beq_self_eq_true _⟩

def wordKind (w : String) : TokenKind :=
  if w ∈ ["true", "false"] then .boolean
  else if w ∈ ["nan", "infinity"] then .float
  else if w ∈ keywords then .keyword
  else .identifier

theorem isToken_cased {words : List String} {k : TokenKind} (h : s ∈ cased words)
    (hw : ∀ w ∈ words, w.toList.all Char.isAlpha = true ∧ w ≠ "" ∧ wordKind w = k) :
    IsToken k s := by
  obtain ⟨w, hmem, hs⟩ := h
  obtain ⟨halpha, hne, rfl⟩ := hw w hmem
  have hplain := isPlainName_of_lower hs halpha hne
  refine ⟨Option.isSome_of_eq_some (endMode_of_isPlainName hplain), ?_⟩
  simp only [kind_of_isPlainName hplain, isWordOf_of_lower hs, decide_eq_true_eq, wordKind]

/-- A keyword is one of the words that are floats, or has the form of keywords. -/
theorem isWordOf_keywords (h : isWordOf keywords s = true) : s ∈ notFinite ∨ s ∈ keyword := by
  obtain ⟨w, hw, hs⟩ := mem_cased.2 h
  by_cases hfloat : w ∈ ["nan", "infinity"]
  · exact Or.inl ⟨w, hfloat, hs⟩
  · exact Or.inr ⟨w, List.mem_filter.2 ⟨hw, decide_eq_true hfloat⟩, hs⟩

theorem isToken_plainWord (h : s ∈ plainWord) (hs : s ∉ truth + notFinite + keyword) :
    IsToken .identifier s := by
  have hplain := mem_plainWord.1 h
  simp only [Language.mem_add, not_or, truth, notFinite, mem_cased] at hs
  obtain ⟨⟨htruth, hfloat⟩, hkeyword⟩ := hs
  have hnone : ¬isWordOf keywords s = true := by
    intro hwords
    rcases isWordOf_keywords hwords with hs | hs
    · exact hfloat (mem_cased.1 hs)
    · exact hkeyword hs
  refine ⟨Option.isSome_of_eq_some (endMode_of_isPlainName hplain), ?_⟩
  rw [kind_of_isPlainName hplain, if_neg htruth, if_neg hfloat, if_neg hnone]

theorem isToken_of_properForm {k : TokenKind} (h : s ∈ k.properForm) : IsToken k s := by
  cases k with
  | endOfInput => exact absurd h (Language.notMem_zero s)
  | error => exact absurd h (Language.notMem_zero s)
  | whitespace => exact isToken_blanks h
  | uuid => exact isToken_uuid (mem_uuid.1 h)
  | blob => exact isToken_blob (mem_blob.1 h)
  | string => exact isToken_enclosed (q := '\'') rfl h
  | integer =>
    have hkind := mem_integer.1 h
    have htoken := isToken_numeral (s := s) (by simp [hkind])
    rwa [hkind] at htoken
  | float =>
    rcases h with h | h
    · have hkind := mem_decimal.1 h
      have htoken := isToken_numeral (s := s) (by simp [hkind])
      rwa [hkind] at htoken
    · exact isToken_cased h (by decide)
  | boolean => exact isToken_cased h (by decide)
  | keyword => exact isToken_cased h (by decide +kernel)
  | identifier =>
    rcases h with h | h
    · exact isToken_enclosed (q := '"') rfl h
    · exact isToken_plainWord h.1 h.2
  | bracket => rcases h with rfl | rfl <;> exact ⟨rfl, rfl⟩
  | star | comma | semicolon | dot | questionMark | colon =>
    cases h
    exact ⟨rfl, rfl⟩

theorem properForm_of_punctuationKind {k : TokenKind} (h : punctuationKind s = some k) :
    s ∈ k.properForm := by
  unfold punctuationKind at h
  split at h
  case h_2 =>
    cases h
    exact Or.inl rfl
  case h_3 =>
    cases h
    exact Or.inr rfl
  case h_9 => cases h
  all_goals
    cases h
    rfl

theorem enclosed_of_endMode (hq : isQuote q = true) (hrun : (endMode (q :: s)).isSome = true)
    (hopen : isOpen (q :: s) = false) : q :: s ∈ enclosed q := by
  have hstart := start_of_isQuote hq
  rw [endMode, hstart] at hrun
  obtain ⟨e, he⟩ := exists_steps_quoted hrun
  cases e with
  | true => exact mem_enclosed.2 ⟨s, rfl, he⟩
  | false =>
    rw [isOpen, hstart, he] at hopen
    cases hopen

theorem blanks_of_endMode (hc : isBlank c = true) (hrun : (endMode (c :: s)).isSome = true) :
    c :: s ∈ blanks := by
  rw [endMode, start_of_isBlank hc, Mode.steps_blanks, Option.isSome_ite, List.all_eq_true] at hrun
  exact mem_many_one.2 ⟨List.cons_ne_nil c s, List.forall_mem_cons.2 ⟨hc, hrun⟩⟩

theorem properForm_plainKind (hrun : (endMode s).isSome = true) (hopen : isOpen s = false)
    (htruth : s ∉ truth) (hfloat : s ∉ notFinite) (hk : plainKind s ≠ .error) :
    s ∈ (plainKind s).properForm := by
  cases s with
  | nil => cases hrun
  | cons c s =>
    rw [plainKind] at hk ⊢
    split_ifs at hk ⊢ with hblank hkeyword hname hnumber hquote
    · exact blanks_of_endMode hblank hrun
    · exact (isWordOf_keywords hkeyword).resolve_left hfloat
    · rcases Bool.or_eq_true_iff.1 hname with hname | hname
      · rw [beq_iff_eq] at hname
        subst hname
        exact Or.inl (enclosed_of_endMode rfl hrun hopen)
      · refine Or.inr ⟨mem_plainWord.2 hname, ?_⟩
        rintro ((h | h) | h)
        · exact htruth h
        · exact hfloat h
        · obtain ⟨w, hw, hs⟩ := h
          exact hkeyword (mem_cased.1 ⟨w, (List.mem_filter.1 hw).1, hs⟩)
    · rcases numberKind_cases (c :: s) with h | h | h
      · exact absurd h hk
      · rw [h]
        exact mem_integer.2 h
      · rw [h]
        exact Or.inl (mem_decimal.2 h)
    · rw [beq_iff_eq] at hquote
      subst hquote
      exact enclosed_of_endMode rfl hrun hopen
    · exact absurd rfl hk

theorem properForm_kind (hrun : (endMode s).isSome = true) (hk : kind s ≠ .error) :
    s ∈ (kind s).properForm := by
  unfold kind at hk ⊢
  split_ifs at hk ⊢ with hopen huuid htruth hfloat hblob
  · exact absurd rfl hk
  · exact mem_uuid.2 huuid
  · exact mem_cased.2 htruth
  · exact Or.inr (mem_cased.2 hfloat)
  · exact mem_blob.2 hblob
  · cases hp : punctuationKind s with
    | some k => exact properForm_of_punctuationKind hp
    | none =>
      rw [hp, Option.getD_none] at hk
      exact properForm_plainKind hrun (Bool.eq_false_iff.2 hopen)
        (fun h => htruth (mem_cased.1 h)) (fun h => hfloat (mem_cased.1 h)) hk

theorem mem_form {k : TokenKind} : s ∈ k.form ↔ IsToken k s := by
  by_cases hk : k = .error
  · subst hk
    rw [TokenKind.form, Language.mem_sub, mem_run]
    refine and_congr_right fun hrun => ?_
    constructor
    · intro h
      by_contra hne
      exact h ⟨kind s, properForm_kind hrun hne⟩
    · rintro herror ⟨j, hj⟩
      rw [← (isToken_of_properForm hj).2, herror] at hj
      exact hj
  · have hform : k.form = k.properForm := by
      cases k <;> first | rfl | exact absurd rfl hk
    rw [hform]
    constructor
    · exact isToken_of_properForm
    · rintro ⟨hrun, rfl⟩
      exact properForm_kind hrun hk

/-- A run lacks its closing quote exactly if it is an error that begins with a quote. -/
theorem isOpen_iff (hrun : (endMode (c :: s)).isSome = true) :
    isOpen (c :: s) = true ↔ kind (c :: s) = .error ∧ isQuote c = true := by
  constructor
  · intro hopen
    refine ⟨by rw [kind, if_pos hopen], ?_⟩
    rw [isOpen_eq, Option.any_eq_true] at hopen
    obtain ⟨m, hm, hopen⟩ := hopen
    have hstart := opening_endMode hm
    cases m with
    | quoted q closing =>
      by_contra hquote
      unfold Mode.start at hstart
      split_ifs at hstart <;> cases hstart
    | _ => cases hopen
  · rintro ⟨hkind, hquote⟩
    by_contra hopen
    have henclosed := enclosed_of_endMode hquote hrun (Bool.eq_false_iff.2 hopen)
    have hproper := (isToken_enclosed hquote henclosed).2
    rw [hkind] at hproper
    split_ifs at hproper

end Proper

theorem tokenize_of_isToken {w : String} {k : TokenKind} (h : IsToken k w.toList) :
    tokenize w = [(Lexeme.mk 0 w.toList).token, .endOfInput w.utf8ByteSize] := by
  obtain ⟨m, hm⟩ := Option.isSome_iff_exists.1 h.1
  rw [tokenize, Lexeme.scan, split_single hm, utf8ByteSize_eq]
  rfl

/-- A text that is one token and no keyword is the text of this token. -/
theorem tokenize_as_typed {w : String} {k : TokenKind} (h : IsToken k w.toList)
    (hk : k ≠ .keyword) :
    tokenize w = [⟨k, w, 0, w.utf8ByteSize⟩, .endOfInput w.utf8ByteSize] := by
  have hkind : Lexeme.kind ⟨0, w.toList⟩ = k := h.2
  simp [tokenize_of_isToken h, Lexeme.token, Lexeme.text, hkind, hk, Lexeme.stop, utf8ByteSize_eq]

theorem isToken_of_tokenize {w : String} {t : Token} {n : Nat}
    (h : tokenize w = [t, .endOfInput n]) : IsToken t.kind w.toList := by
  have happend : (Lexeme.scan w.toList).map Lexeme.token ++ [.endOfInput (byteSize w.toList)] =
      [t] ++ [.endOfInput n] := h
  obtain ⟨hscan, -⟩ := List.append_inj' happend rfl
  obtain ⟨l, hl, rfl⟩ := List.map_eq_singleton_iff.1 hscan
  have hsplit : split w.toList = [l.source] := by
    rw [← split_scan, hl]
    rfl
  have hsource := split_flatten w.toList
  rw [hsplit, List.flatten_singleton] at hsource
  refine ⟨endMode_split w.toList _ ?_, ?_⟩
  · rw [hsplit, hsource]
    exact List.mem_singleton_self _
  · rw [← hsource]
    rfl

theorem isToken_of_mem_scan {s : List Char} {l : Lexeme} (h : l ∈ Lexeme.scan s) :
    IsToken l.kind l.source :=
  ⟨endMode_scan s l h, rfl⟩

end Run

open CqlConsole.Text CqlConsole.Run

/-- A text is one token of a kind, and nothing else, exactly if it has the form of the kind. And
each token of an input is the token that its piece of the input is by itself. -/
theorem tokenize_forms :
    (∀ (w : String) (k : TokenKind),
      (∃ text, tokenize w = [⟨k, text, 0, w.utf8ByteSize⟩, .endOfInput w.utf8ByteSize]) ↔
        w.toList ∈ k.form) ∧
    ∀ (input : String), ∀ t ∈ tokenize input, t.kind ≠ .endOfInput →
      tokenize (String.ofList (t.source input)) =
        [⟨t.kind, t.text, 0, byteSize (t.source input)⟩,
          .endOfInput (byteSize (t.source input))] := by
  constructor
  · intro w k
    rw [mem_form]
    constructor
    · rintro ⟨text, h⟩
      exact isToken_of_tokenize h
    · intro h
      refine ⟨String.ofList (Lexeme.mk 0 w.toList).text, ?_⟩
      rw [tokenize_of_isToken h, ← h.2, Lexeme.token, Lexeme.stop, utf8ByteSize_eq, Nat.zero_add]
      rfl
  · intro input t ht hk
    obtain ⟨l, hl, rfl⟩ : ∃ l ∈ Lexeme.scan input.toList, l.token = t := by
      rw [tokenize, List.mem_append, List.mem_map, List.mem_singleton] at ht
      rcases ht with ht | rfl
      · exact ht
      · exact absurd rfl hk
    have htoken := tokenize_of_isToken (w := String.ofList l.source) (k := l.kind)
      (by rw [String.toList_ofList]; exact isToken_of_mem_scan hl)
    rw [source_token hl, htoken, String.toList_ofList, utf8ByteSize_ofList]
    simp only [Lexeme.token, Lexeme.stop, Nat.zero_add]
    rfl

/-- A number with a sign in front and one in its exponent, and a quoted text behind it. -/
theorem tokenize_forms_number :
    "-1.5e+3".toList ∈ TokenKind.float.form ∧
      tokenize "-1.5e+3" = [⟨.float, "-1.5e+3", 0, 7⟩, .endOfInput 7] := by
  constructor
  · exact (tokenize_forms.1 "-1.5e+3" .float).1 ⟨"-1.5e+3", by decide +kernel⟩
  · exact tokenize_forms.2 "-1.5e+3'it''s'" ⟨.float, "-1.5e+3", 0, 7⟩ (by decide +kernel)
      (by decide)

end CqlConsole
