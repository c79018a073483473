import CqlConsole.Proofs.Number.Reading
import CqlConsole.Proofs.Token.RunEnd
import CqlConsole.Toml.Strings
import CqlConsole.Toml.Writer
import Mathlib.Algebra.Group.Nat.Defs

/-!
# Strings read back

A string is written in one of five forms, and each is read back as the string
it was written from. Both readers of escapes have the same equations for a
character, so an escaped character is followed once for both.
-/

set_option autoImplicit false

namespace CqlConsole.Toml

open CqlConsole.Text

section Escapes

/-- What the readers of one line and of several lines do with a character between double quotes:
an escape stands for its character, and a plain character for itself. -/
structure Unescapes (reader : Mode → List Char → Found) : Prop where
  backslash (s : List Char) : reader .text ('\\' :: s) = reader .escape s
  short {c d : Char} (h : shortEscape? c = some d) (s : List Char) :
    reader .escape (c :: s) = (reader .text s).push d
  long (s : List Char) : reader .escape ('u' :: s) = reader (.code 4 0) s
  digit {c : Char} (h : isHexDigit c = true) (left value : Nat) (s : List Char) :
    reader (.code (left + 2) value) (c :: s) =
      reader (.code (left + 1) (16 * value + hexValue c)) s
  lastDigit {c d : Char} {value : Nat} (h : isHexDigit c = true)
    (hd : charOfCode? (16 * value + hexValue c) = some d) (s : List Char) :
    reader (.code 1 value) (c :: s) = (reader .text s).push d
  plain {c : Char} (hquote : c ≠ '"') (hslash : c ≠ '\\') (h : isForbidden c = false)
    (s : List Char) : reader .text (c :: s) = (reader .text s).push c

theorem unescapes_basicFrom : Unescapes basicFrom where
  backslash s := rfl
  short h s := by simp only [basicFrom, h]
  long s := rfl
  digit h left value s := by simp [basicFrom, h]
  lastDigit h hd s := by simp [basicFrom, h, hd]
  plain hquote hslash h s := by simp [basicFrom, hquote, hslash, h]

theorem closing?_of_ne {q c : Char} (h : c ≠ q) (s : List Char) : closing? q (c :: s) = none := by
  simp [closing?, h]

theorem isFoldable_of_short {c d : Char} (h : shortEscape? c = some d) (s : List Char) :
    isFoldable c s = false := by
  have hne {b : Char} (hb : shortEscape? b = none) : c ≠ b := by
    rintro rfl
    rw [h] at hb
    cases hb
  have hspace : c ≠ ' ' := hne rfl
  have htab : c ≠ '\t' := hne rfl
  have hline : c ≠ '\n' := hne rfl
  have hreturn : c ≠ '\r' := hne rfl
  simp [isFoldable, hspace, htab, hline, hreturn]

theorem unescapes_multiBasicFrom : Unescapes multiBasicFrom where
  backslash s := by simp [multiBasicFrom, closing?_of_ne]
  short h s := by simp only [multiBasicFrom, isFoldable_of_short h, h]; rfl
  long s := by simp [multiBasicFrom, isFoldable, shortEscape?, codeLength?]
  digit h left value s := by simp [multiBasicFrom, h]
  lastDigit h hd s := by simp [multiBasicFrom, h, hd]
  plain hquote hslash h s := by simp [multiBasicFrom, closing?_of_ne hquote, hslash, isMultiChar, h]

variable {reader : Mode → List Char → Found} {c : Char}

theorem isHexDigit_upper : ∀ d < 16, isHexDigit (Nat.digitChar d).toUpper = true := by
  decide

theorem hexValue_upper : ∀ d < 16, hexValue (Nat.digitChar d).toUpper = d := by
  decide

/-- The digits of a code point count in one after the other, and one digit is still to come. -/
theorem Unescapes.digits (h : Unescapes reader) (width left value n : Nat) (s : List Char) :
    reader (.code (left + 1 + width) value) (upper (hexPadded width n) ++ s) =
      reader (.code (left + 1) (16 ^ width * value + n % 16 ^ width)) s := by
  -- The last digit of the value is the last one read, so the front is read with one more to come.
  induction width generalizing left n s with
  | zero => simp [hexPadded, upper, Nat.mod_one]
  | succ width ih =>
    have hlast : n % 16 < 16 := Nat.mod_lt n (by decide)
    have hvalue : 16 * (16 ^ width * value + n / 16 % 16 ^ width) + n % 16 =
        16 ^ (width + 1) * value + n % 16 ^ (width + 1) := by
      rw [Nat.pow_succ', Nat.mod_mul, Nat.mul_add, Nat.mul_assoc]
      omega
    rw [hexPadded, upper, List.map_append, List.append_assoc, ← upper,
      show left + 1 + (width + 1) = (left + 1) + 1 + width by omega, ih]
    rw [List.map_singleton, List.singleton_append, h.digit (isHexDigit_upper _ hlast),
      hexValue_upper _ hlast, hvalue]

theorem Unescapes.codeEscape (h : Unescapes reader) (hc : c.toNat < 16 ^ 4) (s : List Char) :
    reader .text (codeEscape c ++ s) = (reader .text s).push c := by
  have hlast : c.toNat % 16 < 16 := Nat.mod_lt _ (by decide)
  have hvalue : 16 * (16 ^ 3 * 0 + c.toNat / 16 % 16 ^ 3) + c.toNat % 16 = c.toNat := by
    omega
  have hchar : charOfCode? c.toNat = some c := by
    rw [charOfCode?, dif_pos (show c.toNat.isValidChar from c.valid)]
    rfl
  rw [Toml.codeEscape, List.cons_append, List.cons_append, h.backslash, h.long, hexPadded, upper,
    List.map_append, List.append_assoc, ← upper, h.digits 3 0]
  refine h.lastDigit (isHexDigit_upper _ hlast) ?_ s
  rw [hexValue_upper _ hlast, hvalue, hchar]

theorem lt_of_needsEscape (h : needsEscape c = true) : c.toNat < 16 ^ 4 := by
  simp only [needsEscape, Bool.or_eq_true, Bool.and_eq_true, decide_eq_true_eq, beq_iff_eq] at h
  omega

theorem isForbidden_eq_false (h : needsEscape c = false) (hc : c ≠ '\n') :
    isForbidden c = false := by
  simpa [needsEscape, isForbidden, hc] using h

theorem Unescapes.escapeChar (h : Unescapes reader) (hquote : c ≠ '"') (hline : c ≠ '\n')
    (s : List Char) : reader .text (escapeChar c ++ s) = (reader .text s).push c := by
  have hshort {b : Char} (hb : shortEscape? b = some c) :
      reader .text ('\\' :: b :: s) = (reader .text s).push c := by
    rw [h.backslash, h.short hb]
  unfold Toml.escapeChar
  split
  · exact hshort rfl
  · exact hshort rfl
  · exact hshort rfl
  · exact hshort rfl
  · exact hshort rfl
  · rename_i hslash
    split_ifs with hc
    · exact h.codeEscape (lt_of_needsEscape hc) s
    · exact h.plain hquote hslash (isForbidden_eq_false (by simpa using hc) hline) s

end Escapes

section Line

variable {s : List Char}

theorem basicFrom_escapeLine (s rest : List Char) :
    basicFrom .text (escapeLine s ++ '"' :: rest) = some (s, rest) := by
  have h := unescapes_basicFrom
  induction s with
  | nil => rfl
  | cons c s ih =>
    rw [escapeLine, List.append_assoc]
    split_ifs with hquote hline
    · subst hquote
      rw [List.cons_append, List.singleton_append, h.backslash, h.short rfl, ih]
      rfl
    · subst hline
      rw [List.cons_append, List.singleton_append, h.backslash, h.short rfl, ih]
      rfl
    · rw [h.escapeChar hquote hline, ih]
      rfl

theorem literalFrom_plain (hplain : ∀ c ∈ s, c ≠ '\'' ∧ isForbidden c = false) (rest : List Char) :
    literalFrom (s ++ '\'' :: rest) = some (s, rest) := by
  induction s with
  | nil => rfl
  | cons c s ih =>
    obtain ⟨⟨hquote, hc⟩, hs⟩ := List.forall_mem_cons.1 hplain
    rw [List.cons_append, literalFrom, if_neg hquote, hc, if_neg Bool.false_ne_true, ih hs]
    rfl

end Line

section Lines

variable {q : Char} {s rest : List Char} {j : Nat}

theorem takeWhile_replicate_append (j : Nat) (hrest : q ∉ rest.head?) :
    (List.replicate j q ++ rest).takeWhile (· == q) = List.replicate j q := by
  have hstop : rest.takeWhile (· == q) = [] := by
    cases rest with
    | nil => rfl
    | cons c rest =>
      have hc : c ≠ q := fun h => hrest (by simp [h])
      simp [hc]
  rw [List.takeWhile_append_of_pos (by simp), hstop, List.append_nil]

/-- Fewer than three quotes in a row do not close a string. -/
theorem closing?_few (hj : j < 3) (hrest : q ∉ rest.head?) :
    closing? q (List.replicate j q ++ rest) = none := by
  rw [closing?, takeWhile_replicate_append j hrest]
  simp
  omega

/-- The last three quotes in a row close a string, and those in front belong to it. -/
theorem closing?_end (hj : j < 3) (hrest : q ∉ rest.head?) :
    closing? q (List.replicate (j + 3) q ++ rest) = some (List.replicate j q, rest) := by
  have hquotes : min 5 (j + 3) = j + 3 := by omega
  simp [closing?, takeWhile_replicate_append (j + 3) hrest, hquotes]

/-- An escaped character begins with a backslash, and any other is plain. -/
theorem escapeChar_cases (c : Char) :
    (∃ t, escapeChar c = '\\' :: t) ∨ escapeChar c = [c] ∧ needsEscape c = false := by
  unfold escapeChar
  split
  iterate 5 exact .inl ⟨_, rfl⟩
  split_ifs with hc
  · exact .inl ⟨_, rfl⟩
  · exact .inr ⟨rfl, by simpa using hc⟩

theorem head_escapeChar {c d : Char} (hd : d ≠ '\\') (hc : needsEscape c = false → c ≠ d)
    (s : List Char) : d ∉ (escapeChar c ++ s).head? := by
  rcases escapeChar_cases c with ⟨t, ht⟩ | ⟨ht, hplain⟩
  · simpa [ht] using hd.symm
  · simpa [ht] using hc hplain

/-- In a text over several lines, three quotes in a row are only those at its end. -/
theorem quotes_escapeLines {k : Nat} (hk : k ≤ 2) (hrest : '"' ∉ rest.head?) :
    ∃ j t, escapeLines k s ++ (tripleBasic ++ rest) = List.replicate j '"' ++ t ∧
      '"' ∉ t.head? ∧ (j + k ≤ 2 ∨ ∃ i, i + k ≤ 2 ∧ j = i + 3 ∧ s = List.replicate i '"' ∧
        t = rest) := by
  induction s generalizing k with
  | nil => exact ⟨3, rest, rfl, hrest, .inr ⟨0, by omega, rfl, rfl, rfl⟩⟩
  | cons c s ih =>
    rw [escapeLines]
    split_ifs with hc hfew
    · obtain ⟨j, t, htext, ht, hj⟩ := ih (k := k + 1) (by omega)
      refine ⟨j + 1, t, by rw [List.cons_append, htext]; rfl, ht, ?_⟩
      rcases hj with hj | ⟨i, hi, rfl, rfl, rfl⟩
      · exact .inl (by omega)
      · exact .inr ⟨i + 1, by omega, by omega, by rw [hc]; rfl, rfl⟩
    · exact ⟨0, _, rfl, by simp, .inl (by omega)⟩
    · exact ⟨0, escapeChar c ++ (escapeLines 0 s ++ (tripleBasic ++ rest)),
        List.append_assoc _ _ _, head_escapeChar (by decide) (fun _ => hc) _, .inl (by omega)⟩

theorem closing?_escapeLines {k : Nat} (hk : k ≤ 2) (hrest : '"' ∉ rest.head?) :
    closing? '"' (escapeLines k s ++ (tripleBasic ++ rest)) = none ∨
      closing? '"' (escapeLines k s ++ (tripleBasic ++ rest)) = some (s, rest) := by
  obtain ⟨j, t, htext, ht, hj⟩ := quotes_escapeLines (s := s) hk hrest
  rw [htext]
  rcases hj with hj | ⟨i, hi, rfl, rfl, rfl⟩
  · exact .inl (closing?_few (by omega) ht)
  · exact .inr (closing?_end (by omega) ht)

theorem multiBasicFrom_quote (s : List Char) :
    multiBasicFrom .text ('"' :: s) =
      (closing? '"' ('"' :: s)).or ((multiBasicFrom .text s).push '"') := by
  rw [multiBasicFrom]
  cases hclosing : closing? '"' ('"' :: s) with
  | none => simp [isMultiChar, isForbidden]
  | some found => simp
  all_goals simp

theorem escapeChar_newline : escapeChar '\n' = ['\n'] := rfl

theorem multiBasicFrom_newline (s : List Char) :
    multiBasicFrom .text ('\n' :: s) = (multiBasicFrom .text s).push '\n' := by
  simp [multiBasicFrom, closing?_of_ne, isMultiChar]

theorem multiBasicFrom_escapeLines {k : Nat} (hk : k ≤ 2) (hrest : '"' ∉ rest.head?) :
    multiBasicFrom .text (escapeLines k s ++ (tripleBasic ++ rest)) = some (s, rest) := by
  have h := unescapes_multiBasicFrom
  induction s generalizing k with
  | nil =>
    have hend : closing? '"' ('"' :: '"' :: '"' :: rest) = some ([], rest) :=
      closing?_end (j := 0) (by decide) hrest
    rw [escapeLines, List.nil_append]
    show multiBasicFrom .text ('"' :: '"' :: '"' :: rest) = _
    rw [multiBasicFrom_quote, hend]
    rfl
  | cons c s ih =>
    -- The quotes that end the text close the string all at once, so a quote is either the first
    -- of those or one that is read over.
    have hclosing := closing?_escapeLines (s := c :: s) hk hrest
    rw [escapeLines] at hclosing ⊢
    split_ifs at hclosing ⊢ with hc hfew
    · rw [List.cons_append] at hclosing ⊢
      rw [multiBasicFrom_quote, ih (by omega)]
      subst hc
      rcases hclosing with hnone | hsome
      · rw [hnone]
        rfl
      · rw [hsome]
        rfl
    · subst hc
      rw [List.cons_append, List.cons_append, h.backslash, h.short rfl, ih (by decide)]
      rfl
    · rw [List.append_assoc]
      by_cases hline : c = '\n'
      · subst hline
        rw [escapeChar_newline, List.singleton_append, multiBasicFrom_newline, ih (by decide)]
        rfl
      · rw [h.escapeChar hc hline, ih (by decide)]
        rfl

/-- Quotes in front of a text that begins with something else. -/
theorem exists_replicate (q : Char) (s : List Char) :
    ∃ j t, s = List.replicate j q ++ t ∧ q ∉ t.head? := by
  induction s with
  | nil => exact ⟨0, [], rfl, by simp⟩
  | cons c s ih =>
    by_cases hc : c = q
    · obtain ⟨j, t, rfl, ht⟩ := ih
      exact ⟨j + 1, t, by rw [hc]; rfl, ht⟩
    · exact ⟨0, c :: s, rfl, by simpa using hc⟩

theorem hasTriple_tail {c : Char} (h : hasTriple q (c :: s) = false) : hasTriple q s = false := by
  match s with
  | [] | [_] => rfl
  | _ :: _ :: _ => exact (Bool.or_eq_false_iff.1 h).2

theorem lt_three_of_hasTriple (h : hasTriple q (List.replicate j q ++ s) = false) : j < 3 := by
  by_contra hj
  obtain ⟨i, rfl⟩ := Nat.exists_eq_add_of_le' (Nat.not_lt.1 hj)
  simp [List.replicate, hasTriple] at h

theorem closing?_literal (htriple : hasTriple q s = false) (hrest : q ∉ rest.head?) :
    closing? q (s ++ (List.replicate 3 q ++ rest)) = none ∨
      closing? q (s ++ (List.replicate 3 q ++ rest)) = some (s, rest) := by
  obtain ⟨j, t, rfl, ht⟩ := exists_replicate q s
  have hj := lt_three_of_hasTriple htriple
  cases t with
  | nil =>
    rw [List.append_nil, ← List.append_assoc, List.replicate_append_replicate]
    exact .inr (closing?_end hj hrest)
  | cons c t =>
    rw [List.append_assoc]
    exact .inl (closing?_few hj ht)

theorem multiLiteralFrom_cons {c : Char} (s : List Char) (h : isMultiChar c s = true) :
    multiLiteralFrom (c :: s) =
      (closing? '\'' (c :: s)).or ((multiLiteralFrom s).push c) := by
  rw [multiLiteralFrom]
  cases hclosing : closing? '\'' (c :: s) with
  | none => simp [h]
  | some found => rfl

/-- A text that needs no escapes between three single quotes. -/
theorem multiLiteralFrom_plain (htriple : hasTriple '\'' s = false)
    (hplain : ∀ c ∈ s, needsEscape c = false) (hrest : '\'' ∉ rest.head?) :
    multiLiteralFrom (s ++ (tripleLiteral ++ rest)) = some (s, rest) := by
  induction s with
  | nil =>
    have hend : closing? '\'' ('\'' :: '\'' :: '\'' :: rest) = some ([], rest) :=
      closing?_end (j := 0) (by decide) hrest
    show multiLiteralFrom ('\'' :: '\'' :: '\'' :: rest) = _
    rw [multiLiteralFrom_cons _ (by simp [isMultiChar, isForbidden]), hend]
    rfl
  | cons c s ih =>
    obtain ⟨hc, hs⟩ := List.forall_mem_cons.1 hplain
    have hmulti (t : List Char) : isMultiChar c t = true := by
      by_cases hline : c = '\n'
      · simp [isMultiChar, hline]
      · simp [isMultiChar, isForbidden_eq_false hc hline]
    rw [List.cons_append, multiLiteralFrom_cons _ (hmulti _), ih (hasTriple_tail htriple) hs]
    rcases closing?_literal htriple hrest with hnone | hsome
    · exact congrArg (Option.or · _) hnone
    · exact congrArg (Option.or · _) hsome

end Lines

section Forms

variable {q : Char} {s t rest : List Char}

theorem string?_of_line (h : ∀ u, t ≠ q :: q :: u) : string? (q :: t) = lineString? (q :: t) := by
  unfold string?
  split
  · rename_i u heq
    obtain ⟨rfl, rfl⟩ := List.cons.inj heq
    exact absurd rfl (h u)
  · rename_i u heq
    obtain ⟨rfl, rfl⟩ := List.cons.inj heq
    exact absurd rfl (h u)
  · rfl

theorem ne_two_quotes (hs : q ∉ s.head?) (hrest : q ∉ rest.head?) (u : List Char) :
    s ++ q :: rest ≠ q :: q :: u := by
  intro h
  cases s with
  | nil => exact hrest (by simp [(List.cons.inj h).2])
  | cons c s => exact hs (by simp [(List.cons.inj h).1])

theorem head_escapeLine (s : List Char) : '"' ∉ (escapeLine s).head? := by
  cases s with
  | nil => simp [escapeLine]
  | cons c s =>
    rw [escapeLine]
    split_ifs with hquote hline
    · simp
    · simp
    · exact head_escapeChar (by decide) (fun _ => hquote) _

theorem string?_escapeLine (s : List Char) (hrest : '"' ∉ rest.head?) :
    string? ('"' :: (escapeLine s ++ '"' :: rest)) = some (s, rest) := by
  rw [string?_of_line (ne_two_quotes (head_escapeLine s) hrest)]
  exact basicFrom_escapeLine s rest

theorem string?_plain (hplain : ∀ c ∈ s, c ≠ '\'' ∧ isForbidden c = false)
    (hrest : '\'' ∉ rest.head?) : string? ('\'' :: (s ++ '\'' :: rest)) = some (s, rest) := by
  have hs : '\'' ∉ s.head? := fun h => (hplain '\'' (List.mem_of_head? h)).1 rfl
  rw [string?_of_line (ne_two_quotes hs hrest)]
  exact literalFrom_plain hplain rest

/-- The newline behind the opening quotes is dropped, and no other. -/
theorem dropNewline_opening (h : '\n' ∉ s → '\n' ∉ t.head? ∧ '\r' ∉ t.head?) :
    dropNewline (opening s ++ t) = t := by
  rw [opening]
  split_ifs with hline
  · rfl
  · obtain ⟨hn, hr⟩ := h hline
    rw [List.nil_append]
    unfold dropNewline
    split
    · simp at hn
    · simp at hr
    · rfl

theorem string?_tripleBasic (t : List Char) :
    string? (tripleBasic ++ t) = multiBasicFrom .text (dropNewline t) := rfl

theorem string?_tripleLiteral (t : List Char) :
    string? (tripleLiteral ++ t) = multiLiteralFrom (dropNewline t) := rfl

theorem string?_escapeLines (s : List Char) (hrest : '"' ∉ rest.head?) :
    string? (tripleBasic ++ (opening s ++ (escapeLines 0 s ++ (tripleBasic ++ rest)))) =
      some (s, rest) := by
  have hhead : '\n' ∉ s → ∀ d ∈ ['\n', '\r'],
      d ∉ (escapeLines 0 s ++ (tripleBasic ++ rest)).head? := by
    intro hline d hd
    simp only [List.mem_cons, List.not_mem_nil, or_false] at hd
    cases s with
    | nil => rcases hd with rfl | rfl <;> simp [escapeLines, tripleBasic]
    | cons c s =>
      rw [escapeLines]
      split_ifs with hc hfew
      · rcases hd with rfl | rfl <;> simp
      · exact absurd (by decide) hfew
      · rw [List.append_assoc]
        refine head_escapeChar (by rcases hd with rfl | rfl <;> decide) (fun hplain heq => ?_) _
        subst heq
        rcases hd with rfl | rfl
        · exact hline List.mem_cons_self
        · exact absurd hplain (by decide)
  rw [string?_tripleBasic, dropNewline_opening fun hline =>
    ⟨hhead hline '\n' (by decide), hhead hline '\r' (by decide)⟩]
  exact multiBasicFrom_escapeLines (by decide) hrest

theorem string?_plainLines (htriple : hasTriple '\'' s = false)
    (hplain : ∀ c ∈ s, needsEscape c = false) (hrest : '\'' ∉ rest.head?) :
    string? (tripleLiteral ++ (opening s ++ (s ++ (tripleLiteral ++ rest)))) = some (s, rest) := by
  rw [string?_tripleLiteral, dropNewline_opening, multiLiteralFrom_plain htriple hplain hrest]
  intro hline
  cases s with
  | nil => simp [tripleLiteral]
  | cons c s =>
    have hc := hplain c List.mem_cons_self
    constructor
    · rintro ⟨⟩
      exact hline List.mem_cons_self
    · rintro ⟨⟩
      exact absurd hc (by decide)

/-- A string is read back in the form that was chosen for it. -/
theorem string?_writeString (s : List Char) (hbasic : '"' ∉ rest.head?)
    (hliteral : '\'' ∉ rest.head?) : string? (writeString s ++ rest) = some (s, rest) := by
  have hline : string? (('"' :: escapeLine s ++ ['"']) ++ rest) = some (s, rest) := by
    simpa using string?_escapeLine s hbasic
  have hlines : string? ((tripleBasic ++ opening s ++ escapeLines 0 s ++ tripleBasic) ++ rest) =
      some (s, rest) := by
    simpa only [List.append_assoc] using string?_escapeLines s hbasic
  simp only [writeString]
  split_ifs with hnone hquote hslash htriple hnewline
  · exact hline
  · have hplain : ∀ c ∈ s, c ≠ '\'' ∧ isForbidden c = false := by
      simp only [Bool.and_eq_true, Bool.not_eq_true', List.any_eq_false, Bool.or_eq_true,
        beq_iff_eq, not_or] at hquote
      intro c hc
      obtain ⟨hne, hcline⟩ := hquote.1 c hc
      exact ⟨hne, isForbidden_eq_false (by simpa using hquote.2 c hc) hcline⟩
    simpa using string?_plain hplain hliteral
  · exact hlines
  · simp only [Bool.and_eq_true, Bool.not_eq_true', List.any_eq_false] at htriple
    have hplain : ∀ c ∈ s, needsEscape c = false := fun c hc => by simpa using htriple.1 c hc
    simpa only [List.append_assoc] using string?_plainLines htriple.2 hplain hliteral
  · exact hlines
  · exact hline

end Forms

end CqlConsole.Toml
