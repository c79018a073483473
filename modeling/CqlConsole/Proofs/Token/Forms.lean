import CqlConsole.Proofs.Token.Names
import Mathlib.Computability.Language
import Mathlib.Data.List.TakeWhile

/-!
# The forms of tokens

Each kind of token has a form, a language over characters that is put together
from classes of characters, unions, products and repetitions. The tests that
tell the kinds apart decide these languages.
-/

set_option autoImplicit false

namespace CqlConsole.Form

open CqlConsole.Text Computability

def one (p : Char → Bool) : Language Char :=
  {s | ∃ c, p c = true ∧ s = [c]}

def mark (c : Char) : Language Char :=
  {[c]}

def maybe (l : Language Char) : Language Char :=
  1 + l

def many (l : Language Char) : Language Char :=
  l * l∗

def cased (words : List String) : Language Char :=
  {s | ∃ w ∈ words, lower s = w.toList}

def digit : Language Char :=
  one Char.isDigit

def hexDigit : Language Char :=
  one isHexDigit

def letter : Language Char :=
  one Char.isAlpha

def integer : Language Char :=
  maybe (mark '-') * many digit

def fraction : Language Char :=
  mark '.' * digit∗

def exponent : Language Char :=
  (mark 'e' + mark 'E') * (maybe (mark '+' + mark '-') * many digit)

def tail : Language Char :=
  fraction * maybe exponent + exponent

def decimal : Language Char :=
  integer * tail

def uuid : Language Char :=
  hexDigit ^ 8 * mark '-' * hexDigit ^ 4 * mark '-' * hexDigit ^ 4 * mark '-' * hexDigit ^ 4 *
    mark '-' * hexDigit ^ 12

def blob : Language Char :=
  mark '0' * (mark 'x' + mark 'X') * hexDigit∗

def body (q : Char) : Language Char :=
  (one (· != q) + mark q * mark q)∗

def enclosed (q : Char) : Language Char :=
  mark q * body q * mark q

def truth : Language Char :=
  cased ["true", "false"]

def notFinite : Language Char :=
  cased ["nan", "infinity"]

def keyword : Language Char :=
  cased (keywords.filter fun w => w ∉ ["nan", "infinity"])

def plainWord : Language Char :=
  letter * (letter + digit + mark '_')∗

def name : Language Char :=
  enclosed '"' + (plainWord - (truth + notFinite + keyword))

def blanks : Language Char :=
  many (one isBlank)

def quotedRun (q : Char) : Language Char :=
  mark q * body q * maybe (mark q)

def isNumberChar (c : Char) : Bool :=
  c.isAlphanum || c == '.' || c == '+' || c == '-'

def numberRun : Language Char :=
  (digit + mark '-') * (one isNumberChar)∗

def isWordChar (c : Char) : Bool :=
  !(Run.isPunctuation c || isBlank c || Run.isQuote c)

def isWordStart (c : Char) : Bool :=
  isWordChar c && !(c.isDigit || c == '-')

def wordRun : Language Char :=
  one isWordStart * (one isWordChar)∗

def run : Language Char :=
  one Run.isPunctuation + quotedRun '\'' + quotedRun '"' + numberRun + blanks + wordRun

end CqlConsole.Form

namespace CqlConsole

open CqlConsole.Form

def TokenKind.properForm : TokenKind → Language Char
  | endOfInput | error => 0
  | keyword => Form.keyword
  | whitespace => blanks
  | identifier => name
  | string => enclosed '\''
  | integer => Form.integer
  | float => decimal + notFinite
  | uuid => Form.uuid
  | boolean => truth
  | blob => Form.blob
  | star => mark '*'
  | comma => mark ','
  | bracket => mark '(' + mark ')'
  | semicolon => mark ';'
  | dot => mark '.'
  | questionMark => mark '?'
  | colon => mark ':'

def TokenKind.proper : Language Char :=
  {s | ∃ k : TokenKind, s ∈ k.properForm}

/-- The texts that are a token of the kind by themselves. An error is a text that is cut nowhere
and has none of the other forms. -/
def TokenKind.form : TokenKind → Language Char
  | error => run - proper
  | k => k.properForm

end CqlConsole

namespace CqlConsole.Form

open CqlConsole.Text Computability

section Calculus

variable {p : Char → Bool} {c q : Char} {s : List Char} {l : Language Char}

theorem mem_one_cons : c :: s ∈ one p ↔ p c = true ∧ s = [] := by
  constructor
  · rintro ⟨d, hd, heq⟩
    cases heq
    exact ⟨hd, rfl⟩
  · rintro ⟨hc, rfl⟩
    exact ⟨c, hc, rfl⟩

theorem mark_eq (c : Char) : mark c = one (· == c) := by
  ext s
  constructor
  · rintro rfl
    exact ⟨c, beq_self_eq_true c, rfl⟩
  · rintro ⟨d, hd, rfl⟩
    rw [beq_iff_eq.1 hd]
    rfl

theorem one_add_one (p q : Char → Bool) : one p + one q = one fun c => p c || q c := by
  ext s
  simp only [Language.mem_add]
  constructor
  · rintro (⟨c, hc, rfl⟩ | ⟨c, hc, rfl⟩)
    · exact ⟨c, Bool.or_eq_true_iff.2 (Or.inl hc), rfl⟩
    · exact ⟨c, Bool.or_eq_true_iff.2 (Or.inr hc), rfl⟩
  · rintro ⟨c, hc, rfl⟩
    rcases Bool.or_eq_true_iff.1 hc with hc | hc
    · exact Or.inl ⟨c, hc, rfl⟩
    · exact Or.inr ⟨c, hc, rfl⟩

theorem mem_mark_mul : s ∈ mark c * l ↔ ∃ t ∈ l, s = c :: t := by
  constructor
  · intro h
    obtain ⟨a, rfl, t, ht, rfl⟩ := Language.mem_mul.1 h
    exact ⟨t, ht, rfl⟩
  · rintro ⟨t, ht, rfl⟩
    exact Language.append_mem_mul (a := [c]) rfl ht

theorem mem_maybe_mul {m : Language Char} : s ∈ maybe l * m ↔ s ∈ m ∨ s ∈ l * m := by
  rw [maybe, one_add_mul, Language.mem_add]

theorem mem_one_mul : s ∈ one p * l ↔ ∃ d t, p d = true ∧ t ∈ l ∧ s = d :: t := by
  constructor
  · intro h
    obtain ⟨a, ⟨d, hd, rfl⟩, t, ht, rfl⟩ := Language.mem_mul.1 h
    exact ⟨d, t, hd, ht, rfl⟩
  · rintro ⟨d, t, hd, ht, rfl⟩
    exact Language.append_mem_mul (a := [d]) ⟨d, hd, rfl⟩ ht

theorem mem_one_star : s ∈ (one p)∗ ↔ ∀ c ∈ s, p c = true := by
  constructor
  · rintro ⟨pieces, rfl, hpieces⟩ c hc
    obtain ⟨piece, hmem, hc⟩ := List.mem_flatten.1 hc
    obtain ⟨d, hd, rfl⟩ := hpieces piece hmem
    rwa [List.mem_singleton.1 hc]
  · intro h
    refine ⟨s.map fun c => [c], (List.flatMap_singleton' s).symm, fun piece hmem => ?_⟩
    obtain ⟨c, hc, rfl⟩ := List.mem_map.1 hmem
    exact ⟨c, h c hc, rfl⟩

theorem mem_many_one : s ∈ many (one p) ↔ s ≠ [] ∧ ∀ c ∈ s, p c = true := by
  rw [many, mem_one_mul]
  constructor
  · rintro ⟨d, t, hd, ht, rfl⟩
    exact ⟨by simp, List.forall_mem_cons.2 ⟨hd, mem_one_star.1 ht⟩⟩
  · rintro ⟨hne, hall⟩
    obtain ⟨d, t, rfl⟩ := List.exists_cons_of_ne_nil hne
    obtain ⟨hd, ht⟩ := List.forall_mem_cons.1 hall
    exact ⟨d, t, hd, mem_one_star.2 ht, rfl⟩

def Avoids (p : Char → Bool) (l : Language Char) : Prop :=
  ∀ c t, c :: t ∈ l → p c = false

theorem dropWhile_of_avoids (hl : Avoids p l) {s t : List Char} (hs : ∀ c ∈ s, p c = true)
    (ht : t ∈ l) : (s ++ t).takeWhile p = s ∧ (s ++ t).dropWhile p = t := by
  rw [List.takeWhile_append_of_pos hs, List.dropWhile_append_of_pos hs]
  cases t with
  | nil => simp
  | cons c t => simp [hl c t ht]

/-- As many characters of a class as there are, and then a word that begins with another one. -/
theorem mem_one_star_mul (hl : Avoids p l) : s ∈ (one p)∗ * l ↔ s.dropWhile p ∈ l := by
  constructor
  · intro h
    obtain ⟨a, ha, t, ht, rfl⟩ := Language.mem_mul.1 h
    rwa [(dropWhile_of_avoids hl (mem_one_star.1 ha) ht).2]
  · intro h
    rw [← List.takeWhile_append_dropWhile (p := p) (l := s)]
    exact Language.append_mem_mul (mem_one_star.2 fun c hc => List.mem_takeWhile_imp hc) h

theorem mem_many_one_mul (hl : Avoids p l) :
    s ∈ many (one p) * l ↔ s.takeWhile p ≠ [] ∧ s.dropWhile p ∈ l := by
  constructor
  · intro h
    obtain ⟨a, ha, t, ht, rfl⟩ := Language.mem_mul.1 h
    obtain ⟨hne, hall⟩ := mem_many_one.1 ha
    obtain ⟨htake, hdrop⟩ := dropWhile_of_avoids hl hall ht
    rw [htake, hdrop]
    exact ⟨hne, ht⟩
  · rintro ⟨hne, h⟩
    rw [← List.takeWhile_append_dropWhile (p := p) (l := s)]
    exact Language.append_mem_mul
      (mem_many_one.2 ⟨hne, fun c hc => List.mem_takeWhile_imp hc⟩) h

theorem mem_one_pow_mul {n : Nat} :
    s ∈ one p ^ n * l ↔ (s.take n).length = n ∧ (s.take n).all p = true ∧ s.drop n ∈ l := by
  induction n generalizing s with
  | zero => simp
  | succ n ih =>
    rw [pow_succ', mul_assoc, mem_one_mul]
    constructor
    · rintro ⟨d, t, hd, ht, rfl⟩
      obtain ⟨hlen, hall, hrest⟩ := ih.1 ht
      simp [hlen, hd, hrest]
      simpa using hall
    · rintro ⟨hlen, hall, hrest⟩
      cases s with
      | nil => simp at hlen
      | cons d t =>
        simp only [List.take_succ_cons, List.length_cons, List.all_cons, Bool.and_eq_true,
          List.drop_succ_cons, Nat.add_right_cancel_iff] at hlen hall hrest
        exact ⟨d, t, hall.1, ih.2 ⟨hlen, hall.2, hrest⟩, rfl⟩

theorem mem_one_pow {n : Nat} : s ∈ one p ^ n ↔ s.length = n ∧ s.all p = true := by
  rw [← mul_one (one p ^ n), mem_one_pow_mul, Language.mem_one, List.drop_eq_nil_iff,
    List.length_take]
  constructor
  · rintro ⟨hlen, hall, hrest⟩
    have htake : s.take n = s := List.take_of_length_le hrest
    exact ⟨by omega, htake ▸ hall⟩
  · rintro ⟨rfl, hall⟩
    exact ⟨by omega, by rwa [List.take_length], by omega⟩

end Calculus

section Words

open CqlConsole.Run

variable {s : List Char}

theorem mem_cased {words : List String} : s ∈ cased words ↔ isWordOf words s = true := by
  rw [isWordOf, List.any_eq_true]
  constructor
  · rintro ⟨w, hw, hs⟩
    exact ⟨w, hw, beq_iff_eq.2 hs.symm⟩
  · rintro ⟨w, hw, hs⟩
    exact ⟨w, hw, (beq_iff_eq.1 hs).symm⟩

def groups : List Nat → Language Char
  | [] => 1
  | [n] => hexDigit ^ n
  | n :: ns => hexDigit ^ n * (mark '-' * groups ns)

theorem mem_groups (ns : List Nat) : s ∈ groups ns ↔ isHexGroups ns s = true := by
  induction ns using groups.induct generalizing s with
  | case1 => simp [groups, isHexGroups]
  | case2 n => rw [groups, hexDigit, mem_one_pow, isHexGroups, Bool.and_eq_true, beq_iff_eq]
  | case3 n ns hns ih =>
    rw [groups, hexDigit, mem_one_pow_mul, mem_mark_mul, isHexGroups]
    simp only [Bool.and_eq_true, beq_iff_eq, ih, and_assoc]
    split
    · rename_i rest hdrop
      simp [hdrop]
    · rename_i hdrop
      simp
      grind
    all_goals exact hns

theorem mem_uuid : s ∈ uuid ↔ isUuid s = true := by
  rw [isUuid, ← mem_groups]
  simp only [uuid, groups, mul_assoc]

theorem mem_blob : s ∈ blob ↔ isBlob s = true := by
  rw [blob, mul_assoc, mem_mark_mul, add_mul]
  simp only [Language.mem_add, mem_mark_mul, hexDigit, mem_one_star]
  constructor
  · rintro ⟨t, ⟨u, hu, rfl⟩ | ⟨u, hu, rfl⟩, rfl⟩ <;> simpa [isBlob] using hu
  · intro h
    unfold isBlob at h
    split at h
    · rename_i x u
      simp only [Bool.and_eq_true, Bool.or_eq_true, beq_iff_eq, List.all_eq_true] at h
      obtain ⟨rfl | rfl, hu⟩ := h
      · exact ⟨_, .inl ⟨u, hu, rfl⟩, rfl⟩
      · exact ⟨_, .inr ⟨u, hu, rfl⟩, rfl⟩
    · cases h

theorem mem_plainWord : s ∈ plainWord ↔ isPlainName s = true := by
  have hchars : letter + digit + mark '_' = one isNameChar := by
    rw [letter, digit, mark_eq, one_add_one, one_add_one]
    rfl
  rw [plainWord, hchars, letter, mem_one_mul]
  cases s with
  | nil => simp [isPlainName]
  | cons c s =>
    simp only [List.cons.injEq, mem_one_star, isPlainName, Bool.and_eq_true, List.all_eq_true]
    constructor
    · rintro ⟨d, t, hd, ht, rfl, rfl⟩
      exact ⟨hd, ht⟩
    · rintro ⟨hc, hs⟩
      exact ⟨c, s, hc, hs, rfl, rfl⟩

end Words

section Numerals

open CqlConsole.Run

variable {s : List Char}

theorem mem_digits : s ∈ many digit ↔ s.isEmpty = false ∧ s.all Char.isDigit = true := by
  rw [digit, mem_many_one, List.isEmpty_eq_false_iff, List.all_eq_true]

theorem mem_signed_digits :
    s ∈ maybe (mark '+' + mark '-') * many digit ↔ isExponent s = true := by
  simp only [mem_maybe_mul, add_mul, Language.mem_add, mem_mark_mul, mem_digits]
  cases s with
  | nil => simp [isExponent]
  | cons c s =>
    by_cases hplus : c = '+'
    · simp [hplus, isExponent]
    by_cases hminus : c = '-'
    · simp [hminus, isExponent]
    rw [isExponent.eq_4]
    · simp [hplus, hminus]
    all_goals simp [hplus, hminus]

theorem mem_exponent {c : Char} :
    c :: s ∈ exponent ↔ (c = 'e' ∨ c = 'E') ∧ isExponent s = true := by
  simp only [exponent, add_mul, Language.mem_add, mem_mark_mul, mem_signed_digits,
    List.cons.injEq]
  constructor
  · rintro (⟨t, ht, rfl, rfl⟩ | ⟨t, ht, rfl, rfl⟩)
    · exact ⟨Or.inl rfl, ht⟩
    · exact ⟨Or.inr rfl, ht⟩
  · rintro ⟨rfl | rfl, hs⟩
    · exact Or.inl ⟨s, hs, rfl, rfl⟩
    · exact Or.inr ⟨s, hs, rfl, rfl⟩

theorem nil_notMem_exponent : [] ∉ exponent := by
  simp only [exponent, add_mul, Language.mem_add, mem_mark_mul]
  rintro (⟨t, -, h⟩ | ⟨t, -, h⟩) <;> cases h

theorem avoids_exponent : Avoids Char.isDigit exponent := by
  intro c t h
  rcases (mem_exponent.1 h).1 with rfl | rfl <;> rfl

theorem avoids_maybe {p : Char → Bool} {l : Language Char} (hl : Avoids p l) :
    Avoids p (maybe l) := by
  rintro c t (h | h)
  · cases h
  · exact hl c t h

theorem mem_tail_dot : '.' :: s ∈ tail ↔ s.dropWhile Char.isDigit ∈ maybe exponent := by
  rw [tail, fraction, digit, Language.mem_add, mul_assoc, mem_mark_mul, mem_exponent]
  constructor
  · rintro (⟨t, ht, heq⟩ | ⟨h, -⟩)
    · cases heq
      exact (mem_one_star_mul (avoids_maybe avoids_exponent)).1 ht
    · rcases h with h | h <;> cases h
  · intro h
    exact Or.inl ⟨s, (mem_one_star_mul (avoids_maybe avoids_exponent)).2 h, rfl⟩

theorem mem_tail_of_ne_dot (h : ∀ t, s ≠ '.' :: t) : s ∈ tail ↔ s ∈ exponent := by
  rw [tail, fraction, Language.mem_add, mul_assoc, mem_mark_mul]
  constructor
  · rintro (⟨t, -, rfl⟩ | hs)
    · exact absurd rfl (h t)
    · exact hs
  · exact Or.inr

theorem avoids_tail : Avoids Char.isDigit tail := by
  intro c t h
  by_cases hc : c = '.'
  · rw [hc]
    rfl
  · have hne : ∀ u, c :: t ≠ '.' :: u := by
      intro u heq
      exact hc (List.cons.inj heq).1
    exact avoids_exponent c t ((mem_tail_of_ne_dot hne).1 h)

theorem mem_integer_mul {l : Language Char} (hl : Avoids Char.isDigit l) :
    s ∈ integer * l ↔ (dropMinus s).takeWhile Char.isDigit ≠ [] ∧
      (dropMinus s).dropWhile Char.isDigit ∈ l := by
  rw [integer, mul_assoc, mem_maybe_mul, mem_mark_mul, digit, mem_many_one_mul hl]
  unfold dropMinus
  split
  · rename_i t
    simp [mem_many_one_mul hl]
  · rename_i hne
    constructor
    · rintro (h | ⟨t, -, rfl⟩)
      · exact h
      · exact absurd rfl (hne t)
    · exact Or.inl

theorem exponentKind_eq_integer {k : TokenKind} :
    exponentKind k s = .integer ↔ s = [] ∧ k = .integer := by
  cases s with
  | nil => simp [exponentKind]
  | cons c s =>
    rw [exponentKind]
    split <;> simp

theorem exponentKind_eq_float {k : TokenKind} :
    exponentKind k s = .float ↔ s = [] ∧ k = .float ∨ s ∈ exponent := by
  cases s with
  | nil => simp [exponentKind, nil_notMem_exponent]
  | cons c s =>
    rw [exponentKind, mem_exponent]
    split <;> simp_all

theorem mem_integer : s ∈ integer ↔ numberKind s = .integer := by
  have hone : Avoids Char.isDigit 1 := by
    rintro c t ⟨⟩
  rw [← mul_one integer, mem_integer_mul hone, Language.mem_one, numberKind]
  split
  · rename_i h
    simp [List.isEmpty_iff.1 h]
  · rename_i h
    rw [List.isEmpty_iff] at h
    split
    · rename_i hdrop
      simp [hdrop, exponentKind_eq_integer]
    · simp [exponentKind_eq_integer, h]

theorem mem_decimal : s ∈ decimal ↔ numberKind s = .float := by
  rw [decimal, mem_integer_mul avoids_tail, numberKind]
  split
  · rename_i h
    simp [List.isEmpty_iff.1 h]
  · rename_i h
    rw [List.isEmpty_iff] at h
    split
    · rename_i hdrop
      rw [hdrop, mem_tail_dot, exponentKind_eq_float, maybe, Language.mem_add, Language.mem_one]
      simp [h]
    · rename_i hdrop
      rw [mem_tail_of_ne_dot hdrop, exponentKind_eq_float]
      simp [h]

end Numerals

section Runs

open CqlConsole.Run

variable {c q : Char} {s : List Char} {l : Language Char}

theorem append_mem_body {piece : List Char} (hpiece : piece ∈ one (· != q) + mark q * mark q)
    (hs : s ∈ body q * l) : piece ++ s ∈ body q * l := by
  obtain ⟨t, ht, u, hu, rfl⟩ := Language.mem_mul.1 hs
  rw [← List.append_assoc]
  refine Language.append_mem_mul ?_ hu
  rw [body, ← Language.one_add_self_mul_kstar_eq_kstar]
  exact Or.inr (Language.append_mem_mul hpiece ht)

theorem body_cons (hc : c ≠ q) (hs : s ∈ body q * l) : c :: s ∈ body q * l := by
  have hpiece : [c] ∈ one (· != q) + mark q * mark q := Or.inl ⟨c, bne_iff_ne.2 hc, rfl⟩
  exact append_mem_body hpiece hs

theorem body_double (hs : s ∈ body q * l) : q :: q :: s ∈ body q * l := by
  have hpiece : [q, q] ∈ one (· != q) + mark q * mark q :=
    Or.inr (mem_mark_mul.2 ⟨[q], rfl, rfl⟩)
  exact append_mem_body hpiece hs

def closing (q : Char) : Bool → Language Char
  | true => mark q
  | false => 1

/-- A quote that may close the text belongs to what comes next. -/
theorem mem_body_of_steps {b e : Bool} (h : (Mode.quoted q b).steps s = some (.quoted q e)) :
    (if b then q :: s else s) ∈ body q * closing q e := by
  induction s generalizing b with
  | nil =>
    have hnil : [] ∈ body q := Language.nil_mem_kstar _
    cases h
    cases e with
    | false => exact Language.append_mem_mul hnil rfl
    | true => exact Language.append_mem_mul hnil rfl
  | cons c s ih =>
    rw [Mode.steps, Mode.step] at h
    by_cases hc : c = q
    · subst hc
      cases b with
      | false => exact ih (b := true) (by simpa using h)
      | true => exact body_double (ih (b := false) (by simpa using h))
    · have hbeq := beq_false_of_ne hc
      cases b with
      | false => exact body_cons hc (ih (b := false) (by simpa [hbeq] using h))
      | true => simp [hc] at h

theorem steps_of_mem_body (h : s ∈ body q) :
    (Mode.quoted q false).steps s = some (.quoted q false) := by
  obtain ⟨pieces, rfl, hpieces⟩ := h
  induction pieces with
  | nil => rfl
  | cons piece pieces ih =>
    obtain ⟨hpiece, hrest⟩ := List.forall_mem_cons.1 hpieces
    rw [List.flatten_cons, Mode.steps_append]
    rcases hpiece with ⟨c, hc, rfl⟩ | hpiece
    · have hbeq := beq_false_of_ne (bne_iff_ne.1 hc)
      simpa [Mode.steps, Mode.step, hbeq] using ih hrest
    · obtain ⟨t, rfl, rfl⟩ := mem_mark_mul.1 hpiece
      simpa [Mode.steps, Mode.step] using ih hrest

theorem mem_body_closing {e : Bool} :
    s ∈ body q * closing q e ↔ (Mode.quoted q false).steps s = some (.quoted q e) := by
  constructor
  · intro h
    obtain ⟨t, ht, u, hu, rfl⟩ := Language.mem_mul.1 h
    rw [Mode.steps_append, steps_of_mem_body ht]
    cases e with
    | false =>
      cases hu
      rfl
    | true =>
      cases hu
      simp [Mode.steps, Mode.step]
  · exact mem_body_of_steps

theorem mem_enclosed :
    s ∈ enclosed q ↔ ∃ t, s = q :: t ∧ (Mode.quoted q false).steps t = some (.quoted q true) := by
  rw [enclosed, mul_assoc, mem_mark_mul, ← closing]
  simp only [mem_body_closing, and_comm]

theorem mem_quotedRun_cons :
    c :: s ∈ quotedRun q ↔ c = q ∧ ∃ e, (Mode.quoted q false).steps s = some (.quoted q e) := by
  have hmaybe : maybe (mark q) = closing q false + closing q true := rfl
  rw [quotedRun, mul_assoc, mem_mark_mul, hmaybe, mul_add]
  simp only [Language.mem_add, mem_body_closing, Bool.exists_bool]
  constructor
  · rintro ⟨t, ht, heq⟩
    cases heq
    exact ⟨rfl, ht⟩
  · rintro ⟨rfl, hs⟩
    exact ⟨s, hs, rfl⟩

theorem mem_one_star_cons {p r : Char → Bool} :
    c :: s ∈ one p * (one r)∗ ↔ p c = true ∧ s.all r = true := by
  rw [mem_one_mul, List.all_eq_true]
  constructor
  · rintro ⟨d, t, hd, ht, heq⟩
    cases heq
    exact ⟨hd, mem_one_star.1 ht⟩
  · rintro ⟨hc, hs⟩
    exact ⟨c, s, hc, mem_one_star.2 hs, rfl⟩

theorem start_of_isDigit (h : c.isDigit = true) : Mode.start c = .number := by
  have hname : isNameChar c = true := by simp [isNameChar, Char.isAlphanum, h]
  simp [Mode.start, isPunctuation_of_isNameChar hname, isQuote_of_isNameChar hname,
    isBlank_of_isNameChar hname, h]

theorem steps_number :
    Mode.number.steps s = if s.all isNumberChar = true then some .number else none :=
  Mode.steps_of_loop fun _ => rfl

theorem steps_wordChars :
    Mode.word.steps s = if s.all isWordChar = true then some .word else none := by
  refine Mode.steps_of_loop fun c => ?_
  rw [Mode.step, isWordChar]
  by_cases h : (isPunctuation c || isBlank c || isQuote c) = true <;> simp [h]

theorem exists_steps_quoted {b : Bool} (h : ((Mode.quoted q b).steps s).isSome = true) :
    ∃ e, (Mode.quoted q b).steps s = some (.quoted q e) := by
  obtain ⟨m, hm⟩ := Option.isSome_iff_exists.1 h
  have hopening := Mode.opening_steps hm
  cases m with
  | quoted r e =>
    cases hopening
    exact ⟨e, hm⟩
  | _ => cases hopening

theorem mem_run_cons : c :: s ∈ run ↔ ((Mode.start c).steps s).isSome = true := by
  have hnumber : digit + mark '-' = one fun c => c.isDigit || c == '-' := by
    rw [digit, mark_eq, one_add_one]
  simp only [run, Language.mem_add, mem_one_cons, mem_quotedRun_cons, numberRun, hnumber,
    blanks, many, wordRun, mem_one_star_cons, or_assoc]
  constructor
  · rintro (⟨hc, rfl⟩ | ⟨rfl, e, hs⟩ | ⟨rfl, e, hs⟩ | ⟨hc, hs⟩ | ⟨hc, hs⟩ | ⟨hc, hs⟩)
    · rfl
    · exact Option.isSome_of_eq_some hs
    · exact Option.isSome_of_eq_some hs
    · have hstart : Mode.start c = .number := by
        rcases Bool.or_eq_true_iff.1 hc with hc | hc
        · exact start_of_isDigit hc
        · rw [beq_iff_eq.1 hc]
          rfl
      rw [hstart, steps_number, if_pos hs]
      rfl
    · rw [start_of_isBlank hc, Mode.steps_blanks, if_pos hs]
      rfl
    · simp only [isWordStart, isWordChar, Bool.and_eq_true, Bool.not_eq_true',
        Bool.or_eq_false_iff] at hc
      obtain ⟨⟨⟨hpunctuation, hblank⟩, hquote⟩, hdigit, hminus⟩ := hc
      have hstart : Mode.start c = .word := by
        simp [Mode.start, hpunctuation, hblank, hquote, hdigit, hminus]
      rw [hstart, steps_wordChars, if_pos hs]
      rfl
  · intro h
    unfold Mode.start at h
    split_ifs at h with hpunctuation hquote hminus hblank hdigit
    · cases s with
      | nil => exact Or.inl ⟨hpunctuation, rfl⟩
      | cons d s => cases h
    · have hquoted := exists_steps_quoted h
      simp only [isQuote, Bool.or_eq_true, beq_iff_eq] at hquote
      rcases hquote with rfl | rfl <;> simp [hquoted]
    · rw [steps_number, Option.isSome_ite] at h
      simp [hminus, h]
    · rw [Mode.steps_blanks, Option.isSome_ite] at h
      simp [hblank, h]
    · rw [steps_number, Option.isSome_ite] at h
      simp [hdigit, h]
    · rw [steps_wordChars, Option.isSome_ite] at h
      simp [isWordStart, isWordChar, hpunctuation, hquote, hminus, hblank, hdigit, h]

/-- A text of this language is one run, and any other text is none or several. -/
theorem mem_run : s ∈ run ↔ (endMode s).isSome = true := by
  cases s with
  | nil =>
    have hnil : [] ∉ run := by
      simp only [run, Language.mem_add, numberRun, wordRun, blanks, many, quotedRun, mul_assoc,
        mem_one_mul, digit, mark_eq, one_add_one, or_assoc]
      rintro (⟨c, -, h⟩ | ⟨c, t, -, -, h⟩ | ⟨c, t, -, -, h⟩ | ⟨c, t, -, -, h⟩ |
        ⟨c, t, -, -, h⟩ | ⟨c, t, -, -, h⟩) <;> cases h
    simp [hnil, endMode]
  | cons c s => exact mem_run_cons

end Runs

end CqlConsole.Form
