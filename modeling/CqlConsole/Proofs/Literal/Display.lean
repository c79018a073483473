import CqlConsole.Literal
import CqlConsole.Proofs.Number.Reading
import CqlConsole.Proofs.Token.Exactness

/-!
# Literals read back

The text of a literal that is no float is one token of its kind, and the value of
that token is the literal: quotes inside a text are doubled and collapse again,
and digits give back the number, the bytes or the identifier they were written from.
-/

set_option autoImplicit false

namespace CqlConsole

namespace Form

open CqlConsole.Text CqlConsole.Number Computability

theorem double_mem_body (q : Char) (s : List Char) {t : List Char} {l : Language Char}
    (ht : t ∈ l) : double q s ++ t ∈ body q * l := by
  induction s with
  | nil => exact Language.append_mem_mul (Language.nil_mem_kstar _) ht
  | cons c s ih =>
    rw [double]
    split
    · exact body_double ih
    · rename_i hc
      exact body_cons hc ih

theorem enquote_mem_enclosed (q : Char) (s : List Char) : enquote q s ∈ enclosed q := by
  rw [enclosed, mul_assoc, mem_mark_mul]
  exact ⟨double q s ++ [q], double_mem_body q s rfl, rfl⟩

theorem naturalText_mem_digits (n : Nat) : naturalText n ∈ many digit :=
  mem_many_one.2 ⟨naturalText_ne_nil n, fun _ hc => isDigit_of_mem_naturalText hc⟩

theorem integerText_mem_integer (n : Int) : integerText n ∈ integer := by
  rw [integer, mem_maybe_mul, mem_mark_mul]
  cases n with
  | ofNat n => exact Or.inl (naturalText_mem_digits n)
  | negSucc n => exact Or.inr ⟨_, naturalText_mem_digits (n + 1), rfl⟩

theorem hexOfBytes_mem_blob (bytes : List UInt8) : '0' :: 'x' :: hexOfBytes bytes ∈ blob := by
  rw [blob, mul_assoc, mem_mark_mul, add_mul]
  have hdigits : hexOfBytes bytes ∈ hexDigit∗ :=
    mem_one_star.2 fun _ hc => isHexDigit_of_mem_hexOfBytes hc
  exact ⟨_, Or.inl (mem_mark_mul.2 ⟨_, hdigits, rfl⟩), rfl⟩

/-- A group of digits, the sign behind it, and what follows. -/
theorem group_mem {n : Nat} {s t : List Char} {l : Language Char} (hn : s.length = n)
    (hs : ∀ c ∈ s, isHexDigit c = true) (ht : t ∈ l) :
    s ++ '-' :: t ∈ hexDigit ^ n * (mark '-' * l) :=
  Language.append_mem_mul (mem_one_pow.2 ⟨hn, List.all_eq_true.2 hs⟩)
    (mem_mark_mul.2 ⟨t, ht, rfl⟩)

theorem text_mem_uuid (u : Uuid) : u.text ∈ uuid := by
  obtain ⟨a, b, c, d, e, hdigits, ha, hb, hc, hd, he, hgrouped⟩ :=
    Uuid.exists_groups u.length_digits
  have hall : ∀ x ∈ a ++ (b ++ (c ++ (d ++ e))), isHexDigit x = true := by
    rw [← hdigits]
    exact fun _ hx => isHexDigit_of_mem_hexOfBytes hx
  simp only [List.forall_mem_append] at hall
  obtain ⟨ha', hb', hc', hd', he'⟩ := hall
  have hlast : e ∈ groups [12] := mem_one_pow.2 ⟨he, List.all_eq_true.2 he'⟩
  rw [mem_uuid, Run.isUuid, ← mem_groups, Uuid.text, hgrouped]
  exact group_mem ha ha' (group_mem hb hb' (group_mem hc hc' (group_mem hd hd' hlast)))

end Form

namespace Literal

open CqlConsole.Text CqlConsole.Number CqlConsole.Run

def tokenKind : Literal → TokenKind
  | integer _ => .integer
  | float _ => .float
  | text _ => .string
  | boolean _ => .boolean
  | blob _ => .blob
  | uuid _ => .uuid
  | placeholder => .questionMark

def isExact : Literal → Bool
  | integer n => isWord64 n
  | float _ => false
  | _ => true

variable {l : Literal}

theorem display_mem_properForm (h : l.isExact = true) :
    l.display.toList ∈ l.tokenKind.properForm := by
  cases l with
  | integer n =>
    rw [display, String.toList_ofList]
    exact Form.integerText_mem_integer n
  | float x => cases h
  | text s =>
    rw [display, String.toList_ofList]
    exact Form.enquote_mem_enclosed '\'' s.toList
  | boolean b =>
    cases b with
    | false => exact ⟨"false", by decide, by decide⟩
    | true => exact ⟨"true", by decide, by decide⟩
  | blob bytes =>
    rw [display, String.toList_ofList]
    exact Form.hexOfBytes_mem_blob bytes
  | uuid u =>
    rw [display, String.toList_ofList]
    exact Form.text_mem_uuid u
  | placeholder => rfl

theorem decode_display (h : l.isExact = true) (start stop : Nat) :
    decode ⟨l.tokenKind, l.display, start, stop⟩ = .ok l := by
  cases l with
  | integer n =>
    have hword : isWord64 n = true := h
    have hinteger : integer? (integerText n) = some n := by
      simp [integer?, integer?_integerText, hword]
    simp [decode, tokenKind, display, hinteger]
  | float x => cases h
  | text s => simp [decode, tokenKind, display, unquote_enquote]
  | boolean b => cases b <;> simp [decode, tokenKind, display, lower]
  | blob bytes =>
    have hdigits : dropBytes 2 ('0' :: 'x' :: hexOfBytes bytes) = hexOfBytes bytes :=
      dropBytes_byteSize_append ['0', 'x'] _
    simp [decode, tokenKind, display, hdigits, bytesOfHex?_hexOfBytes]
  | uuid u => simp [decode, tokenKind, display, Uuid.ofText?_text]
  | placeholder => rfl

def token (l : Literal) : Token :=
  ⟨l.tokenKind, l.display, 0, l.display.utf8ByteSize⟩

/-- The text of a literal that is no float is one token of its kind and nothing else, and decoding
that token gives the literal back. -/
theorem display_reads_back (h : l.isExact = true) :
    tokenize l.display = [l.token, .endOfInput l.display.utf8ByteSize] ∧
      ofToken l.token = .ok l := by
  have htoken := isToken_of_properForm (display_mem_properForm h)
  constructor
  · have hkeyword : l.tokenKind ≠ .keyword := by cases l <;> simp [tokenKind]
    exact tokenize_as_typed htoken hkeyword
  · rw [ofToken, token, decode_display h]
    rfl

/-- A text that begins and ends with quotes, and the least integer. -/
theorem display_reads_back_quotes :
    ((text "'é''").isExact = true ∧
      tokenize "'''é'''''" = [⟨.string, "'''é'''''", 0, 10⟩, .endOfInput 10] ∧
      ofToken ⟨.string, "'''é'''''", 0, 10⟩ = .ok (text "'é''")) ∧
    ((integer (-9223372036854775808)).isExact = true ∧
      ofToken (integer (-9223372036854775808)).token = .ok (integer (-9223372036854775808))) := by
  have htext : (text "'é''").display = "'''é'''''" := by decide +kernel
  have hexact : (text "'é''").isExact = true := rfl
  have hquotes := display_reads_back hexact
  have hleast : (integer (-9223372036854775808)).isExact = true := by decide
  rw [token, htext] at hquotes
  exact ⟨⟨hexact, hquotes⟩, hleast, (display_reads_back hleast).2⟩

end Literal

end CqlConsole
