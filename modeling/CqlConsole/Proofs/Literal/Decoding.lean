import CqlConsole.Literal
import CqlConsole.Proofs.Number.Numerals
import CqlConsole.Proofs.Token.Exactness

/-!
# What tokens decode to

The text of a token has the form of its kind, so the readers of numerals, bytes
and identifiers find what they look for. What is left to fail is the range of an
integer and the parity of the digits of a blob, and the error then shows the
text of the token.
-/

set_option autoImplicit false

namespace CqlConsole

namespace Number

open CqlConsole.Run CqlConsole.Text

variable {c : Char} {s : List Char} {bytes : List UInt8}

def halves (b : UInt8) : List Nat :=
  [b.toNat / 16, b.toNat % 16]

theorem digitChar_hexValue (h : isHexDigit c = true) :
    hexValue c < 16 ∧ Nat.digitChar (hexValue c) = c.toLower := by
  have hsmall : c.toNat < 103 := by
    rw [isHexDigit_iff] at h
    omega
  have hall : ∀ n < 103, isHexDigit (Char.ofNat n) = true →
      hexValue (Char.ofNat n) < 16 ∧
        Nat.digitChar (hexValue (Char.ofNat n)) = (Char.ofNat n).toLower := by decide
  have hvalue := hall c.toNat hsmall
  rw [Char.ofNat_toNat] at hvalue
  exact hvalue h

theorem halves_eq_iff {m n : Nat} (hm : m < 16) (hn : n < 16) {b : UInt8} :
    UInt8.ofNat (16 * m + n) = b ↔ m = b.toNat / 16 ∧ n = b.toNat % 16 := by
  have hb := b.toNat_lt
  have hvalue : (UInt8.ofNat (16 * m + n)).toNat = 16 * m + n := by
    rw [UInt8.toNat_ofNat']
    exact Nat.mod_eq_of_lt (show 16 * m + n < 2 ^ 8 by omega)
  rw [← UInt8.toNat_inj, hvalue]
  omega

theorem bytesOfHex?_cons {a b : Char} (h : (isHexDigit a && isHexDigit b) = true) :
    bytesOfHex? (a :: b :: s) =
      (bytesOfHex? s).map (UInt8.ofNat (16 * hexValue a + hexValue b) :: ·) := by
  rw [bytesOfHex?, if_pos h]

theorem bytesOfHex?_eq_some_iff (hs : ∀ c ∈ s, isHexDigit c = true) :
    bytesOfHex? s = some bytes ↔ s.map hexValue = bytes.flatMap halves := by
  induction s using bytesOfHex?.induct generalizing bytes with
  | case1 => cases bytes <;> simp [bytesOfHex?, halves]
  | case2 a => cases bytes <;> simp [bytesOfHex?, halves]
  | case3 a b s hpair ih =>
    simp only [List.forall_mem_cons] at hs
    obtain ⟨ha, hb, hs⟩ := hs
    rw [bytesOfHex?_cons hpair]
    cases bytes with
    | nil => simp
    | cons x bytes =>
      have hx := halves_eq_iff (digitChar_hexValue ha).1 (digitChar_hexValue hb).1 (b := x)
      simp only [Option.map_eq_some_iff, List.cons.injEq, hx, ih hs, List.map_cons,
        List.flatMap_cons, halves, List.cons_append, List.nil_append]
      constructor
      · rintro ⟨rest, hrest, ⟨hhigh, hlow⟩, rfl⟩
        exact ⟨hhigh, hlow, hrest⟩
      · rintro ⟨hhigh, hlow, hrest⟩
        exact ⟨bytes, hrest, ⟨hhigh, hlow⟩, rfl⟩
  | case4 a b s hpair =>
    simp only [List.forall_mem_cons] at hs
    simp [hs.1, hs.2.1] at hpair

/-- Only a digit without a partner is in the way of reading. -/
theorem exists_bytesOfHex?_iff (hs : ∀ c ∈ s, isHexDigit c = true) :
    (∃ bytes, bytesOfHex? s = some bytes) ↔ s.length % 2 = 0 := by
  induction s using bytesOfHex?.induct with
  | case1 => simp [bytesOfHex?]
  | case2 a => simp [bytesOfHex?]
  | case3 a b s hpair ih =>
    simp only [List.forall_mem_cons] at hs
    have hlength : (a :: b :: s).length % 2 = s.length % 2 := by
      simp only [List.length_cons]
      omega
    rw [bytesOfHex?_cons hpair, hlength, ← ih hs.2.2]
    simp
  | case4 a b s hpair =>
    simp only [List.forall_mem_cons] at hs
    simp [hs.1, hs.2.1] at hpair

/-- The bytes that were read are written with the same digits in lower case. -/
theorem hexOfBytes_of_bytesOfHex? (hs : ∀ c ∈ s, isHexDigit c = true)
    (h : bytesOfHex? s = some bytes) : hexOfBytes bytes = lower s := by
  have hwrite : ∀ bs, hexOfBytes bs = (bs.flatMap halves).map Nat.digitChar := by
    intro bs
    induction bs with
    | nil => rfl
    | cons b bs ih => simp [hexOfBytes, halves, ih]
  rw [hwrite, ← (bytesOfHex?_eq_some_iff hs).1 h, List.map_map, lower]
  exact List.map_congr_left fun c hc => (digitChar_hexValue (hs c hc)).2

end Number

namespace Uuid

open CqlConsole.Form CqlConsole.Number CqlConsole.Text

variable {s : List Char}

/-- The first of several groups, and what stands behind the sign after it. -/
theorem mem_groups_cons {n m : Nat} {ns : List Nat} (h : s ∈ groups (n :: m :: ns)) :
    ∃ a r, s = a ++ '-' :: r ∧ a.length = n ∧ (∀ c ∈ a, isHexDigit c = true) ∧
      r ∈ groups (m :: ns) := by
  obtain ⟨a, ha, t, ht, rfl⟩ := Language.mem_mul.1 h
  obtain ⟨r, hr, rfl⟩ := mem_mark_mul.1 ht
  obtain ⟨hlength, hall⟩ := mem_one_pow.1 ha
  exact ⟨a, r, rfl, hlength, List.all_eq_true.1 hall, hr⟩

/-- A text of the form of identifiers is thirty-two digits in groups. -/
theorem exists_digits (h : s ∈ Form.uuid) : ∃ digits : List Char,
    digits.length = 32 ∧ (∀ c ∈ digits, isHexDigit c = true) ∧ grouped digits = s := by
  rw [mem_uuid, Run.isUuid, ← mem_groups] at h
  obtain ⟨a, t, rfl, ha, ha', ht⟩ := mem_groups_cons h
  obtain ⟨b, u, rfl, hb, hb', hu⟩ := mem_groups_cons ht
  obtain ⟨c, v, rfl, hc, hc', hv⟩ := mem_groups_cons hu
  obtain ⟨d, e, rfl, hd, hd', he⟩ := mem_groups_cons hv
  obtain ⟨he, he'⟩ := mem_one_pow.1 he
  refine ⟨a ++ (b ++ (c ++ (d ++ e))), by simp [ha, hb, hc, hd, he], ?_, ?_⟩
  · simp only [List.forall_mem_append]
    exact ⟨ha', hb', hc', hd', List.all_eq_true.1 he'⟩
  · simp [grouped, List.drop_append, List.drop_eq_nil_of_le, ha, hb, hc, hd]

theorem grouped_lower (digits : List Char) : grouped (lower digits) = lower (grouped digits) := by
  simp [grouped, lower, List.map_take, List.map_drop]

/-- A text of the form of identifiers is read, and the identifier is written in lower case. -/
theorem exists_ofText? (h : s ∈ Form.uuid) : ∃ u, ofText? s = some u ∧ u.text = lower s := by
  obtain ⟨digits, hlength, hdigits, rfl⟩ := exists_digits h
  have hsize := length_grouped hlength
  obtain ⟨bytes, hbytes⟩ := (exists_bytesOfHex?_iff hdigits).2 (by omega)
  have hwritten := hexOfBytes_of_bytesOfHex? hdigits hbytes
  have hcount : bytes.length = 16 := by
    have hboth := congrArg List.length hwritten
    rw [hexOfBytes_length, lower, List.length_map] at hboth
    omega
  refine ⟨⟨bytes, hcount⟩, ?_, ?_⟩
  · have hbare : unwrapped (grouped digits) = grouped digits := by simp [unwrapped, hsize]
    rw [ofText?, if_neg (by omega), hbare, ungrouped?_grouped hlength, Option.bind_some, ofDigits?,
      hbytes, Option.bind_some, dif_pos hcount]
  · rw [text, hwritten, grouped_lower]

end Uuid

namespace Literal

open CqlConsole.Form CqlConsole.Number CqlConsole.Run CqlConsole.Text

variable {input : String} {t : Token}

theorem text_mem_properForm {k : TokenKind} (ht : t ∈ tokenize input) (hk : t.kind = k)
    (hconstant : k.isConstant = true) : t.text.toList ∈ k.properForm := by
  subst hk
  rw [tokenize, List.mem_append, List.mem_singleton, List.mem_map] at ht
  rcases ht with ⟨l, hl, rfl⟩ | rfl
  · have hkeyword : l.kind ≠ .keyword := by
      intro heq
      rw [Lexeme.token, heq] at hconstant
      cases hconstant
    have herror : l.kind ≠ .error := by
      intro heq
      rw [Lexeme.token, heq] at hconstant
      cases hconstant
    have htext : l.token.text.toList = l.source := by
      rw [Lexeme.token, String.toList_ofList, Lexeme.text, if_neg hkeyword]
    rw [htext]
    exact properForm_kind (isToken_of_mem_scan hl).1 herror
  · cases hconstant

def hexDigits (t : Token) : List Char :=
  t.text.toList.drop 2

/-- The tokens that no value belongs to: those that are no constants and no place holders, the
integers beyond sixty-four bits, and the blobs with an odd number of digits. -/
def Valueless (t : Token) : Prop :=
  (t.kind.isConstant = false ∧ t.kind ≠ .questionMark) ∨
    (t.kind = .integer ∧
      ¬(-2 ^ 63 ≤ signedValue t.text.toList ∧ signedValue t.text.toList ≤ 2 ^ 63 - 1)) ∨
    (t.kind = .blob ∧ (hexDigits t).length % 2 = 1)

theorem ofToken_eq_ok {v : Literal} : ofToken t = .ok v ↔ decode t = .ok v := by
  rw [ofToken]
  cases decode t <;> simp [Except.mapError]

theorem ofToken_error {e : SyntaxError} (h : ofToken t = .error e) :
    ∃ expected, e = .unexpected expected t.text := by
  rw [ofToken] at h
  cases hd : decode t with
  | error expected =>
    rw [hd] at h
    cases h
    exact ⟨expected, rfl⟩
  | ok v =>
    rw [hd] at h
    cases h

theorem isWord64_iff {n : Int} : isWord64 n = true ↔ -2 ^ 63 ≤ n ∧ n ≤ 2 ^ 63 - 1 := by
  simp [isWord64]

/-- A reader that finds a value gives it, and one that finds none gives an error. -/
theorem elim_eq_ok {α : Type} {found : Option α} {f : α → Literal} {expected : String}
    {v : Literal} :
    (found.map f).elim (.error expected) .ok = (.ok v : Except String Literal) ↔
      ∃ a, found = some a ∧ v = f a := by
  cases found with
  | none => simp
  | some a => simp [eq_comm]

theorem ofToken_integer (ht : t ∈ tokenize input) (hk : t.kind = .integer) {v : Literal} :
    ofToken t = .ok v ↔ v = integer (signedValue t.text.toList) ∧
      -2 ^ 63 ≤ signedValue t.text.toList ∧ signedValue t.text.toList ≤ 2 ^ 63 - 1 := by
  have hform := text_mem_properForm ht hk rfl
  rw [ofToken_eq_ok, decode, hk, elim_eq_ok, integer?, integer?_of_integer hform]
  simp only [Option.filter_eq_some_iff, Option.some.injEq, isWord64_iff]
  constructor
  · rintro ⟨n, ⟨rfl, hrange⟩, rfl⟩
    exact ⟨rfl, hrange⟩
  · rintro ⟨rfl, hrange⟩
    exact ⟨_, ⟨rfl, hrange⟩, rfl⟩

theorem blob_text (ht : t ∈ tokenize input) (hk : t.kind = .blob) :
    ∃ x, (x = 'x' ∨ x = 'X') ∧ t.text.toList = '0' :: x :: hexDigits t ∧
      dropBytes 2 t.text.toList = hexDigits t ∧ ∀ c ∈ hexDigits t, isHexDigit c = true := by
  have hform := text_mem_properForm ht hk rfl
  have hblob := mem_blob.1 hform
  unfold isBlob at hblob
  split at hblob
  · rename_i x s htext
    simp only [Bool.and_eq_true, Bool.or_eq_true, beq_iff_eq, List.all_eq_true] at hblob
    obtain ⟨hx, hs⟩ := hblob
    have hdigits : hexDigits t = s := by
      rw [hexDigits, htext]
      rfl
    have hsize : byteSize ['0', x] = 2 := by rcases hx with rfl | rfl <;> rfl
    have hdrop := dropBytes_byteSize_append ['0', x] s
    rw [hsize] at hdrop
    rw [hdigits, htext]
    exact ⟨x, hx, rfl, hdrop, hs⟩
  · cases hblob

theorem ofToken_blob (ht : t ∈ tokenize input) (hk : t.kind = .blob) {v : Literal} :
    ofToken t = .ok v ↔
      ∃ bytes, v = blob bytes ∧ (hexDigits t).map hexValue = bytes.flatMap halves := by
  obtain ⟨x, -, -, hdrop, hdigits⟩ := blob_text ht hk
  rw [ofToken_eq_ok, decode, hk, elim_eq_ok, hdrop]
  simp only [bytesOfHex?_eq_some_iff hdigits, and_comm]

theorem ofToken_float (ht : t ∈ tokenize input) (hk : t.kind = .float) :
    ∃ x, Binary64.ofText? t.text.toList = some x ∧ ofToken t = .ok (float x) := by
  have hform := text_mem_properForm ht hk rfl
  obtain ⟨x, hx⟩ := Binary64.exists_ofText? hform
  refine ⟨x, hx, ?_⟩
  rw [ofToken_eq_ok, decode, hk, elim_eq_ok]
  exact ⟨x, hx, rfl⟩

theorem ofToken_uuid (ht : t ∈ tokenize input) (hk : t.kind = .uuid) :
    ∃ u, ofToken t = .ok (uuid u) ∧ u.text = lower t.text.toList := by
  have hform := text_mem_properForm ht hk rfl
  obtain ⟨u, hu, htext⟩ := Uuid.exists_ofText? hform
  refine ⟨u, ?_, htext⟩
  rw [ofToken_eq_ok, decode, hk, elim_eq_ok]
  exact ⟨u, hu, rfl⟩

theorem exists_ofToken_iff (ht : t ∈ tokenize input) :
    (∃ v, ofToken t = .ok v) ↔ ¬Valueless t := by
  cases hk : t.kind with
  | integer => simp [Valueless, hk, TokenKind.isConstant, ofToken_integer ht hk]
  | blob =>
    obtain ⟨x, -, -, -, hdigits⟩ := blob_text ht hk
    have heven := exists_bytesOfHex?_iff hdigits
    simp only [bytesOfHex?_eq_some_iff hdigits] at heven
    simp [Valueless, hk, TokenKind.isConstant, ofToken_blob ht hk, heven]
  | float =>
    obtain ⟨x, -, hx⟩ := ofToken_float ht hk
    simp [Valueless, hk, TokenKind.isConstant, hx]
  | uuid =>
    obtain ⟨u, hu, -⟩ := ofToken_uuid ht hk
    simp [Valueless, hk, TokenKind.isConstant, hu]
  | string | boolean | questionMark =>
    simp [Valueless, hk, TokenKind.isConstant, ofToken_eq_ok, decode]
  | _ => simp [Valueless, hk, TokenKind.isConstant, ofToken_eq_ok, decode]

/-- Decoding a token of an input fails exactly on the tokens that no value belongs to, with an error
that shows the text of the token. An integer decodes to its decimal value, and a blob, which is
sliced behind its two signs, to the bytes whose digits it spells; floats and identifiers always
decode. -/
theorem ofToken_decodes (ht : t ∈ tokenize input) :
    ((∃ e, ofToken t = .error e) ↔ Valueless t) ∧
      (∀ e, ofToken t = .error e → ∃ expected, e = .unexpected expected t.text) ∧
      (t.kind = .integer → ∀ v, ofToken t = .ok v → v = integer (signedValue t.text.toList)) ∧
      (t.kind = .blob →
        (∃ x, (x = 'x' ∨ x = 'X') ∧ t.text.toList = '0' :: x :: hexDigits t ∧
          dropBytes 2 t.text.toList = hexDigits t) ∧
        ∀ v, ofToken t = .ok v →
          ∃ bytes, v = blob bytes ∧ (hexDigits t).map hexValue = bytes.flatMap halves) ∧
      (t.kind = .float → ∃ x, ofToken t = .ok (float x)) ∧
      (t.kind = .uuid → ∃ u, ofToken t = .ok (uuid u) ∧ u.text = lower t.text.toList) := by
  have hfails : (∃ e, ofToken t = .error e) ↔ ¬∃ v, ofToken t = .ok v := by
    cases ofToken t <;> simp
  refine ⟨?_, fun e => ofToken_error, ?_, ?_, ?_, ?_⟩
  · rw [hfails, exists_ofToken_iff ht, not_not]
  · intro hk v hv
    exact ((ofToken_integer ht hk).1 hv).1
  · intro hk
    obtain ⟨x, hx, htext, hdrop, -⟩ := blob_text ht hk
    exact ⟨⟨x, hx, htext, hdrop⟩, fun v hv => (ofToken_blob ht hk).1 hv⟩
  · intro hk
    obtain ⟨x, -, hx⟩ := ofToken_float ht hk
    exact ⟨x, hx⟩
  · exact ofToken_uuid ht

/-- One below the least integer, and three digits, have no value. -/
theorem ofToken_decodes_edges :
    (⟨.integer, "-9223372036854775809", 0, 20⟩ ∈ tokenize "-9223372036854775809 0xABc" ∧
      ∃ e, ofToken ⟨.integer, "-9223372036854775809", 0, 20⟩ = .error e) ∧
    (⟨.blob, "0xABc", 21, 26⟩ ∈ tokenize "-9223372036854775809 0xABc" ∧
      ∃ e, ofToken ⟨.blob, "0xABc", 21, 26⟩ = .error e) := by
  have hinteger : ⟨.integer, "-9223372036854775809", 0, 20⟩ ∈
      tokenize "-9223372036854775809 0xABc" := by decide +kernel
  have hblob : ⟨.blob, "0xABc", 21, 26⟩ ∈ tokenize "-9223372036854775809 0xABc" := by
    decide +kernel
  have hrange : Valueless ⟨.integer, "-9223372036854775809", 0, 20⟩ :=
    Or.inr (Or.inl ⟨rfl, by decide +kernel⟩)
  have hodd : Valueless ⟨.blob, "0xABc", 21, 26⟩ := Or.inr (Or.inr ⟨rfl, rfl⟩)
  exact ⟨⟨hinteger, (ofToken_decodes hinteger).1.2 hrange⟩,
    hblob, (ofToken_decodes hblob).1.2 hodd⟩

end Literal

end CqlConsole
