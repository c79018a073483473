import CqlConsole.Text.Bytes
import Mathlib.Algebra.Group.Nat.Defs
import Mathlib.Data.List.Lex
import Mathlib.Tactic.SplitIfs

/-!
# The bytes of a text

The UTF-8 form of a text orders texts as their characters do: a character with a
smaller code point has the smaller bytes, whatever follows it. The first byte of
a character tells how many follow, and they carry the code point six bits each.
-/

set_option autoImplicit false

namespace CqlConsole.Text

def bytes (s : List Char) : List UInt8 :=
  s.flatMap String.utf8EncodeChar

@[simp] theorem bytes_nil : bytes [] = [] := rfl

@[simp] theorem bytes_cons (c : Char) (s : List Char) :
    bytes (c :: s) = String.utf8EncodeChar c ++ bytes s := rfl

theorem bytes_append (s t : List Char) : bytes (s ++ t) = bytes s ++ bytes t :=
  List.flatMap_append

theorem length_bytes (s : List Char) : (bytes s).length = byteSize s := by
  induction s with
  | nil => rfl
  | cons c s ih => rw [bytes_cons, List.length_append, String.length_utf8EncodeChar, ih,
      byteSize_cons]

theorem utf8ByteSize_ofList (s : List Char) : (String.ofList s).utf8ByteSize = byteSize s := by
  induction s with
  | nil => rfl
  | cons c s ih => simp [String.ofList_cons, ih]

theorem utf8ByteSize_eq (s : String) : s.utf8ByteSize = byteSize s.toList := by
  rw [← utf8ByteSize_ofList, String.ofList_toList]

section Sextets

def sextets : Nat → Nat → List UInt8
  | 0, _ => []
  | k + 1, n => UInt8.ofNat (n / 64 ^ k % 64 + 128) :: sextets k n

/-- The smaller number has the smaller quotient, or the same one and the smaller remainder. -/
theorem div_lt_or_mod_lt {a b : Nat} (m : Nat) (h : a < b) :
    a / m < b / m ∨ a / m = b / m ∧ a % m < b % m := by
  by_cases hdiv : a / m < b / m
  · exact Or.inl hdiv
  · have hle : a / m ≤ b / m := Nat.div_le_div_right (Nat.le_of_lt h)
    have heq : a / m = b / m := by omega
    have ha := Nat.div_add_mod a m
    have hb := Nat.div_add_mod b m
    rw [heq] at ha
    exact Or.inr ⟨heq, by omega⟩

theorem ofNat_cons_lt {a b : Nat} {s t : List UInt8} (hb : b < 256)
    (h : a < b ∨ a = b ∧ s < t) : UInt8.ofNat a :: s < UInt8.ofNat b :: t := by
  rw [List.cons_lt_cons_iff]
  rcases h with h | ⟨rfl, h⟩
  · refine Or.inl ?_
    rw [UInt8.lt_iff_toNat_lt, UInt8.toNat_ofNat', UInt8.toNat_ofNat', Nat.mod_eq_of_lt (by omega),
      Nat.mod_eq_of_lt (by omega)]
    exact h
  · exact Or.inr ⟨rfl, h⟩

theorem sextets_lt {a b : Nat} (u v : List UInt8) (k : Nat) (h : a % 64 ^ k < b % 64 ^ k) :
    sextets k a ++ u < sextets k b ++ v := by
  induction k with
  | zero => omega
  | succ k ih =>
    have hdigits := div_lt_or_mod_lt (64 ^ k) h
    rw [Nat.pow_succ, Nat.mod_mul_right_div_self, Nat.mod_mul_right_div_self,
      Nat.mod_mul_right_mod, Nat.mod_mul_right_mod] at hdigits
    have hb : b / 64 ^ k % 64 < 64 := Nat.mod_lt _ (by decide)
    refine ofNat_cons_lt (by omega) ?_
    rcases hdigits with hlt | ⟨heq, hlt⟩
    · exact Or.inl (by omega)
    · exact Or.inr ⟨by rw [heq], ih hlt⟩

def leading (mark k n : Nat) : List UInt8 :=
  UInt8.ofNat (n / 64 ^ k + mark) :: sextets k n

section Leading

variable {a b mark mark' k k' : Nat} (u v : List UInt8)

theorem leading_lt_leading (hb : b / 64 ^ k' + mark' < 256)
    (h : a / 64 ^ k + mark < b / 64 ^ k' + mark') :
    leading mark k a ++ u < leading mark' k' b ++ v :=
  ofNat_cons_lt hb (Or.inl h)

theorem leading_lt (hb : b / 64 ^ k + mark < 256) (h : a < b) :
    leading mark k a ++ u < leading mark k b ++ v := by
  refine ofNat_cons_lt hb ?_
  rcases div_lt_or_mod_lt (64 ^ k) h with hlt | ⟨heq, hlt⟩
  · exact Or.inl (by omega)
  · exact Or.inr ⟨by rw [heq], sextets_lt u v k hlt⟩

end Leading

theorem toNat_lt (c : Char) : c.toNat < 1114112 := by
  have hvalid := c.valid
  simp only [UInt32.isValidChar, Nat.isValidChar, ← Char.toNat_val] at hvalid ⊢
  omega

theorem utf8EncodeChar_eq (c : Char) :
    String.utf8EncodeChar c =
      if c.toNat ≤ 127 then leading 0 0 c.toNat
      else if c.toNat ≤ 2047 then leading 192 1 c.toNat
      else if c.toNat ≤ 65535 then leading 224 2 c.toNat
      else leading 240 3 c.toNat := by
  have hc := toNat_lt c
  simp only [String.utf8EncodeChar, Char.toNat_val, leading, sextets]
  generalize c.toNat = n at hc
  split_ifs
  · simp
  · rw [Nat.mod_eq_of_lt (show n / 64 < 32 by omega)]
    simp
  · rw [Nat.mod_eq_of_lt (show n / 4096 < 16 by omega)]
    simp
  · rw [Nat.mod_eq_of_lt (show n / 262144 < 8 by omega)]
    simp

/-- The first bytes of characters of fewer bytes are smaller, and the rest is read as digits. -/
theorem utf8EncodeChar_lt {c d : Char} (u v : List UInt8) (h : c.toNat < d.toNat) :
    String.utf8EncodeChar c ++ u < String.utf8EncodeChar d ++ v := by
  have hd := toNat_lt d
  rw [utf8EncodeChar_eq, utf8EncodeChar_eq]
  split_ifs
  all_goals first
    | omega
    | exact leading_lt_leading u v (by omega) (by omega)
    | exact leading_lt u v (by omega) h

end Sextets

section Starts

variable {s t : List Char}

/-- No character's bytes begin those of another. -/
theorem eq_of_utf8EncodeChar_append {c d : Char} {u v : List UInt8}
    (h : String.utf8EncodeChar c ++ u = String.utf8EncodeChar d ++ v) : c = d := by
  rcases Nat.lt_trichotomy c.toNat d.toNat with hlt | heq | hgt
  · have hbytes := utf8EncodeChar_lt u v hlt
    rw [h] at hbytes
    exact absurd hbytes (List.lt_irrefl _)
  · exact Char.toNat_inj.1 heq
  · have hbytes := utf8EncodeChar_lt v u hgt
    rw [h] at hbytes
    exact absurd hbytes (List.lt_irrefl _)

/-- A text starts with the bytes of another only if it starts with its characters. -/
theorem bytes_prefix_iff : bytes s <+: bytes t ↔ s <+: t := by
  constructor
  · intro h
    induction s generalizing t with
    | nil => exact List.nil_prefix
    | cons c s ih =>
      obtain ⟨r, hr⟩ := h
      cases t with
      | nil => simp at hr
      | cons d t =>
        rw [bytes_cons, bytes_cons, List.append_assoc] at hr
        obtain rfl := eq_of_utf8EncodeChar_append hr
        exact List.cons_prefix_cons.2 ⟨rfl, ih ⟨r, List.append_cancel_left hr⟩⟩
  · rintro ⟨u, rfl⟩
    exact ⟨bytes u, (bytes_append s u).symm⟩

theorem take_bytes (h : s <+: t) : (bytes t).take (byteSize s) = bytes s := by
  rw [← length_bytes]
  exact (List.prefix_iff_eq_take.1 (bytes_prefix_iff.2 h)).symm

/-- The valid positions of a text are the sizes of its starts. -/
theorem isValid_iff (text : String) (n : Nat) :
    String.Pos.Raw.IsValid text ⟨n⟩ ↔ ∃ p, p <+: text.toList ∧ n = byteSize p := by
  rw [String.Pos.Raw.isValid_iff_exists_append]
  constructor
  · rintro ⟨front, back, rfl, hn⟩
    refine ⟨front.toList, ⟨back.toList, String.toList_append.symm⟩, ?_⟩
    rw [← utf8ByteSize_eq]
    exact congrArg String.Pos.Raw.byteIdx hn
  · rintro ⟨p, ⟨u, hu⟩, rfl⟩
    refine ⟨String.ofList p, String.ofList u, ?_, ?_⟩
    · rw [← String.ofList_append, hu, String.ofList_toList]
    · rw [← utf8ByteSize_ofList]
      rfl

end Starts

end CqlConsole.Text
