import CqlConsole.Proofs.Text.Encoding
import CqlConsole.Proofs.Token.Solid

/-!
# Tokens tile the input

No byte of an input is lost and none is read twice: the tokens lie one behind
the other from the first byte to the last, none of them is empty, and each shows
the piece of the input it covers.
-/

set_option autoImplicit false

namespace CqlConsole

open CqlConsole.Text

/-- The tokens lie one behind the other, from byte `lo` to byte `hi`. -/
def Contiguous : Nat → List Token → Nat → Prop
  | lo, [], hi => lo = hi
  | lo, t :: ts, hi => t.start = lo ∧ Contiguous t.stop ts hi

namespace Lexeme

theorem contiguous_place (n : Nat) (rs : List (List Char)) :
    Contiguous n ((place n rs).map token) (n + byteSize rs.flatten) := by
  induction rs generalizing n with
  | nil => rfl
  | cons r rs ih =>
    refine ⟨rfl, ?_⟩
    have hrest := ih (n + byteSize r)
    rw [Nat.add_assoc, ← byteSize_append] at hrest
    exact hrest

theorem mem_place {n : Nat} {rs : List (List Char)} {l : Lexeme} (h : l ∈ place n rs) :
    ∃ ps qs, rs = ps ++ l.source :: qs ∧ l.start = n + byteSize ps.flatten := by
  induction rs generalizing n with
  | nil => cases h
  | cons r rs ih =>
    rcases List.mem_cons.1 h with rfl | h
    · exact ⟨[], rs, rfl, rfl⟩
    · obtain ⟨ps, qs, rfl, hstart⟩ := ih h
      refine ⟨r :: ps, qs, rfl, ?_⟩
      rw [hstart, List.flatten_cons, byteSize_append, Nat.add_assoc]

theorem source_ne_nil {s : List Char} {l : Lexeme} (h : l ∈ scan s) : l.source ≠ [] := by
  obtain ⟨ps, qs, hsplit, -⟩ := mem_place h
  exact Run.split_ne_nil s l.source (by simp [hsplit])

/-- A lexeme covers the bytes of its source, which stand between what is before and after it. -/
theorem mem_scan {s : List Char} {l : Lexeme} (h : l ∈ scan s) :
    ∃ before after, s = before ++ l.source ++ after ∧ l.start = byteSize before := by
  obtain ⟨ps, qs, hsplit, hstart⟩ := mem_place h
  refine ⟨ps.flatten, qs.flatten, ?_, by rw [hstart, Nat.zero_add]⟩
  rw [← Run.split_flatten s, hsplit, List.flatten_append, List.flatten_cons, List.append_assoc]

end Lexeme

def Token.source (input : String) (t : Token) : List Char :=
  slice t.start t.stop input.toList

theorem source_token {input : String} {l : Lexeme} (h : l ∈ Lexeme.scan input.toList) :
    l.token.source input = l.source := by
  obtain ⟨before, after, hinput, hstart⟩ := Lexeme.mem_scan h
  have hstop : l.token.stop = byteSize before + byteSize l.source := by
    rw [← hstart]
    rfl
  have hlow : l.token.start = byteSize before := hstart
  rw [Token.source, hinput, hstop, hlow, List.append_assoc, slice_append]

/-- The tokens of an input, the end left out, cover it without a gap or an overlap. Each covers at
least one byte, starts and stops between characters, and shows what it covers: a keyword in lower
case, any other token as it was typed. Behind them comes the end, and only there. -/
theorem tokenize_tiles (input : String) :
    ∃ ts, tokenize input = ts ++ [.endOfInput input.utf8ByteSize] ∧
      Contiguous 0 ts input.utf8ByteSize ∧
      ∀ t ∈ ts, t.kind ≠ .endOfInput ∧ t.start < t.stop ∧
        ∃ before piece after : String, input = before ++ piece ++ after ∧
          t.start = before.utf8ByteSize ∧ t.stop = (before ++ piece).utf8ByteSize ∧
          t.text = if t.kind = .keyword then String.ofList (lower piece.toList) else piece := by
  refine ⟨(Lexeme.scan input.toList).map Lexeme.token, by rw [tokenize, utf8ByteSize_eq], ?_, ?_⟩
  · have htiles := Lexeme.contiguous_place 0 (Run.split input.toList)
    rwa [Run.split_flatten, Nat.zero_add, ← utf8ByteSize_eq] at htiles
  · intro t ht
    obtain ⟨l, hl, rfl⟩ := List.mem_map.1 ht
    obtain ⟨before, after, hinput, hstart⟩ := Lexeme.mem_scan hl
    have hsize := byteSize_pos (Lexeme.source_ne_nil hl)
    have hstop : l.token.stop = l.start + byteSize l.source := rfl
    refine ⟨Run.kind_ne_endOfInput l.source, ?_, String.ofList before, String.ofList l.source,
      String.ofList after, ?_, ?_, ?_, ?_⟩
    · show l.start < l.token.stop
      omega
    · rw [← String.ofList_append, ← String.ofList_append, ← hinput, String.ofList_toList]
    · rw [utf8ByteSize_ofList]
      exact hstart
    · rw [hstop, hstart, String.utf8ByteSize_append, utf8ByteSize_ofList, utf8ByteSize_ofList]
    · have hkind : l.token.kind = l.kind := rfl
      rw [hkind, String.toList_ofList]
      show String.ofList l.text = _
      rw [Lexeme.text]
      split <;> rfl

end CqlConsole
