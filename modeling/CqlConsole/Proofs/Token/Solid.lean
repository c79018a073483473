import CqlConsole.Token.Cursor
import Mathlib.Tactic.SplitIfs

/-!
# Solid tokens

The tokens of an input that are neither white space nor its end. A cursor hands
them out one by one, and what it hands out depends on nothing else.
-/

set_option autoImplicit false

namespace CqlConsole

namespace Run

theorem exponentKind_cases (k : TokenKind) (s : List Char) :
    exponentKind k s = k ∨ exponentKind k s = .float ∨ exponentKind k s = .error := by
  cases s with
  | nil => exact .inl rfl
  | cons c s =>
    rw [exponentKind]
    split <;> simp

theorem numberKind_cases (s : List Char) :
    numberKind s = .error ∨ numberKind s = .integer ∨ numberKind s = .float := by
  rw [numberKind]
  split
  · exact .inl rfl
  · split
    · rename_i rest _
      rcases exponentKind_cases .float (rest.dropWhile Char.isDigit) with h | h | h <;> simp [h]
    · rcases exponentKind_cases .integer ((dropMinus s).dropWhile Char.isDigit) with h | h | h <;>
        simp [h]

def plainKinds : List TokenKind :=
  [.error, .whitespace, .keyword, .identifier, .integer, .float, .string]

theorem mem_plainKinds (s : List Char) : plainKind s ∈ plainKinds := by
  cases s with
  | nil => simp [plainKind, plainKinds]
  | cons c s =>
    rw [plainKind]
    split_ifs <;> rcases numberKind_cases (c :: s) with h | h | h <;> simp [h, plainKinds]

theorem plainKind_ne {k : TokenKind} (hk : k ∉ plainKinds) (s : List Char) : plainKind s ≠ k :=
  fun h => hk (h ▸ mem_plainKinds s)

def punctuationKinds : List TokenKind :=
  [.comma, .bracket, .semicolon, .dot, .questionMark, .colon, .star]

theorem mem_punctuationKinds {s : List Char} {k : TokenKind} (h : punctuationKind s = some k) :
    k ∈ punctuationKinds := by
  unfold punctuationKind at h
  split at h
  case h_9 => cases h
  all_goals
    cases h
    decide

theorem kind_ne_endOfInput (s : List Char) : kind s ≠ .endOfInput := by
  have hp : plainKind s ≠ .endOfInput := plainKind_ne (by decide) s
  rw [kind]
  split_ifs
  · simp
  · simp
  · simp
  · simp
  · simp
  · cases h : punctuationKind s with
    | none => exact hp
    | some k =>
      rintro rfl
      exact absurd (mem_punctuationKinds h) (by decide)

end Run

def solidTokens (input : String) : List Token :=
  ((tokenize input).takeWhile fun t => t.kind != .endOfInput).filter
    fun t => t.kind != .whitespace

namespace Cursor

def solid (c : Cursor) : List Token :=
  (c.rest.map Lexeme.token).filter fun t => t.kind != .whitespace

theorem solid_kind {c : Cursor} {t : Token} (h : t ∈ c.solid) :
    t.kind ≠ .whitespace ∧ t.kind ≠ .endOfInput := by
  simp only [solid, List.mem_filter, List.mem_map, bne_iff_ne] at h
  obtain ⟨⟨l, _, rfl⟩, hw⟩ := h
  exact ⟨hw, Run.kind_ne_endOfInput l.source⟩

theorem solid_cons (p q : Nat) (l : Lexeme) (ls : List Lexeme) :
    solid ⟨p, l :: ls⟩ =
      if l.kind = .whitespace then solid ⟨q, ls⟩ else l.token :: solid ⟨q, ls⟩ := by
  by_cases h : l.kind = .whitespace <;> simp [solid, Lexeme.token, h]

theorem nextSolid_cons (p : Nat) (l : Lexeme) (ls : List Lexeme) :
    nextSolid ⟨p, l :: ls⟩ =
      if l.kind = .whitespace then nextSolid ⟨l.stop, ls⟩ else (l.token, ⟨l.stop, ls⟩) := by
  by_cases h : l.kind = .whitespace <;> simp [nextSolid, skipBlanksFrom, next, h]

theorem nextSolid_of_nil {c : Cursor} (h : c.solid = []) :
    c.nextSolid.1.kind = .endOfInput := by
  obtain ⟨p, ls⟩ := c
  induction ls generalizing p with
  | nil => rfl
  | cons l ls ih =>
    rw [solid_cons p l.stop] at h
    by_cases hw : l.kind = .whitespace
    · rw [if_pos hw] at h
      rw [nextSolid_cons, if_pos hw]
      exact ih l.stop h
    · simp [hw] at h

/-- Any other cursor hands out its first solid token and keeps the rest. -/
theorem nextSolid_of_cons {c : Cursor} {t : Token} {ts : List Token} (h : c.solid = t :: ts) :
    c.nextSolid.1 = t ∧ c.nextSolid.2.solid = ts := by
  obtain ⟨p, ls⟩ := c
  induction ls generalizing p with
  | nil => simp [solid] at h
  | cons l ls ih =>
    rw [solid_cons p l.stop] at h
    by_cases hw : l.kind = .whitespace
    · rw [if_pos hw] at h
      rw [nextSolid_cons, if_pos hw]
      exact ih l.stop h
    · rw [if_neg hw] at h
      rw [nextSolid_cons, if_neg hw]
      exact List.cons.inj h

theorem solid_ofInput (input : String) : (ofInput input).solid = solidTokens input := by
  have hl : ∀ l ∈ Lexeme.scan input.toList, (l.token.kind != TokenKind.endOfInput) = true := by
    intro l _
    rw [bne_iff_ne]
    exact Run.kind_ne_endOfInput l.source
  have ht : (tokenize input).takeWhile (fun t => t.kind != .endOfInput) =
      (Lexeme.scan input.toList).map Lexeme.token := by
    rw [tokenize, List.takeWhile_append_of_pos]
    · simp [Token.endOfInput]
    · simpa using hl
  simp only [solid, ofInput, solidTokens, ht]

end Cursor

end CqlConsole
