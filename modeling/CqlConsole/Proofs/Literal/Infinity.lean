import CqlConsole.Proofs.Literal.Decoding

/-!
# Infinities shown

A float is infinite if its text is the word for it or lies beyond the greatest
finite value. Either infinity is shown by the same word, and that word is read
as the one without a sign, so a sign in front of the text gets lost.
-/

set_option autoImplicit false

namespace CqlConsole.Literal

open CqlConsole.Form CqlConsole.Number CqlConsole.Text

variable {input : String} {t : Token} {b : Bool}

/-- The texts that are read as an infinity, the word for it and the numerals beyond the bound. -/
def SpellsInfinity (b : Bool) (s : List Char) : Prop :=
  lower s = "infinity".toList ∧ b = false ∨ Overflows b s

theorem SpellsInfinity.head?_eq {s : List Char} (h : SpellsInfinity b s) :
    s.head? = some '-' ↔ b = true := by
  rcases h with ⟨hword, rfl⟩ | hover
  · obtain ⟨c, r, rfl, hc⟩ := begins_of_lower hword (by decide) (by decide)
    have hminus : c ≠ '-' := by
      rintro rfl
      cases hc
    simp [hminus]
  · cases hover with
    | plain h hx =>
      obtain ⟨c, r, rfl, hc⟩ := h.begins
      have hminus : c ≠ '-' := by
        rintro rfl
        cases hc
      simp [hminus]
    | minus h hx => simp

theorem ofToken_eq_infinite (ht : t ∈ tokenize input) (hk : t.kind = .float) :
    ofToken t = .ok (float (.infinite b)) ↔ SpellsInfinity b t.text.toList := by
  have hform := text_mem_properForm ht hk rfl
  obtain ⟨x, hx, hread⟩ := ofToken_float ht hk
  rw [SpellsInfinity, ← Binary64.ofText?_eq_infinite hform, hx, hread]
  simp

def infinityToken : Token :=
  ⟨.float, "Infinity", 0, 8⟩

theorem tokenize_display_infinite (b : Bool) :
    tokenize (float (.infinite b)).display = [infinityToken, .endOfInput 8] := by
  have hword : (float (.infinite b)).display = "Infinity" := String.ofList_toList
  have htokens : tokenize "Infinity" = [infinityToken, .endOfInput 8] := by decide +kernel
  exact hword.symm ▸ htokens

theorem ofToken_infinityToken : ofToken infinityToken = .ok (float (.infinite false)) :=
  rfl

/-- A float is infinite exactly if its text is the word for it or a numeral beyond the greatest
finite value. Its text for display is one token and nothing else, and that token decodes to the
infinity without a sign, which is the same value exactly if no minus sign stands in front of the
text. -/
theorem infinite_shown (ht : t ∈ tokenize input) (hk : t.kind = .float) :
    (ofToken t = .ok (float (.infinite b)) ↔ SpellsInfinity b t.text.toList) ∧
      (ofToken t = .ok (float (.infinite b)) →
        tokenize (float (.infinite b)).display = [infinityToken, .endOfInput 8] ∧
          ofToken infinityToken = .ok (float (.infinite false)) ∧
          (ofToken infinityToken = ofToken t ↔ t.text.toList.head? ≠ some '-')) := by
  refine ⟨ofToken_eq_infinite ht hk, fun h => ?_⟩
  refine ⟨tokenize_display_infinite b, ofToken_infinityToken, ?_⟩
  have hspells := (ofToken_eq_infinite ht hk).1 h
  rw [ne_eq, hspells.head?_eq, h, ofToken_infinityToken]
  cases b <;> simp

/-- A numeral far beyond the greatest value, with a minus sign in front. -/
theorem infinite_shown_minus :
    (⟨.float, "-1e999", 0, 6⟩ ∈ tokenize "-1e999" ∧
      ofToken ⟨.float, "-1e999", 0, 6⟩ = .ok (float (.infinite true))) ∧
    tokenize (float (.infinite true)).display = [infinityToken, .endOfInput 8] ∧
    ofToken infinityToken ≠ ofToken ⟨.float, "-1e999", 0, 6⟩ := by
  have hmem : ⟨.float, "-1e999", 0, 6⟩ ∈ tokenize "-1e999" := by decide +kernel
  have hdecoded : ofToken ⟨.float, "-1e999", 0, 6⟩ = .ok (float (.infinite true)) := rfl
  obtain ⟨htokens, -, hsame⟩ := (infinite_shown hmem rfl).2 hdecoded
  exact ⟨⟨hmem, hdecoded⟩, htokens, fun h => hsame.1 h rfl⟩

/-- Not every infinity is shown as a token of the same value. -/
theorem infinite_shown_unsigned :
    ¬∀ (input : String) (t : Token) (b : Bool), t ∈ tokenize input → t.kind = .float →
      ofToken t = .ok (float (.infinite b)) →
      ∃ (u : Token) (n : Nat), u.kind = .float ∧
        tokenize (float (.infinite b)).display = [u, .endOfInput n] ∧
        ofToken u = .ok (float (.infinite b)) := by
  intro h
  obtain ⟨u, n, -, htokens, hvalue⟩ :=
    h "-1e999" ⟨.float, "-1e999", 0, 6⟩ true (by decide +kernel) rfl rfl
  rw [tokenize_display_infinite] at htokens
  cases htokens
  rw [ofToken_infinityToken] at hvalue
  cases hvalue

end CqlConsole.Literal
