import CqlConsole.Proofs.Text.Encoding
import CqlConsole.Proofs.Token.Names

/-!
# Tokens that appended text leaves alone

Where a token ends is decided by the character behind it. So text that is
appended to an input can change no token but the last one. A last token that is
a mark is complete by itself and stays. Any other one goes on with some
character, and nothing is known of it before the character behind it is typed.
-/

set_option autoImplicit false

namespace CqlConsole

def Token.IsMark (t : Token) : Prop :=
  ∃ c ∈ Run.marks, t.text = String.singleton c

namespace Run

open CqlConsole.Text

section Marks

variable {c : Char} {r : List Char} {m : Mode} {l : Lexeme}

theorem start_eq_punctuation (h : Mode.start c = .punctuation) : c ∈ marks := by
  unfold Mode.start at h
  split_ifs at h with hp
  exact (isPunctuation_iff c).1 hp

theorem endMode_of_mark (hc : c ∈ marks) : endMode [c] = some .punctuation := by
  have hp := (isPunctuation_iff c).2 hc
  simp [endMode, Mode.start, hp, Mode.steps]

theorem mark_of_endMode (h : endMode r = some .punctuation) : ∃ c ∈ marks, r = [c] := by
  cases r with
  | nil => cases h
  | cons c r =>
    have hstart : Mode.start c = .punctuation := (opening_endMode h).symm
    refine ⟨c, start_eq_punctuation hstart, ?_⟩
    cases r with
    | nil => rfl
    | cons d r =>
      rw [endMode, hstart] at h
      cases h

theorem split_mark (hc : c ∈ marks) (s : List Char) : split (c :: s) = [c] :: split s := by
  have hends : Mode.punctuation.endsAt s = true := by cases s <;> rfl
  exact split_append (endMode_of_mark hc) hends

theorem Mode.exists_step (h : m ≠ .punctuation) : ∃ c n, m.step c = some n := by
  cases m with
  | punctuation => exact absurd rfl h
  | quoted q closing => exact ⟨q, _, by simp [step]; rfl⟩
  | number => exact ⟨'0', .number, rfl⟩
  | blanks => exact ⟨' ', .blanks, rfl⟩
  | word => exact ⟨'a', .word, rfl⟩

theorem split_grown {n : Mode} (h : endMode r = some m) (hc : m.step c = some n) :
    split (r ++ [c]) = [r ++ [c]] := by
  cases r with
  | nil => cases h
  | cons d r =>
    have hmode : endMode (d :: r ++ [c]) = some n := by
      show (Mode.start d).steps (r ++ [c]) = some n
      rw [Mode.steps_append, show (Mode.start d).steps r = some m from h]
      simp [Mode.steps, hc]
    exact split_single hmode

theorem sign_of_mark (hc : c ∈ marks) : c.isAlpha = false ∧ kind [c] ≠ .keyword := by
  have hall : marks.all (fun c => !c.isAlpha && kind [c] != .keyword) = true := by decide
  simpa using List.all_eq_true.1 hall c hc

theorem isMark_iff : l.token.IsMark ↔ ∃ c ∈ marks, l.source = [c] := by
  constructor
  · rintro ⟨c, hc, htext⟩
    have hchars : l.text = [c] := by
      have h := congrArg String.toList htext
      simpa [Lexeme.token] using h
    refine ⟨c, hc, ?_⟩
    rw [Lexeme.text] at hchars
    split_ifs at hchars
    · exact eq_of_lower_sign hchars (sign_of_mark hc).1
    · exact hchars
  · rintro ⟨c, hc, hsource⟩
    have hkind : l.kind ≠ .keyword := by
      rw [Lexeme.kind, hsource]
      exact (sign_of_mark hc).2
    refine ⟨c, hc, ?_⟩
    show String.ofList l.text = String.singleton c
    rw [Lexeme.text, if_neg hkind, hsource]
    rfl

end Marks

/-- What was the last piece of the text is cut again, together with what is appended. -/
theorem tokenize_grown {x : String} {front : List Lexeme} {l : Lexeme}
    (h : Lexeme.scan x.toList = front ++ [l]) (y : String) :
    tokenize (x ++ y) = front.map Lexeme.token ++
      ((Lexeme.place l.start (split (l.source ++ y.toList))).map Lexeme.token ++
        [.endOfInput (byteSize (x ++ y).toList)]) := by
  rw [tokenize, String.toList_append, scan_append h, List.map_append, List.append_assoc]

/-- A mark at the end stays a token whatever is appended, and nothing else does. -/
theorem last_settled_iff {x : String} {front : List Lexeme} {l : Lexeme}
    (h : Lexeme.scan x.toList = front ++ [l]) :
    l.token.IsMark ↔
      ∀ y, front.map Lexeme.token ++ [l.token] <+: tokenize (x ++ y) := by
  rw [isMark_iff]
  constructor
  · rintro ⟨c, hc, hsource⟩ y
    rw [tokenize_grown h y, List.prefix_append_right_inj, hsource, List.singleton_append,
      split_mark hc, Lexeme.place, ← hsource, List.map_cons, List.cons_append]
    exact ⟨_, rfl⟩
  · intro hkept
    have hl : l ∈ Lexeme.scan x.toList := by simp [h]
    obtain ⟨m, hm⟩ := Option.isSome_iff_exists.1 (endMode_scan x.toList l hl)
    by_cases hmode : m = .punctuation
    · exact mark_of_endMode (hmode ▸ hm)
    · -- Some character goes on with the run, and behind it the token ends later.
      obtain ⟨c, n, hc⟩ := Mode.exists_step hmode
      have hlonger := hkept (String.singleton c)
      rw [tokenize_grown h, List.prefix_append_right_inj, String.toList_singleton,
        split_grown hm hc] at hlonger
      have hsame : l.token = (Lexeme.mk l.start (l.source ++ [c])).token :=
        (List.cons_prefix_cons.1 hlonger).1
      have hstop : byteSize l.source = byteSize (l.source ++ [c]) :=
        Nat.add_left_cancel (congrArg Token.stop hsame)
      have hsize := c.utf8Size_pos
      simp at hstop
      omega

end Run

open CqlConsole.Run CqlConsole.Text

/-- Appending to a text leaves every token but the last as it is: its kind, its text, its bytes and
its place in the list. The last token stays for every text that may be appended exactly if it is a
mark. -/
theorem tokenize_append (x : String) :
    ∃ ts, tokenize x = ts ++ [.endOfInput x.utf8ByteSize] ∧ (∀ t ∈ ts, t.kind ≠ .endOfInput) ∧
      (∀ y, ts.dropLast <+: tokenize (x ++ y)) ∧
      ∀ t, ts.getLast? = some t → (t.IsMark ↔ ∀ y, ts <+: tokenize (x ++ y)) := by
  refine ⟨(Lexeme.scan x.toList).map Lexeme.token, by rw [tokenize, utf8ByteSize_eq], ?_, ?_⟩
  · intro t ht
    obtain ⟨l, -, rfl⟩ := List.mem_map.1 ht
    exact kind_ne_endOfInput l.source
  · rcases List.eq_nil_or_concat (Lexeme.scan x.toList) with h | ⟨front, l, h⟩
    · simp [h]
    · rw [List.concat_eq_append] at h
      rw [h, List.map_append, List.map_singleton]
      constructor
      · intro y
        rw [List.dropLast_concat, tokenize_grown h]
        exact List.prefix_append _ _
      · intro t ht
        obtain rfl : l.token = t := by simpa using ht
        exact last_settled_iff h

/-- The last of these tokens is a mark, so all three stay whatever follows. A name by itself may
still go on. -/
theorem tokenize_append_open :
    (∀ y, [⟨.identifier, "t", 0, 1⟩, ⟨.whitespace, " ", 1, 2⟩, ⟨.bracket, "(", 2, 3⟩] <+:
      tokenize ("t (" ++ y)) ∧
    ¬∀ y, [⟨.identifier, "t", 0, 1⟩] <+: tokenize ("t" ++ y) := by
  constructor
  · obtain ⟨ts, hts, -, -, hlast⟩ := tokenize_append "t ("
    have hopen : tokenize "t (" =
        [⟨.identifier, "t", 0, 1⟩, ⟨.whitespace, " ", 1, 2⟩, ⟨.bracket, "(", 2, 3⟩] ++
          [.endOfInput 3] := by decide +kernel
    rw [hopen] at hts
    obtain rfl := (List.append_inj' hts rfl).1
    exact (hlast _ rfl).1 ⟨'(', by decide, rfl⟩
  · obtain ⟨ts, hts, -, -, hlast⟩ := tokenize_append "t"
    have hname : tokenize "t" = [⟨.identifier, "t", 0, 1⟩] ++ [.endOfInput 1] := by decide +kernel
    rw [hname] at hts
    obtain rfl := (List.append_inj' hts rfl).1
    intro hkept
    obtain ⟨c, hc, htext⟩ := (hlast _ rfl).2 hkept
    obtain rfl : 't' = c := by simpa using congrArg String.toList htext
    exact absurd hc (by decide)

end CqlConsole
