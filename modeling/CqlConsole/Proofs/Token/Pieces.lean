import CqlConsole.Proofs.Token.RunEnd

/-!
# Reading a text piece by piece

A text that is put together from runs, each cut off by what comes next, gives
back the tokens of these runs. Places differ from text to text, so they are left
out here. The tokens of an input that are no keywords come back from their own
texts.
-/

set_option autoImplicit false

namespace CqlConsole

def Token.unplaced (t : Token) : Token :=
  { t with start := 0, stop := 0 }

namespace Run

open CqlConsole.Text

def token (r : List Char) : Token :=
  (Lexeme.token ⟨0, r⟩).unplaced

def solid (s : List Char) : List Token :=
  ((split s).map token).filter fun t => t.kind != .whitespace

structure IsPiece (r : List Char) : Prop where
  single : ∃ m, endMode r = some m
  ne_error : kind r ≠ .error
  ne_whitespace : kind r ≠ .whitespace

section Pieces

variable {c : Char} {r s : List Char} {m : Mode}

theorem solid_append (h : endMode r = some m) (hs : m.endsAt s = true)
    (hk : kind r ≠ .whitespace) : solid (r ++ s) = token r :: solid s := by
  have hkind : (token r).kind ≠ .whitespace := hk
  simp [solid, split_append h hs, hkind]

theorem solid_single (h : endMode r = some m) (hk : kind r ≠ .whitespace) :
    solid r = [token r] := by
  have happend := solid_append h (s := []) rfl hk
  rwa [List.append_nil] at happend

theorem solid_blanks (h : endMode r = some m) (hs : m.endsAt s = true)
    (hk : kind r = .whitespace) : solid (r ++ s) = solid s := by
  have hkind : (token r).kind = .whitespace := hk
  simp [solid, split_append h hs, hkind]

theorem endMode_blanks (h : ∀ d ∈ c :: s, isBlank d = true) : endMode (c :: s) = some .blanks := by
  obtain ⟨hc, hs⟩ := List.forall_mem_cons.1 h
  rw [endMode, start_of_isBlank hc, Mode.steps_blanks, if_pos (List.all_eq_true.2 hs)]

theorem solid_gap {gap : List Char} (h : ∀ c ∈ gap, isBlank c = true)
    (hs : Mode.blanks.endsAt s = true) : solid (gap ++ s) = solid s := by
  cases gap with
  | nil => rfl
  | cons c gap => exact solid_blanks (endMode_blanks h) hs (kind_of_isBlank (h c List.mem_cons_self))

/-- A space in front of anything but white space is lost. -/
theorem solid_space (hs : Mode.blanks.endsAt s = true) : solid (' ' :: s) = solid s := by
  have hgap : ∀ c ∈ [' '], isBlank c = true := List.forall_mem_singleton.2 rfl
  exact solid_gap hgap hs

theorem blanks_endsAt (hr : r ≠ []) (hk : kind r ≠ .whitespace) (s : List Char) :
    Mode.blanks.endsAt (r ++ s) = true := by
  cases r with
  | nil => exact absurd rfl hr
  | cons c r =>
    have hblank : isBlank c = false := by
      rw [Bool.eq_false_iff]
      intro hb
      exact hk (kind_of_isBlank hb)
    simp [Mode.endsAt, Mode.step, hblank]

theorem solid_punctuation (hc : isPunctuation c = true) (hk : kind [c] ≠ .whitespace)
    (s : List Char) : solid (c :: s) = token [c] :: solid s := by
  have hmode : endMode [c] = some .punctuation := by
    simp [endMode, Mode.start, hc, Mode.steps]
  have hends : Mode.punctuation.endsAt s = true := by cases s <;> rfl
  exact solid_append hmode hends hk

theorem IsPiece.solid_append (h : IsPiece r) (hs : separates s = true) :
    solid (r ++ s) = token r :: solid s := by
  obtain ⟨m, hm⟩ := h.single
  have hends := endsAt_of_separates hm (isOpen_of_kind h.ne_error) h.ne_whitespace hs
  exact Run.solid_append hm hends h.ne_whitespace

theorem IsPiece.solid_space (h : IsPiece r) (s : List Char) :
    solid (' ' :: (r ++ s)) = solid (r ++ s) := by
  have hr : r ≠ [] := by
    rintro rfl
    obtain ⟨m, hm⟩ := h.single
    cases hm
  exact Run.solid_space (blanks_endsAt hr h.ne_whitespace s)

theorem solid_unplaced (s : List Char) : (solid s).map Token.unplaced = solid s := by
  have hfix : ∀ t ∈ solid s, t.unplaced = t := by
    intro t ht
    obtain ⟨r, -, rfl⟩ := List.mem_map.1 (List.mem_filter.1 ht).1
    rfl
  rw [List.map_congr_left hfix, List.map_id']

theorem place_source (n : Nat) (rs : List (List Char)) :
    (Lexeme.place n rs).map Lexeme.source = rs := by
  induction rs generalizing n with
  | nil => rfl
  | cons r rs ih => rw [Lexeme.place, List.map_cons, ih]

theorem split_scan (s : List Char) : (Lexeme.scan s).map Lexeme.source = split s :=
  place_source 0 (split s)

theorem place_token (n : Nat) (rs : List (List Char)) :
    ((Lexeme.place n rs).map Lexeme.token).map Token.unplaced = rs.map token := by
  induction rs generalizing n with
  | nil => rfl
  | cons r rs ih =>
    rw [Lexeme.place, List.map_cons, List.map_cons, ih, List.map_cons]
    rfl

end Pieces

end Run

open CqlConsole.Run

theorem solidTokens_unplaced (input : String) :
    (solidTokens input).map Token.unplaced = solid input.toList := by
  rw [← Cursor.solid_ofInput, solid, ← place_token 0, List.filter_map (f := Token.unplaced)]
  rfl

namespace Token

structure Stable (t : Token) : Prop where
  piece : IsPiece t.text.toList
  kind_eq : Run.kind t.text.toList = t.kind
  ne_keyword : t.kind ≠ .keyword

namespace Stable

variable {t : Token} {s : List Char}

theorem token_eq (h : t.Stable) : token t.text.toList = t.unplaced := by
  simp [token, Lexeme.token, Lexeme.kind, Lexeme.text, unplaced, h.kind_eq, h.ne_keyword]

theorem solid_append (h : t.Stable) (hs : separates s = true) :
    solid (t.text.toList ++ s) = t.unplaced :: solid s := by
  rw [h.piece.solid_append hs, h.token_eq]

theorem solid_dot (h : t.Stable) (hk : t.kind = .identifier) (s : List Char) :
    solid (t.text.toList ++ '.' :: s) = t.unplaced :: token ['.'] :: solid s := by
  obtain ⟨m, hm⟩ := h.piece.single
  have hends := endsAt_mark hm (h.kind_eq.trans hk) (c := '.') rfl s
  have hkind : Run.kind ['.'] ≠ .whitespace := by decide
  rw [Run.solid_append hm hends h.piece.ne_whitespace, h.token_eq, solid_punctuation rfl hkind]

end Stable

/-- The tokens of an input that carry their text as it was typed are stable. -/
theorem stable_of_mem {t : Token} {input : String} (h : t ∈ solidTokens input)
    (he : t.kind ≠ .error) (hk : t.kind ≠ .keyword) : t.Stable := by
  rw [← Cursor.solid_ofInput, Cursor.solid, List.mem_filter, List.mem_map, bne_iff_ne] at h
  obtain ⟨⟨l, hl, rfl⟩, hw⟩ := h
  have hmem : l.source ∈ split input.toList := by
    rw [← split_scan]
    exact List.mem_map_of_mem hl
  have htext : l.token.text.toList = l.source := by
    have hne : l.kind ≠ .keyword := hk
    simp [Lexeme.token, Lexeme.text, hne]
  refine ⟨⟨?_, ?_, ?_⟩, ?_, hk⟩
  · rw [htext, ← Option.isSome_iff_exists]
    exact endMode_split _ _ hmem
  · rw [htext]
    exact he
  · rw [htext]
    exact hw
  · rw [htext]
    rfl

end Token

end CqlConsole
