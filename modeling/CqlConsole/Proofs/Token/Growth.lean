import CqlConsole.Proofs.Token.Pieces

/-!
# Text that grows at its end

Typing more can only change the last run of a text: where all the others end was
decided by a character that is already there. The last run and what is typed
are cut into runs together.
-/

set_option autoImplicit false

namespace CqlConsole.Run

open CqlConsole.Text

section Growth

variable {rs : List (List Char)} {c : Char} {r s : List Char} {m : Mode} (u : List Char)

theorem split_cons_append_last
    (hfrom : ∀ {qs}, (splitFrom (.start c) s).2 = qs ++ [r] →
      splitFrom (.start c) (s ++ u) = ((splitFrom (.start c) s).1, qs ++ split (r ++ u)))
    (h : split (c :: s) = rs ++ [r]) : split (c :: (s ++ u)) = rs ++ split (r ++ u) := by
  rw [split] at h
  cases rs with
  | nil =>
    obtain ⟨hfirst, hrest⟩ := List.cons.inj h
    have hflat := splitFrom_flatten (.start c) s
    rw [hrest, List.flatten_nil, List.append_nil] at hflat
    rw [← hfirst, hflat]
    rfl
  | cons q qs =>
    obtain ⟨hfirst, hrest⟩ := List.cons.inj h
    rw [split, hfrom hrest, hfirst]
    rfl

theorem splitFrom_append_last (h : (splitFrom m s).2 = rs ++ [r]) :
    splitFrom m (s ++ u) = ((splitFrom m s).1, rs ++ split (r ++ u)) := by
  induction s generalizing m rs with
  | nil => simp [splitFrom] at h
  | cons c s ih =>
    rw [List.cons_append]
    cases hc : m.step c with
    | some n =>
      simp only [splitFrom, hc] at h ⊢
      rw [ih h]
    | none =>
      simp only [splitFrom, hc] at h ⊢
      rw [← split_cons_append_last u ih h]
      rfl

theorem split_append_last (h : split s = rs ++ [r]) : split (s ++ u) = rs ++ split (r ++ u) := by
  cases s with
  | nil => simp [split] at h
  | cons c s => exact split_cons_append_last u (splitFrom_append_last u) h

end Growth

theorem endMode_scan (s : List Char) :
    ∀ l ∈ Lexeme.scan s, (endMode l.source).isSome = true := by
  intro l hl
  refine endMode_split s l.source ?_
  rw [← split_scan]
  exact List.mem_map_of_mem hl

theorem place_append (n : Nat) (rs qs : List (List Char)) :
    Lexeme.place n (rs ++ qs) =
      Lexeme.place n rs ++ Lexeme.place (n + byteSize rs.flatten) qs := by
  induction rs generalizing n with
  | nil => rfl
  | cons r rs ih =>
    rw [List.cons_append, Lexeme.place, ih, Lexeme.place, List.flatten_cons, byteSize_append,
      Nat.add_assoc, List.cons_append]

/-- The last lexeme starts where those in front of it end. -/
theorem last_scan {s : List Char} {front : List Lexeme} {l : Lexeme}
    (h : Lexeme.scan s = front ++ [l]) :
    Lexeme.place 0 (front.map Lexeme.source) = front ∧
      l.start = byteSize (front.map Lexeme.source).flatten := by
  have hsplit := split_scan s
  rw [h, List.map_append, List.map_singleton] at hsplit
  rw [Lexeme.scan, ← hsplit, place_append] at h
  obtain ⟨hfront, hlast⟩ := List.append_inj' h rfl
  refine ⟨hfront, ?_⟩
  rw [← congrArg Lexeme.start (List.singleton_inj.1 hlast), Nat.zero_add]

/-- The lexemes in front of the last one stay where they are. -/
theorem scan_append {s : List Char} {front : List Lexeme} {l : Lexeme}
    (h : Lexeme.scan s = front ++ [l]) (u : List Char) :
    Lexeme.scan (s ++ u) = front ++ Lexeme.place l.start (split (l.source ++ u)) := by
  have hsplit : split s = front.map Lexeme.source ++ [l.source] := by
    rw [← split_scan, h, List.map_append, List.map_singleton]
  obtain ⟨hfront, hlast⟩ := last_scan h
  rw [Lexeme.scan, split_append_last u hsplit, place_append, hfront, hlast, Nat.zero_add]

def settled (ls : List Lexeme) : List Token :=
  (ls.dropLast.map Lexeme.token).filter fun t => t.kind != .whitespace

def lastPiece (ls : List Lexeme) : List Char :=
  (ls.getLast?.map Lexeme.source).getD []

def grown (ls : List Lexeme) (u : List Char) : List Token :=
  settled ls ++ solid (lastPiece ls ++ u)

section Grown

variable {l : Lexeme} {ls : List Lexeme} (u : List Char)

theorem settled_cons (hls : ls ≠ []) :
    settled (l :: ls) = if l.kind = .whitespace then settled ls else l.token :: settled ls := by
  obtain ⟨m, rest, rfl⟩ := List.exists_cons_of_ne_nil hls
  by_cases h : l.kind = .whitespace <;> simp [settled, Lexeme.token, h]

theorem grown_cons (hls : ls ≠ []) :
    grown (l :: ls) u = if l.kind = .whitespace then grown ls u else l.token :: grown ls u := by
  obtain ⟨m, rest, rfl⟩ := List.exists_cons_of_ne_nil hls
  rw [grown, settled_cons hls]
  by_cases h : l.kind = .whitespace <;> simp [grown, lastPiece, h]

theorem settled_blanks {blanks : List Lexeme} (h : ∀ b ∈ blanks, b.kind = .whitespace)
    (hls : ls ≠ []) : settled (blanks ++ ls) = settled ls := by
  induction blanks with
  | nil => rfl
  | cons b blanks ih =>
    obtain ⟨hb, hblanks⟩ := List.forall_mem_cons.1 h
    rw [List.cons_append, settled_cons (by simp [hls]), if_pos hb]
    exact ih hblanks

theorem grown_blanks {blanks : List Lexeme} (h : ∀ b ∈ blanks, b.kind = .whitespace)
    (hls : ls ≠ []) : grown (blanks ++ ls) u = grown ls u := by
  have hlast : lastPiece (blanks ++ ls) = lastPiece ls := by
    rw [lastPiece, List.getLast?_append_of_ne_nil blanks hls, lastPiece]
  rw [grown, settled_blanks h hls, hlast, grown]

theorem grown_single (l : Lexeme) : grown [l] u = solid (l.source ++ u) := rfl

theorem settled_unplaced (ls : List Lexeme) :
    (settled ls).map Token.unplaced =
      ((ls.map Lexeme.source).dropLast.map token).filter fun t => t.kind != .whitespace := by
  rw [settled, ← List.map_dropLast, List.map_map]
  induction ls.dropLast with
  | nil => rfl
  | cons l ls ih =>
    have hkind : l.token.kind = (token l.source).kind := rfl
    by_cases h : l.token.kind = .whitespace
    · simpa [h, ← hkind] using ih
    · simp [h, ← hkind, ih]
      rfl

theorem grown_scan {s : List Char} (hs : s ≠ []) :
    (grown (Lexeme.scan s) u).map Token.unplaced = solid (s ++ u) := by
  obtain ⟨rs, r, hsplit⟩ : ∃ rs r, split s = rs ++ [r] := by
    cases s with
    | nil => exact absurd rfl hs
    | cons c s => exact ⟨_, _, (List.dropLast_concat_getLast (by simp [split])).symm⟩
  have hsource : (Lexeme.scan s).map Lexeme.source = rs ++ [r] := by
    rw [split_scan, hsplit]
  have hlast : lastPiece (Lexeme.scan s) = r := by
    rw [lastPiece, ← List.getLast?_map, hsource, List.getLast?_concat]
    rfl
  rw [grown, List.map_append, settled_unplaced, solid_unplaced, hsource, hlast,
    List.dropLast_concat, solid, solid, split_append_last u hsplit, List.map_append,
    List.filter_append]

end Grown

def IsName (s : String) : Prop :=
  (tokenize s).map Token.kind = [.identifier, .endOfInput]

instance (s : String) : Decidable (IsName s) :=
  inferInstanceAs (Decidable ((tokenize s).map Token.kind = [.identifier, .endOfInput]))

theorem split_of_isName {n : String} (h : IsName n) :
    split n.toList = [n.toList] ∧ kind n.toList = .identifier := by
  have hkinds : (split n.toList).map kind = [.identifier] := by
    have hall : (tokenize n).map Token.kind = (split n.toList).map kind ++ [.endOfInput] := by
      rw [tokenize, List.map_append, List.map_map, ← split_scan, List.map_map]
      rfl
    rw [IsName, hall] at h
    exact List.append_cancel_right h
  obtain ⟨r, hr, hkind⟩ := List.map_eq_singleton_iff.1 hkinds
  have hflat := split_flatten n.toList
  rw [hr, List.flatten_singleton] at hflat
  rw [← hflat]
  exact ⟨hflat ▸ hr, hkind⟩

theorem solid_of_isName {n : String} (h : IsName n) :
    solid n.toList = [token n.toList] ∧ kind n.toList = .identifier := by
  obtain ⟨hsplit, hkind⟩ := split_of_isName h
  exact ⟨by simp [solid, hsplit, token, Lexeme.token, Lexeme.kind, Token.unplaced, hkind], hkind⟩

theorem endMode_of_isName {n : String} (h : IsName n) : ∃ m, endMode n.toList = some m := by
  obtain ⟨hsplit, -⟩ := split_of_isName h
  rw [← Option.isSome_iff_exists]
  exact endMode_split n.toList _ (by simp [hsplit])

end CqlConsole.Run
