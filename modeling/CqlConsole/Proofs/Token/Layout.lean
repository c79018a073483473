import CqlConsole.Proofs.Token.Exactness

/-!
# White space between tokens

The solid tokens of a text are written again with other white space around them
and with other letters in capitals. As long as something stands between any two
of them, the new text has the same tokens, wherever they were before.
-/

set_option autoImplicit false

namespace CqlConsole

namespace Run

open CqlConsole.Text

def Respells (r r' : List Char) : Prop :=
  r' = r ∨ kind r = .keyword ∧ lower r' = lower r

/-- The pieces one after the other, each respelled and with white space behind it. Nothing stands
behind a last piece whose quote is open. -/
inductive Laid : List (List Char) → List Char → Prop where
  | nil : Laid [] []
  | cons {r r' gap s : List Char} {rs : List (List Char)} (piece : Respells r r')
      (blank : ∀ c ∈ gap, isBlank c = true) (parted : rs ≠ [] → gap ≠ [])
      (last : rs = [] → isOpen r = true → gap = []) (rest : Laid rs s) :
      Laid (r :: rs) (r' ++ (gap ++ s))

section Laid

variable {r r' s : List Char} {rs : List (List Char)} {k : TokenKind}

theorem isToken_respelled (h : Respells r r') (hr : IsToken k r) : IsToken k r' := by
  rcases h with rfl | ⟨hk, hlower⟩
  · exact hr
  · obtain rfl : k = .keyword := hr.2.symm.trans hk
    obtain ⟨w, hw, hs⟩ := mem_form.2 hr
    exact mem_form.1 ⟨w, hw, hlower.trans hs⟩

theorem token_respelled (h : Respells r r') (hr : IsToken k r) : token r' = token r := by
  have hkind : kind r' = kind r := (isToken_respelled h hr).2.trans hr.2.symm
  rcases h with rfl | ⟨hk, hlower⟩
  · rfl
  · simp [token, Lexeme.token, Lexeme.kind, Lexeme.text, Token.unplaced, hkind, hk, hlower]

theorem isOpen_respelled (h : Respells r r') (hr : IsToken k r) (ho : isOpen r = false) :
    isOpen r' = false := by
  have hkind : kind r' = kind r := (isToken_respelled h hr).2.trans hr.2.symm
  rcases h with rfl | ⟨hk, -⟩
  · exact ho
  · exact isOpen_of_kind (by simp [hkind, hk])

/-- Each piece is read as the token it was, and the white space behind it is lost. -/
theorem solid_laid (h : Laid rs s) (hrun : ∀ r ∈ rs, (endMode r).isSome = true)
    (hsolid : ∀ r ∈ rs, kind r ≠ .whitespace)
    (hclosed : rs.Pairwise fun r _ => isOpen r = false) :
    solid s = rs.map token ∧ Mode.blanks.endsAt s = true := by
  induction h with
  | nil => exact ⟨rfl, rfl⟩
  | @cons r r' gap s rs piece blank parted last rest ih =>
    obtain ⟨hr, hrs⟩ := List.forall_mem_cons.1 hrun
    obtain ⟨hk, hks⟩ := List.forall_mem_cons.1 hsolid
    obtain ⟨ho, hos⟩ := List.pairwise_cons.1 hclosed
    obtain ⟨ih, hends⟩ := ih hrs hks hos
    have hpiece : IsToken (kind r) r := ⟨hr, rfl⟩
    obtain ⟨hr', hkind⟩ := isToken_respelled piece hpiece
    obtain ⟨m, hm⟩ := Option.isSome_iff_exists.1 hr'
    have hk' : kind r' ≠ .whitespace := by rwa [hkind]
    have hne : r' ≠ [] := by
      rintro rfl
      cases hm
    have hcut : m.endsAt (gap ++ s) = true := by
      cases gap with
      | nil =>
        have hnil : rs = [] := by
          by_contra hrs
          exact parted hrs rfl
        subst hnil
        cases rest
        rfl
      | cons c gap =>
        have hopen : isOpen r = false := by
          cases rs with
          | nil =>
            rw [Bool.eq_false_iff]
            intro h
            cases last rfl h
          | cons q rs => exact ho q List.mem_cons_self
        have hopen' := isOpen_respelled piece hpiece hopen
        exact endsAt_blank hm hopen' hk' (blank c List.mem_cons_self) (gap ++ s)
    refine ⟨?_, blanks_endsAt hne hk' (gap ++ s)⟩
    rw [solid_append hm hcut hk', solid_gap blank hends, ih, token_respelled piece hpiece,
      List.map_cons]

end Laid

end Run

open CqlConsole.Text CqlConsole.Run

def solidSources (input : String) : List (List Char) :=
  (solidTokens input).map (Token.source input)

/-- The second text writes the solid tokens of the first one again, in other white space. -/
def Relaid (x y : String) : Prop :=
  ∃ margin s, (∀ c ∈ margin, isBlank c = true) ∧ Laid (solidSources x) s ∧ y.toList = margin ++ s

theorem solidSources_eq (input : String) :
    solidSources input = (split input.toList).filter fun r => kind r != .whitespace := by
  rw [solidSources, ← Cursor.solid_ofInput, Cursor.solid, List.filter_map, List.map_map,
    ← split_scan, List.filter_map]
  refine List.map_congr_left fun l hl => ?_
  exact source_token (List.mem_of_mem_filter hl)

theorem solid_eq_sources (input : String) :
    solid input.toList = (solidSources input).map token := by
  rw [solidSources_eq, solid, List.filter_map]
  rfl

theorem solid_relaid {x y : String} (h : Relaid x y) : solid y.toList = solid x.toList := by
  obtain ⟨margin, s, hmargin, hlaid, hy⟩ := h
  have hfilter := solidSources_eq x
  have hmem : ∀ r ∈ solidSources x, (endMode r).isSome = true ∧ kind r ≠ .whitespace := by
    intro r hr
    rw [hfilter, List.mem_filter, bne_iff_ne] at hr
    exact ⟨endMode_split _ r hr.1, hr.2⟩
  have hclosed : (solidSources x).Pairwise fun r _ => isOpen r = false := by
    rw [hfilter]
    exact (split_closed x.toList).filter _
  obtain ⟨hsolid, hends⟩ :=
    solid_laid hlaid (fun r hr => (hmem r hr).1) (fun r hr => (hmem r hr).2) hclosed
  rw [hy, solid_gap hmargin hends, hsolid, solid_eq_sources]

end CqlConsole
