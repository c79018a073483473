import CqlConsole.Proofs.Completion.Acceptance

/-!
# Typing an offer

An offer of several characters can be typed instead of accepted. While it is
typed, the rest of it stays on offer, except where the part of a name typed so
far happens to be one of the words that stand for a constant: `true`, `false`,
`nan` and `infinity` are no words to the walk, and it stops there.
-/

set_option autoImplicit false

namespace CqlConsole.Completion

open CqlConsole.Run CqlConsole.Text

def literalWords : List String :=
  ["true", "false", "nan", "infinity"]

def fixedWords : List String :=
  "into" :: "values" :: statementKeywords

def Catalog.Plain (catalog : Catalog) : Prop :=
  ∀ query answer, catalog query = .ok answer →
    ∀ n ∈ answer, IsName n ∧ n.toList.head? ≠ some '"'

section Words

variable {l : Lexeme} {s t : List Char} {word : String}

theorem isWord_of_isPlainName (h : isPlainName l.source = true) :
    isWord l = true ↔ isWordOf literalWords l.source = false := by
  have hliteral : isWordOf literalWords l.source =
      (isWordOf ["true", "false"] l.source || isWordOf ["nan", "infinity"] l.source) := by
    simp [isWordOf, literalWords, Bool.or_assoc]
  rw [hliteral, isWord_iff, Lexeme.kind, kind_of_isPlainName h]
  split_ifs <;> simp_all

theorem ne_whitespace_of_isPlainName (h : isPlainName l.source = true) : l.kind ≠ .whitespace := by
  rw [Lexeme.kind, kind_of_isPlainName h]
  split_ifs <;> simp

theorem not_literal_of_fixed (hword : word ∈ fixedWords) (h : lower s ++ t = word.toList) :
    isWordOf literalWords s = false := by
  have hapart : ∀ word ∈ fixedWords, ∀ w ∈ literalWords, ¬w.toList <+: word.toList := by decide
  rw [isWordOf, List.any_eq_false]
  intro w hw heq
  rw [beq_iff_eq] at heq
  exact hapart word hword w hw ⟨t, heq ▸ h⟩

theorem isPlainName_of_fixed (hword : word ∈ fixedWords) (h : lower s ++ t = word.toList)
    (hs : s ≠ []) : isPlainName s = true := by
  have hletters : ∀ word ∈ fixedWords, word.toList.all Char.isAlpha = true := by decide
  have hall := hletters word hword
  rw [← h, List.all_append, Bool.and_eq_true] at hall
  refine isPlainName_of_lower (w := String.ofList (lower s)) (String.toList_ofList).symm ?_ ?_
  · rw [String.toList_ofList]
    exact hall.1
  · simpa [lower] using hs

structure Small (c : Char) : Prop where
  alpha : c.isAlpha = true
  not_upper : c.isUpper = false
  lower : c.toLower = c
  upper_alpha : c.toUpper.isAlpha = true
  upper_upper : c.toUpper.isUpper = true
  lower_upper : c.toUpper.toLower = c

instance (c : Char) : Decidable (Small c) :=
  decidable_of_iff (c.isAlpha = true ∧ c.isUpper = false ∧ c.toLower = c ∧ c.toUpper.isAlpha = true ∧
      c.toUpper.isUpper = true ∧ c.toUpper.toLower = c)
    ⟨fun ⟨h₁, h₂, h₃, h₄, h₅, h₆⟩ => ⟨h₁, h₂, h₃, h₄, h₅, h₆⟩,
      fun ⟨h₁, h₂, h₃, h₄, h₅, h₆⟩ => ⟨h₁, h₂, h₃, h₄, h₅, h₆⟩⟩

theorem small_of_fixed (hword : word ∈ fixedWords) : ∀ c ∈ word.toList, Small c := by
  -- A quantifier over the characters of the word might be decided by going through all there are.
  have hall : ∀ word ∈ fixedWords, (word.toList.all fun c => decide (Small c)) = true := by decide
  exact fun c hc => of_decide_eq_true (List.all_eq_true.1 (hall word hword) c hc)

section Case

variable {typed rest a b : List Char}

/-- The case of the letters is decided anew by what is typed of the remainder, and stays. -/
theorem matchCase_ahead (hsmall : ∀ c ∈ rest, Small c) (h : matchCase typed rest = a ++ b)
    (ha : a ≠ []) : ∃ more, rest = lower a ++ more ∧ matchCase (typed ++ a) more = b := by
  obtain ⟨c, a', rfl⟩ := List.exists_cons_of_ne_nil ha
  rw [matchCase] at h
  split at h
  · rename_i hcapital
    -- What is typed is in capitals, and so is the remainder.
    obtain ⟨first, more, rfl, hfirst, hmore⟩ := List.map_eq_append_iff.1 h
    have hlower : lower (c :: a') = first := by
      rw [← hfirst, lower, List.map_map]
      exact (List.map_congr_left fun d hd =>
        (hsmall d (List.mem_append_left more hd)).lower_upper).trans (List.map_id' first)
    refine ⟨more, by rw [hlower], ?_⟩
    have hupper : ∀ d ∈ c :: a', d.isAlpha = true ∧ d.isUpper = true := by
      intro d hd
      rw [← hfirst, List.mem_map] at hd
      obtain ⟨e, he, rfl⟩ := hd
      have hsmall := hsmall e (List.mem_append_left more he)
      exact ⟨hsmall.upper_alpha, hsmall.upper_upper⟩
    have hletters : (typed ++ c :: a').filter Char.isAlpha = typed.filter Char.isAlpha ++ c :: a' := by
      rw [List.filter_append, List.filter_eq_self.2 fun d hd => (hupper d hd).1]
    have hall : (c :: a').all Char.isUpper = true := List.all_eq_true.2 fun d hd => (hupper d hd).2
    rw [Bool.and_eq_true] at hcapital
    simp only [matchCase, hletters, List.all_append, hcapital.2, hall]
    simpa [upper] using hmore
  · subst h
    have hlower : lower (c :: a') = c :: a' :=
      (List.map_congr_left fun d hd => (hsmall d (List.mem_append_left b hd)).lower).trans
        (List.map_id' _)
    refine ⟨b, by rw [hlower], ?_⟩
    have hc := hsmall c (by simp)
    simp [matchCase, List.filter_append, hc.alpha, hc.not_upper]

theorem ne_nil_of_matchCase (h : matchCase typed rest = b) (hb : b ≠ []) : rest ≠ [] := by
  rintro rfl
  simp [matchCase, upper] at h
  exact hb h

theorem length_matchCase (typed rest : List Char) : (matchCase typed rest).length = rest.length := by
  rw [matchCase]
  split
  · exact List.length_map _
  · rfl

/-- A part of a fixed word goes on with the start of its remainder to a longer part. -/
theorem part_ahead (hword : word ∈ fixedWords) (h : lower s ++ rest = word.toList)
    (hcase : matchCase s rest = a ++ b) (ha : a ≠ []) (hb : b ≠ []) :
    ∃ more, lower (s ++ a) ++ more = word.toList ∧ more ≠ [] ∧ matchCase (s ++ a) more = b ∧
      isPlainName (s ++ a) = true ∧ isWordOf literalWords (s ++ a) = false := by
  have hsmall : ∀ c ∈ rest, Small c := fun c hc =>
    small_of_fixed hword c (h ▸ List.mem_append_right _ hc)
  obtain ⟨more, rfl, hmore⟩ := matchCase_ahead hsmall hcase ha
  have hwhole : lower (s ++ a) ++ more = word.toList := by
    rw [← h, lower, List.map_append, List.append_assoc]
    rfl
  exact ⟨more, hwhole, ne_nil_of_matchCase hmore hb, hmore,
    isPlainName_of_fixed hword hwhole (by simp [ha]), not_literal_of_fixed hword hwhole⟩

end Case

end Words

section Ahead

variable {catalog : Catalog} {p next : Place} {names : Names} {query : Query} {l : Lexeme}
  {word a b : String} {rest : List Char} {cs : List String}

theorem walk_fixed (hp : p.afterGap.demand names = .word word next)
    (h : lower l.source ++ rest = word.toList) (hrest : rest ≠ []) (hl : l.kind ≠ .whitespace) :
    (walk catalog p names [l]).offers = [String.ofList (matchCase l.source rest)] := by
  have hpart : lower l.source ≠ word.toList := by
    rw [← h]
    simpa using hrest
  have hdrop : word.toList.drop (lower l.source).length = rest := by rw [← h, List.drop_left]
  have hstart : (lower l.source).isPrefixOf word.toList = true := by
    rw [List.isPrefixOf_iff_prefix]
    exact ⟨rest, h⟩
  simp [walk, hl, Place.read, hp, onWord, hpart, hstart, hdrop]

/-- The part of a name is completed unless it is a constant. -/
theorem walk_part (hp : p.afterGap.demand names = .name query next)
    (hcs : candidates catalog names query = .ok cs) (h : String.ofList l.source ++ b ∈ cs)
    (hb : b ≠ "") (hplain : isPlainName l.source = true) :
    b ∈ (walk catalog p names [l]).offers ↔ isWordOf literalWords l.source = false := by
  rw [← isWord_of_isPlainName hplain]
  by_cases hl : isWord l = true
  · obtain ⟨offers, hwalk, -, hpart⟩ := walk_typed hp hl hcs
    have hnot : ¬Full cs (String.ofList l.source) := fun hfull => hb (hfull.2.2 b h)
    rw [hwalk]
    exact iff_of_true ((hpart hnot b).2 h) hl
  · have hblank := ne_whitespace_of_isPlainName hplain
    simp [walk, hblank, Place.read, hp, onName, hl, refuse]

theorem isPlainName_of_candidates (hplain : Catalog.Plain catalog)
    (hcs : candidates catalog names query = .ok cs) {n : String} (h : n ∈ cs) :
    isPlainName n.toList = true := by
  rw [candidates_eq] at hcs
  cases hanswer : catalog query with
  | error e => simp [hanswer, Except.map] at hcs
  | ok answer =>
    simp only [hanswer, Except.map, Except.ok.injEq] at hcs
    rw [← hcs, List.mem_filter] at h
    obtain ⟨hname, hquote⟩ := hplain query answer hanswer n h.1
    exact isPlainName_of_identifier (solid_of_isName hname).2 hquote

theorem fixed_of_demand (hp : p.demand names = .word word next) (h : 2 ≤ word.length) :
    word ∈ fixedWords := by
  have hall : ∀ w ∈ wantedWords, 2 ≤ w.length → w ∈ fixedWords := by decide
  exact hall word (mem_wantedWords hp) h

theorem two_le_length (ha : a ≠ "") (hb : b ≠ "") : 2 ≤ (a ++ b).length := by
  have hpos : ∀ s : String, s ≠ "" → 0 < s.length := by
    intro s hs
    rw [← String.length_toList]
    exact List.length_pos_of_ne_nil (by simpa using hs)
  have ha := hpos a ha
  have hb := hpos b hb
  rw [String.length_append]
  omega

theorem fixed_ahead {typed : List Char} (ha : a ≠ "") (hb : b ≠ "")
    (hp : p.afterGap.demand names = .word word next) (h : lower typed ++ rest = word.toList)
    (hcase : (a ++ b).toList = matchCase typed rest) (hl : l.source = typed ++ a.toList) :
    isPlainName l.source = true ∧ b ∈ (walk catalog p names [l]).offers ∧
      isWordOf literalWords l.source = false := by
  have hlength := two_le_length ha hb
  have hfixed : word ∈ fixedWords := by
    refine fixed_of_demand hp ?_
    rw [← String.length_toList, hcase, length_matchCase] at hlength
    rw [← String.length_toList, ← h, List.length_append]
    omega
  rw [String.toList_append] at hcase
  obtain ⟨more, hwhole, hmore, hrest, hname, hliteral⟩ :=
    part_ahead hfixed h hcase.symm (by simpa using ha) (by simpa using hb)
  rw [← hl] at hwhole hrest hname hliteral
  refine ⟨hname, ?_, hliteral⟩
  rw [walk_fixed hp hwhole hmore (ne_whitespace_of_isPlainName hname), hrest, String.ofList_toList]
  exact List.mem_singleton_self b

/-- What is typed of an offer at the end of a text is a word, and is completed with the rest. -/
theorem walk_begun (hplain : Catalog.Plain catalog) (ha : a ≠ "") (hb : b ≠ "")
    (h : a ++ b ∈ (atEnd catalog names p.afterGap).offers) (hl : l.source = a.toList) :
    isPlainName a.toList = true ∧
      (b ∈ (walk catalog p names [l]).offers ↔ isWordOf literalWords a.toList = false) := by
  have hlength := two_le_length ha hb
  have hne : a.toList ≠ [] := by simpa using ha
  rw [atEnd] at h
  cases hp : p.afterGap.demand names with
  | gap next =>
    simp only [hp, List.mem_singleton] at h
    rw [h] at hlength
    exact absurd hlength (by decide)
  | nothing => simp [hp] at h
  | moreColumns =>
    simp only [hp, List.mem_cons, List.not_mem_nil, or_false] at h
    rcases h with h | h
    · rw [h] at hlength
      exact absurd hlength (by decide)
    · rw [h] at hlength
      exact absurd hlength (by decide)
  | word word next =>
    simp only [hp, List.mem_singleton] at h
    subst h
    have hnothing : l.source = [] ++ a.toList := hl
    obtain ⟨hname, hoffer, hliteral⟩ := fixed_ahead ha hb hp (List.nil_append _) rfl hnothing
    rw [hl] at hname hliteral
    exact ⟨hname, iff_of_true hoffer hliteral⟩
  | name query next =>
    cases hcs : candidates catalog names query with
    | error e => simp [hp, hcs, degrade] at h
    | ok cs =>
      have hmem : a ++ b ∈ cs := by simpa [hp, hcs] using h
      have hall := isPlainName_of_candidates hplain hcs hmem
      rw [String.toList_append] at hall
      have hname := isPlainName_of_append hall hne
      refine ⟨hname, ?_⟩
      rw [← hl]
      exact walk_part hp hcs (by rwa [hl, String.ofList_toList]) hb (hl ▸ hname)

theorem afterGap_afterGap (p : Place) : p.afterGap.afterGap = p.afterGap := by
  cases p <;> rfl

theorem afterGap_of_begun (ha : a ≠ "") (hb : b ≠ "") (h : a ++ b ∈ (atEnd catalog names p).offers) :
    p.afterGap = p := by
  have hspace : a ++ b ≠ " " := by
    intro hu
    have hlength := two_le_length ha hb
    rw [hu] at hlength
    exact absurd hlength (by decide)
  cases p with
  | gapBeforeInto | gapBeforeKeyspace | gapBeforeColumn | gapBeforeValues =>
    exact absurd (List.mem_singleton.1 h) hspace
  | _ => rfl

theorem split_behind {r s : List Char} {m : Mode} (h : endMode r = some m)
    (hends : m.endsAt s = true) (hs : isPlainName s = true) : split (r ++ s) = [r, s] := by
  rw [split_append h hends, split_single (endMode_of_isPlainName hs)]

theorem fits_of_source {k : Lexeme} {names' : Names} (h : Fits p names l next names')
    (hk : k.source = l.source) : Fits p names k next names' := by
  cases h with
  | word hp hl => exact .word hp (hk ▸ hl)
  | name hp hl =>
    rw [← hk]
    refine .name hp ?_
    rwa [isWord, Lexeme.kind, hk]
  | comma hp hl => exact .comma hp (by rwa [Lexeme.kind, hk])
  | close hp hl => exact .close hp (hk.trans hl)

/-- With the first part of an offer typed behind the last piece of a text, the rest is offered
again, unless the piece at the end is a constant. -/
theorem last_ahead (hplain : Catalog.Plain catalog) {m : Mode} (hm : endMode l.source = some m)
    (ha : a ≠ "") (hb : b ≠ "") (h : a ++ b ∈ (walk catalog p names [l]).offers) (n : Nat) :
    b ∈ (walk catalog p names (Lexeme.place n (split (l.source ++ a.toList)))).offers ↔
      isWordOf literalWords (lastPiece (Lexeme.place n (split (l.source ++ a.toList)))) = false := by
  have hnamed : Catalog.Named catalog := fun query answer hanswer k hk =>
    (hplain query answer hanswer k hk).1
  have hne : a.toList ≠ [] := by simpa using ha
  have hsource : l.source ≠ [] := by
    intro hnil
    rw [hnil] at hm
    cases hm
  by_cases hl : l.kind = .whitespace
  · rw [walk, if_pos hl, walk, ← afterGap_afterGap] at h
    have hbegun (k : Nat) := walk_begun (l := ⟨k, a.toList⟩) hplain ha hb h rfl
    obtain ⟨hname, -⟩ := hbegun 0
    have hends := blanks_endsAt hne (ne_whitespace_of_isPlainName (l := ⟨0, a.toList⟩) hname) []
    rw [List.append_nil] at hends
    have hkind : Lexeme.kind ⟨n, l.source⟩ = .whitespace := hl
    rw [split_behind hm (by rwa [endMode_of_whitespace hm hl]) hname, Lexeme.place, walk,
      if_pos hkind]
    exact (hbegun _).2
  · rcases last_cases hnamed hl h with ⟨next, names', hfits, hname, hu⟩ |
      ⟨word, next, hp, hpart, hu⟩ | ⟨query, next, cs, hp, hcs, hn⟩
    · have hgap := afterGap_of_begun ha hb hu
      have hends := endsAt_offer hfits hname hm hu
      rw [String.toList_append, Mode.endsAt_append hne] at hends
      rw [← hgap] at hu
      have hbegun (k : Nat) := walk_begun (l := ⟨k, a.toList⟩) hplain ha hb hu rfl
      have hkind : Lexeme.kind ⟨n, l.source⟩ ≠ .whitespace := hl
      have hread : p.afterGap.read catalog names ⟨n, l.source⟩ false = .advance next names' [] :=
        read_of_fits (fits_of_source hfits rfl) (by simp)
      rw [split_behind hm hends (hbegun 0).1, Lexeme.place, walk, if_neg hkind]
      simp only [Lexeme.place, List.isEmpty_cons, hread]
      exact (hbegun _).2
    · rw [List.isPrefixOf_iff_prefix] at hpart
      obtain ⟨hname, hoffer, hliteral⟩ :
          isPlainName (l.source ++ a.toList) = true ∧
            b ∈ (walk catalog p names [⟨n, l.source ++ a.toList⟩]).offers ∧
            isWordOf literalWords (l.source ++ a.toList) = false :=
        fixed_ahead (l := ⟨n, l.source ++ a.toList⟩) ha hb hp (List.prefix_append_drop hpart).symm
          hu rfl
      rw [split_single (endMode_of_isPlainName hname)]
      exact iff_of_true hoffer hliteral
    · have hwhole := isPlainName_of_candidates hplain hcs hn
      rw [String.toList_append, String.toList_append, String.toList_ofList, ← List.append_assoc]
        at hwhole
      have hname := isPlainName_of_append hwhole (by simp [hsource])
      rw [split_single (endMode_of_isPlainName hname)]
      refine walk_part hp hcs ?_ hb hname
      rwa [String.ofList_append, String.ofList_toList, String.append_assoc]

/-- What is offered is decided by the last piece and the place where the walk comes to it. -/
theorem walk_front {front : List Lexeme} {u : String}
    (h : u ∈ (walk catalog p names (front ++ [l])).offers) :
    ∃ q names', u ∈ (walk catalog q names' [l]).offers ∧ ∀ tail, tail ≠ [] →
      (walk catalog p names (front ++ tail)).offers = (walk catalog q names' tail).offers := by
  induction front generalizing p names with
  | nil => exact ⟨p, names, h, fun _ _ => rfl⟩
  | cons k front ih =>
    rw [List.cons_append] at h
    by_cases hk : k.kind = .whitespace
    · rw [walk, if_pos hk] at h
      obtain ⟨q, names', hu, htail⟩ := ih h
      refine ⟨q, names', hu, fun tail hne => ?_⟩
      rw [List.cons_append, walk, if_pos hk]
      exact htail tail hne
    · have hlast (tail : List Lexeme) (hne : tail ≠ []) : (front ++ tail).isEmpty = false := by
        simp [hne]
      rw [walk, if_neg hk, hlast [l] (by simp)] at h
      rcases read_cases catalog p.afterGap names k false with ⟨next, names', hfits⟩ |
        ⟨found, hread, -, hnone⟩
      · have hread : p.afterGap.read catalog names k false = .advance next names' [] :=
          read_of_fits hfits (by simp)
        rw [hread] at h
        obtain ⟨q, names'', hu, htail⟩ := ih h
        refine ⟨q, names'', hu, fun tail hne => ?_⟩
        rw [List.cons_append, walk, if_neg hk, hlast tail hne, hread]
        exact htail tail hne
      · rw [hread, hnone rfl] at h
        cases h

end Ahead

section Statement

variable {catalog : Catalog} {l : Lexeme} {a b input : String}

theorem not_insert_of_part {word : String} {more : List Char} (hword : word ∈ statementKeywords)
    (h : lower l.source ++ more = word.toList) (hmore : more ≠ []) :
    ¬l.token.isKeyword "insert" = true := by
  intro hinsert
  simp only [Token.isKeyword, Token.is, Bool.and_eq_true, beq_iff_eq] at hinsert
  have hkind : l.kind = .keyword := hinsert.1
  have hlower : lower l.source = "insert".toList := by
    simpa [Lexeme.token, Lexeme.text, hkind] using congrArg String.toList hinsert.2
  have honly : ∀ word ∈ statementKeywords, "insert".toList <+: word.toList → word = "insert" := by
    decide
  rw [hlower] at h
  rw [honly word hword ⟨more, h⟩] at h
  exact hmore (List.append_right_eq_self.1 h)

/-- A keyword of a statement that is typed in parts is not complete before its end. -/
theorem first_ahead (ha : a ≠ "") (hb : b ≠ "") (hword : isWord l = true)
    (hinsert : l.token.isKeyword "insert" = false)
    (h : a ++ b ∈ (onStatement catalog l []).offers) (n : Nat) :
    isPlainName (l.source ++ a.toList) = true ∧
      isWordOf literalWords (l.source ++ a.toList) = false ∧
      b ∈ (onStatement catalog ⟨n, l.source ++ a.toList⟩ []).offers := by
  have hne : l.source ≠ [] := by simpa using source_ne_empty hword
  simp only [onStatement, hinsert, hword, Bool.false_eq_true, if_false, List.isEmpty_nil,
    Bool.and_self, if_true, List.mem_map] at h
  obtain ⟨rest, hrest, hu⟩ := h
  rw [mem_complete_iff _ (by simpa [lower] using hne)] at hrest
  have hfixed : String.ofList (lower l.source) ++ rest ∈ fixedWords := by
    simp [fixedWords, hrest]
  have hpart : lower l.source ++ rest.toList = (String.ofList (lower l.source) ++ rest).toList := by
    rw [String.toList_append, String.toList_ofList]
  have hcases : matchCase l.source rest.toList = a.toList ++ b.toList := by
    rw [← String.toList_append, ← hu, String.toList_ofList]
  obtain ⟨more, hwhole, hmany, hcase, hplain, hliteral⟩ :=
    part_ahead hfixed hpart hcases (by simpa using ha) (by simpa using hb)
  have hgrown := (isWord_of_isPlainName (l := ⟨n, l.source ++ a.toList⟩) hplain).2 hliteral
  have hother := not_insert_of_part (l := ⟨n, l.source ++ a.toList⟩) hrest hwhole hmany
  refine ⟨hplain, hliteral, ?_⟩
  rw [onStatement, if_neg hother, hgrown]
  simp only [List.isEmpty_nil, Bool.and_self, if_true, List.mem_map]
  refine ⟨String.ofList more, ?_, ?_⟩
  · rw [mem_complete_iff _ (by simp [lower, hne]), ← String.ofList_append, hwhole,
      String.ofList_toList]
    exact hrest
  · rw [String.toList_ofList, hcase, String.ofList_toList]

theorem statement_of_offer {lexemes : List Lexeme} {u : String}
    (h : u ∈ (walkStatement catalog lexemes).offers) :
    ∃ blanks l ls, lexemes = blanks ++ l :: ls ∧ (∀ b ∈ blanks, b.kind = .whitespace) ∧
      l.kind ≠ .whitespace := by
  induction lexemes with
  | nil => cases h
  | cons l ls ih =>
    by_cases hl : l.kind = .whitespace
    · rw [walkStatement, if_pos hl] at h
      obtain ⟨blanks, k, rest, rfl, hblanks, hk⟩ := ih h
      refine ⟨l :: blanks, k, rest, rfl, ?_, hk⟩
      simpa [hl] using hblanks
    · exact ⟨[], l, ls, rfl, by simp, hl⟩

theorem lastPiece_append (front : List Lexeme) {tail : List Lexeme} (h : tail ≠ []) :
    lastPiece (front ++ tail) = lastPiece tail := by
  rw [lastPiece, List.getLast?_append_of_ne_nil front h, lastPiece]

theorem place_ne_nil {n : Nat} {r : List Char} (h : r ≠ []) : Lexeme.place n (split r) ≠ [] := by
  obtain ⟨c, s, rfl⟩ := List.exists_cons_of_ne_nil h
  simp [split, Lexeme.place]

/-- While an offer is typed, its rest stays on offer exactly if the text does not end in a word
that is a constant, as it can inside a name such as `nano` or `truth`. -/
theorem typed_ahead_iff (hplain : Catalog.Plain catalog) (ha : a ≠ "") (hb : b ≠ "")
    (h : a ++ b ∈ (complete catalog input).suffixes) :
    b ∈ (complete catalog (input ++ a)).suffixes ↔
      isWordOf literalWords (lastPiece (Lexeme.scan (input ++ a).toList)) = false := by
  rw [complete, mem_rankCandidates] at h
  rw [complete, mem_rankCandidates, and_iff_left hb, String.toList_append]
  obtain ⟨blanks, l, ls, hscan, hblanks, hl⟩ := statement_of_offer h.1
  have hoffer := h.1
  rw [hscan, walkStatement_blanks hblanks hl] at hoffer
  by_cases hinsert : l.token.isKeyword "insert" = true
  · rw [onStatement, if_pos hinsert] at hoffer
    by_cases hls : ls = []
    · -- Only a space is offered behind the first keyword.
      have hlength := two_le_length ha hb
      subst hls
      rw [List.mem_singleton.1 hoffer] at hlength
      exact absurd hlength (by decide)
    · obtain ⟨front, k, rfl⟩ : ∃ front k, ls = front ++ [k] :=
        ⟨_, _, (List.dropLast_concat_getLast hls).symm⟩
      have hlast : k ∈ Lexeme.scan input.toList := by simp [hscan]
      obtain ⟨m, hm⟩ := Option.isSome_iff_exists.1 (endMode_scan input.toList k hlast)
      have htail : Lexeme.place k.start (split (k.source ++ a.toList)) ≠ [] :=
        place_ne_nil (by simp [ha])
      have hwhole : Lexeme.scan input.toList = (blanks ++ l :: front) ++ [k] := by simp [hscan]
      have hgrown := scan_append hwhole a.toList
      obtain ⟨q, names', hu, hwalk⟩ := walk_front hoffer
      rw [hgrown, lastPiece_append _ htail, List.append_assoc, List.cons_append,
        walkStatement_insert hblanks hinsert, hwalk _ htail]
      exact last_ahead hplain hm ha hb hu k.start
  · have hword : isWord l = true ∧ ls = [] := by
      by_contra hnot
      rw [onStatement, if_neg hinsert] at hoffer
      simp [hnot] at hoffer
    obtain ⟨hword, rfl⟩ := hword
    obtain ⟨hname, hliteral, hrest⟩ :=
      first_ahead ha hb hword (by simpa using hinsert) hoffer l.start
    rw [scan_append hscan, split_single (endMode_of_isPlainName hname), Lexeme.place, Lexeme.place,
      lastPiece_append blanks (by simp)]
    have hkind := ne_whitespace_of_isPlainName (l := ⟨l.start, l.source ++ a.toList⟩) hname
    rw [walkStatement_blanks hblanks hkind]
    exact iff_of_true hrest hliteral

theorem plain_of_answer {names : List String}
    (h : ∀ n ∈ names, IsName n ∧ n.toList.head? ≠ some '"') : Catalog.Plain fun _ => .ok names := by
  intro query answer hanswer
  obtain rfl := Except.ok.inj hanswer
  exact h

theorem isName_nano : IsName "nano" ∧ "nano".toList.head? ≠ some '"' := by
  decide +kernel

/-- The name `nano` is completed behind its first two letters, and not behind the third. -/
theorem typed_ahead_iff_nano :
    let catalog : Catalog := fun _ => .ok ["nano"]
    "nano" ∈ (complete catalog "insert into ").suffixes ∧
      "no" ∈ (complete catalog "insert into na").suffixes ∧
      "o" ∉ (complete catalog "insert into nan").suffixes := by
  intro catalog
  have hplain : Catalog.Plain catalog := plain_of_answer (by simpa using isName_nano)
  have hoffer : "nano" ∈ (complete catalog "insert into ").suffixes :=
    (mem_rankCandidates _ _).2 ⟨by decide +kernel, by decide⟩
  refine ⟨hoffer, ?_, ?_⟩
  · exact (typed_ahead_iff (a := "na") (b := "no") hplain (by decide) (by decide) hoffer).2
      (by decide +kernel)
  · intro hrest
    have hliteral := (typed_ahead_iff (a := "nan") (b := "o") hplain (by decide) (by decide) hoffer).1
      hrest
    exact absurd hliteral (by decide +kernel)

/-- The rest of `nano` is no longer offered when its first three letters are typed. -/
theorem offer_lost : ¬∀ (catalog : Catalog) (input a b : String), Catalog.Plain catalog →
    a ≠ "" → b ≠ "" → a ++ b ∈ (complete catalog input).suffixes →
    b ∈ (complete catalog (input ++ a)).suffixes := by
  intro hall
  have hoffer : "nan" ++ "o" ∈ (complete (fun _ => .ok ["nano"]) "insert into ").suffixes :=
    (mem_rankCandidates _ _).2 ⟨by decide +kernel, by decide⟩
  have hplain : Catalog.Plain fun _ => .ok ["nano"] := plain_of_answer (by simpa using isName_nano)
  have hrest := hall _ _ _ _ hplain (by decide) (by decide) hoffer
  have hnone : "o" ∉ (walkStatement (fun _ => .ok ["nano"])
      (Lexeme.scan ("insert into " ++ "nan").toList)).offers := by decide +kernel
  exact hnone ((mem_rankCandidates _ _).1 hrest).1

end Statement

end CqlConsole.Completion
