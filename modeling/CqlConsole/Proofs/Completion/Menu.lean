import CqlConsole.Completion.Suggestion
import CqlConsole.Proofs.Completion.Lookup
import CqlConsole.Proofs.Token.Names

/-!
# The menu shows whole words

A suggestion replaces the word at the end of a line by a longer one, so taking it
is the same as appending what was offered. Where a name is wanted, the word that
is replaced is what the walk takes for the start of the name: the walk stops on
this very word, or on a blank or a sign behind which no word has begun. The menu
then shows the names of the catalog themselves.
-/

set_option autoImplicit false

namespace CqlConsole.Completion

open CqlConsole.Run CqlConsole.Text

namespace Suggestion

def apply (s : Suggestion) (line : String) : String :=
  String.ofList (takeBytes s.start line.toList) ++ s.value ++
    String.ofList (dropBytes s.stop line.toList)

/-- The suggestion replaces an end of the line, cut between two characters, and what it makes of the
line is the line with the suffix appended. -/
structure Appends (line suffix : String) (s : Suggestion) : Prop where
  boundary : ∃ front word, line = front ++ word ∧ s.start = front.utf8ByteSize
  start_le : s.start ≤ s.stop
  stop_eq : s.stop = line.utf8ByteSize
  apply_eq : s.apply line = line ++ suffix

theorem appends_of_cut (front word suffix : String) :
    Appends (front ++ word) suffix
      ⟨word ++ suffix, front.utf8ByteSize, (front ++ word).utf8ByteSize, false⟩ := by
  refine ⟨⟨front, word, rfl, rfl⟩, ?_, rfl, ?_⟩
  · show front.utf8ByteSize ≤ (front ++ word).utf8ByteSize
    rw [String.utf8ByteSize_append]
    omega
  · have hend : dropBytes (byteSize (front ++ word).toList) (front ++ word).toList = [] := by
      simpa using dropBytes_byteSize_append (front ++ word).toList []
    rw [apply, utf8ByteSize_eq, utf8ByteSize_eq, hend, String.toList_append,
      takeBytes_byteSize_append, String.ofList_toList]
    simp [String.append_assoc]

end Suggestion

section LastWord

variable {p next : Place} {names names' : Names} {l : Lexeme} {ls front : List Lexeme}
  {query : Query} {listed : List String} {w : String} (size : Nat)

theorem lastWord_append (front : List Lexeme) (hls : ls ≠ []) :
    lastWord size (front ++ ls) = lastWord size ls := by
  rw [lastWord, lastWord, List.getLast?_append_of_ne_nil front hls]

theorem lastWord_cons (l : Lexeme) (hls : ls ≠ []) : lastWord size (l :: ls) = lastWord size ls :=
  lastWord_append size [l] hls

theorem lastWord_single (l : Lexeme) :
    lastWord size [l] = if isWord l then (l.start, l.source) else (size, []) := rfl

theorem lastWord_cut (line : String) :
    ∃ front word : String, line = front ++ word ∧
      lastWord (byteSize line.toList) (Lexeme.scan line.toList) =
        (front.utf8ByteSize, word.toList) := by
  have hnone : line = line ++ "" := String.append_empty.symm
  rcases List.eq_nil_or_concat (Lexeme.scan line.toList) with h | ⟨before, l, h⟩
  · exact ⟨line, "", hnone, by rw [h, utf8ByteSize_eq]; rfl⟩
  · rw [List.concat_eq_append] at h
    rw [h, lastWord_append _ before (List.cons_ne_nil l []), lastWord_single]
    by_cases hl : isWord l = true
    · have hflat := split_flatten line.toList
      rw [← split_scan, h, List.map_append, List.flatten_append] at hflat
      refine ⟨String.ofList (before.map Lexeme.source).flatten, String.ofList l.source, ?_, ?_⟩
      · rw [← String.ofList_append, ← String.toList_inj, ← hflat]
        simp
      · rw [if_pos hl, utf8ByteSize_ofList, (last_scan h).2, String.toList_ofList]
    · exact ⟨line, "", hnone, by rw [if_neg hl, utf8ByteSize_eq]; rfl⟩

theorem isWord_of_sign {d : Char} (h : lower l.source = [d]) (hd : d.isAlpha = false)
    (hword : isWord ⟨l.start, [d]⟩ = false) : isWord l = false := by
  obtain ⟨start, source⟩ := l
  obtain rfl : source = [d] := eq_of_lower_sign h hd
  exact hword

theorem isWord_before_name (h : Fits p names l next names') {q : Place}
    (hnext : next.demand names' = .name query q) : isWord l = false := by
  cases h with
  | word hp hl =>
    rcases demand_word_cases hp with ⟨-, -, rfl⟩ | ⟨-, rfl, -⟩ | ⟨-, rfl, -⟩ | ⟨-, -, rfl⟩ |
      ⟨-, -, rfl⟩
    · cases hnext
    · exact isWord_of_sign hl rfl rfl
    · exact isWord_of_sign hl rfl rfl
    · cases hnext
    · cases hnext
  | name hp _ => exact absurd hnext (demand_after_name hp _ _ _)
  | comma _ _ => cases hnext
  | close _ _ => cases hnext

/-- Behind a lexeme that is no word if a name is wanted at once, the last word is what is typed. -/
theorem lastWord_of_wants (h : Wants p names ls query listed w)
    (hl : ∀ query q, p.demand names = .name query q → isWord l = false) :
    (lastWord size (l :: ls)).2 = w.toList := by
  -- On the walk, with the lexeme that led to the place.
  induction h generalizing l with
  | ends hp => simp [lastWord_single, hl _ _ hp]
  | @typed p next names query m hp hword =>
    rw [lastWord_cons size l (List.cons_ne_nil m []), lastWord_single, if_pos hword,
      String.toList_ofList]
  | @blank p names m ls query listed w hblank _ ih =>
    rw [lastWord_cons size l (List.cons_ne_nil m ls)]
    apply ih
    intro query q _
    simp [isWord, hblank]
  | @fits p next names names' m ls query listed w _ hfits _ ih =>
    rw [lastWord_cons size l (List.cons_ne_nil m ls)]
    apply ih
    intro query q hnext
    exact isWord_before_name hfits hnext

theorem lastWord_of_asks {line : String} (h : Asks line query listed w) :
    (lastWord size (Lexeme.scan line.toList)).2 = w.toList := by
  obtain ⟨blanks, l, ls, hscan, -, -, hwants⟩ := h
  rw [hscan, lastWord_append size blanks (List.cons_ne_nil l ls)]
  exact lastWord_of_wants size hwants fun query q hp => by cases hp

end LastWord

section Menu

variable (catalog : Catalog) (line : String)

theorem suggestions_eq : ∃ front word : String, line = front ++ word ∧
    (lastWord (byteSize line.toList) (Lexeme.scan line.toList)).2 = word.toList ∧
    suggestions catalog line line.utf8ByteSize = (complete catalog line).suffixes.map fun suffix =>
      ⟨word ++ suffix, front.utf8ByteSize, line.utf8ByteSize, false⟩ := by
  obtain ⟨front, word, hline, hcut⟩ := lastWord_cut line
  refine ⟨front, word, hline, congrArg Prod.snd hcut, ?_⟩
  rw [suggestions, utf8ByteSize_eq]
  simp [hcut]

/-- Suggestions are made at the end of a line only, one for each suffix and in the same order, and
taking one appends its suffix. Where a name is wanted they are what is typed of it with the suffix
behind, and unless a name in full is typed, just the names that go on behind what is typed. -/
theorem suggestions_append :
    (∀ position, position ≠ line.utf8ByteSize → suggestions catalog line position = []) ∧
    let menu := suggestions catalog line line.utf8ByteSize
    List.Forall₂ (Suggestion.Appends line) (complete catalog line).suffixes menu ∧
    ∀ query listed w answer, Asks line query listed w → catalog query = .ok answer →
      let cs := answer.filter fun c => c ∉ listed
      List.Forall₂ (fun suffix s => s.value = w ++ suffix) (complete catalog line).suffixes menu ∧
      (¬Full cs w → ∀ c, c ∈ menu.map Suggestion.value ↔ c ∈ cs ∧ ∃ u, u ≠ "" ∧ c = w ++ u) := by
  obtain ⟨front, word, hline, hword, hmenu⟩ := suggestions_eq catalog line
  refine ⟨fun position hposition => ?_, ?_, fun query listed w answer hasks hanswer => ?_⟩
  · rw [suggestions, ← utf8ByteSize_eq]
    exact if_pos hposition
  · rw [hmenu, List.forall₂_map_right_iff, List.forall₂_same]
    intro suffix _
    rw [hline]
    exact Suggestion.appends_of_cut front word suffix
  · obtain rfl : word = w := by
      rw [← String.toList_inj, ← hword, lastWord_of_asks _ hasks]
    rw [hmenu]
    refine ⟨?_, fun hpart c => ?_⟩
    · rw [List.forall₂_map_right_iff, List.forall₂_same]
      exact fun suffix _ => rfl
    · have hmem := mem_suffixes_of_asks hasks hanswer hpart
      rw [List.map_map, List.mem_map, List.mem_filter]
      constructor
      · rintro ⟨u, hu, rfl⟩
        obtain ⟨hne, hknown, hnew⟩ := (hmem u).1 hu
        exact ⟨⟨hknown, by simpa using hnew⟩, u, hne, rfl⟩
      · rintro ⟨⟨hknown, hnew⟩, u, hne, rfl⟩
        exact ⟨u, (hmem u).2 ⟨hne, hknown, by simpa using hnew⟩, rfl⟩

/-- Behind a keyspace and its point, the tables that start with what is typed are shown by their
names, which replace the last two bytes. -/
theorem suggestions_append_tables :
    let catalog : Catalog := fun _ => .ok ["users", "orders", "user_roles"]
    let line := "INSERT INTO Store.us"
    let menu := suggestions catalog line 20
    (Asks line (.tables "Store") [] "us" ∧ ¬Full ["users", "orders", "user_roles"] "us") ∧
    (∀ c, c ∈ menu.map Suggestion.value ↔
      c ∈ ["users", "orders", "user_roles"] ∧ ∃ u, u ≠ "" ∧ c = "us" ++ u) ∧
    (complete catalog line).suffixes.length = menu.length ∧ suggestions catalog line 18 = [] := by
  intro catalog line menu
  have hasks : Asks line (.tables "Store") [] "us" :=
    ⟨[], ⟨0, "INSERT".toList⟩, [⟨6, [' ']⟩, ⟨7, "INTO".toList⟩, ⟨11, [' ']⟩, ⟨12, "Store".toList⟩,
        ⟨17, ['.']⟩, ⟨18, "us".toList⟩], by decide +kernel, by simp, by decide,
      .blank (by decide) (.fits (by decide) (.word rfl (by decide)) (.blank (by decide)
        (.fits (by decide) (.name rfl (by decide +kernel)) (.fits (by decide)
          (.word rfl (by decide)) (.typed rfl (by decide +kernel))))))⟩
  have hpart : ¬Full ["users", "orders", "user_roles"] "us" := fun h => absurd h.2.1 (by decide)
  obtain ⟨hend, happends, hnames⟩ := suggestions_append catalog line
  have hmenu := (hnames _ _ _ _ hasks rfl).2 hpart
  exact ⟨⟨hasks, hpart⟩, hmenu, happends.length_eq, hend 18 (by decide)⟩

end Menu

end CqlConsole.Completion
