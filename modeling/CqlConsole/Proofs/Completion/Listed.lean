import CqlConsole.Proofs.Completion.Question
import CqlConsole.Proofs.Token.Names

/-!
# Columns that are listed already

Behind a list of columns, completion leaves out the columns that are listed in
their own spelling. A column in another spelling of its name, in capitals or in
quotes, is listed as well for the statement but not for the completion, which
offers it again.
-/

set_option autoImplicit false

namespace CqlConsole.Completion

open CqlConsole.Text CqlConsole.Run

def listing (columns : List String) : List String :=
  columns.flatMap fun c => [c, ","]

/-- The words of a target up to its columns, `insert` and `into` in any case of their letters. -/
def Heads (keyspace table : String) (ws : List String) : Prop :=
  ∃ insert into, ws = [insert, into, keyspace, ".", table, "("]

def Place.Written (names : Names) (ws : List String) : Place → Prop
  | gapBeforeInto | into => ws.length = 1 ∧ names.columns = []
  | gapBeforeKeyspace | keyspace => ws.length = 2 ∧ names.columns = []
  | dot => (∃ a b, ws = [a, b, names.keyspace]) ∧ names.columns = []
  | table => (∃ a b, ws = [a, b, names.keyspace, "."]) ∧ names.columns = []
  | columnsOpen => (∃ a b, ws = [a, b, names.keyspace, ".", names.table]) ∧ names.columns = []
  | column | gapBeforeColumn =>
    ∃ front, Heads names.keyspace names.table front ∧ ws = front ++ listing names.columns
  | afterColumn =>
    ∃ front cs c, Heads names.keyspace names.table front ∧ names.columns = cs ++ [c] ∧
      ws = front ++ listing cs ++ [c]
  | _ => True

section Words

variable {p next : Place} {names names' : Names} {l : Lexeme} {ls : List Lexeme} {query : Query}
  {listed ws : List String} {w keyspace table : String}

theorem listing_append (cs : List String) (c : String) :
    listing (cs ++ [c]) = listing cs ++ [c, ","] := by
  simp [listing]

theorem source_of_comma (h : l.kind = .comma) : l.source = [','] := by
  have hnot : plainKind l.source ≠ .comma := plainKind_ne (by decide) l.source
  rw [Lexeme.kind, kind] at h
  split_ifs at h
  cases hp : punctuationKind l.source with
  | none => exact absurd (by simpa [hp] using h) hnot
  | some k =>
    obtain rfl : k = .comma := by simpa [hp] using h
    unfold punctuationKind at hp
    split at hp <;> first | assumption | cases hp

theorem source_of_sign {word : String} {d : Char} (h : lower l.source = word.toList)
    (hword : word.toList = [d]) (hd : d.isAlpha = false) : String.ofList l.source = word := by
  rw [eq_of_lower_sign (h.trans hword) hd, ← hword, String.ofList_toList]

theorem written_afterGap (h : p.Written names ws) : p.afterGap.Written names ws := by
  cases p <;> exact h

theorem words_blanks {blanks : List Lexeme} (hblanks : ∀ b ∈ blanks, b.kind = .whitespace)
    (hl : l.kind ≠ .whitespace) : words (blanks ++ l :: ls) = String.ofList l.source :: words ls := by
  induction blanks with
  | nil => rw [List.nil_append, words_cons, if_neg hl]
  | cons b blanks ih =>
    obtain ⟨hb, hblanks⟩ := List.forall_mem_cons.1 hblanks
    rw [List.cons_append, words_cons, if_pos hb, ih hblanks]

theorem ne_whitespace_of_insert (h : l.token.isKeyword "insert" = true) : l.kind ≠ .whitespace := by
  intro hkind
  simp [Token.isKeyword, Token.is, Lexeme.token, hkind] at h

/-- The word that fits is added to those in front of the place. -/
theorem written_step (hfits : Fits p names l next names') (h : p.Written names ws) :
    next.Written names' (ws ++ [String.ofList l.source]) := by
  cases hfits with
  | word hp hl =>
    rcases demand_word_cases hp with ⟨rfl, rfl, rfl⟩ | ⟨rfl, rfl, rfl⟩ | ⟨rfl, rfl, rfl⟩ |
      ⟨rfl, rfl, rfl⟩ | ⟨rfl, rfl, rfl⟩
    · exact ⟨by simp [h.1], h.2⟩
    · obtain ⟨⟨a, b, rfl⟩, hnone⟩ := h
      rw [source_of_sign hl rfl rfl]
      exact ⟨⟨a, b, rfl⟩, hnone⟩
    · obtain ⟨⟨a, b, rfl⟩, hnone⟩ := h
      rw [source_of_sign hl rfl rfl]
      refine ⟨_, ⟨a, b, rfl⟩, ?_⟩
      simp [hnone, listing]
    · trivial
    · trivial
  | name hp _ =>
    rcases demand_name_cases hp with ⟨rfl, rfl, rfl⟩ | ⟨rfl, rfl, rfl⟩ | ⟨rfl, rfl, rfl⟩
    · obtain ⟨a, b, rfl⟩ := List.length_eq_two.1 h.1
      exact ⟨⟨a, b, rfl⟩, h.2⟩
    · obtain ⟨⟨a, b, rfl⟩, hnone⟩ := h
      exact ⟨⟨a, b, rfl⟩, hnone⟩
    · obtain ⟨front, hfront, rfl⟩ := h
      exact ⟨front, names.columns, String.ofList l.source, hfront, rfl, rfl⟩
  | comma hp hl =>
    obtain rfl := demand_more hp
    obtain ⟨front, cs, c, hfront, hcolumns, rfl⟩ := h
    refine ⟨front, hfront, ?_⟩
    rw [hcolumns, listing_append, source_of_comma hl]
    simp
  | close hp _ =>
    obtain rfl := demand_more hp
    trivial

/-- The listed columns and what is typed of one more are the words behind the target. -/
theorem words_of_wants (h : Wants p names ls query listed w) (hws : p.Written names ws)
    (hquery : query = .columns keyspace table) :
    ∃ front, Heads keyspace table front ∧
      ws ++ words ls = front ++ listing listed ++ if w = "" then [] else [w] := by
  -- On the walk; `ws` grows with each word that fits, and `Written` says what it is at each place.
  induction h generalizing ws with
  | @ends p next names query hp =>
    rcases demand_name_cases hp with ⟨-, rfl, -⟩ | ⟨-, rfl, -⟩ | ⟨rfl, rfl, -⟩
    · cases hquery
    · cases hquery
    · cases hquery
      obtain ⟨front, hfront, rfl⟩ := hws
      exact ⟨front, hfront, by simp [words, Names.listed]⟩
  | @typed p next names query l hp hl =>
    have hword : words [l] = [String.ofList l.source] := by
      rw [words_cons, if_neg (ne_whitespace_of_isWord hl)]
      rfl
    have hnear := written_afterGap hws
    rcases demand_name_cases hp with ⟨-, rfl, -⟩ | ⟨-, rfl, -⟩ | ⟨hcolumn, rfl, -⟩
    · cases hquery
    · cases hquery
    · cases hquery
      rw [hcolumn] at hnear
      obtain ⟨front, hfront, rfl⟩ := hnear
      exact ⟨front, hfront, by rw [hword, if_neg (source_ne_empty hl)]; rfl⟩
  | blank hl _ ih =>
    rw [words_cons, if_pos hl]
    exact ih (written_afterGap hws) hquery
  | fits hl hfits _ ih =>
    rw [words_cons, if_neg hl, List.append_cons]
    exact ih (written_step hfits (written_afterGap hws)) hquery

end Words

section Asked

variable {p next : Place} {names names' : Names} {l : Lexeme} {ls : List Lexeme} {query : Query}
  {catalog : Catalog} {input : String} {listed answer : List String} {w : String}
  {e : ConsoleError}

theorem fit?_of_fits (h : Fits p names l next names') : p.fit? names l = some (next, names') := by
  cases h with
  | word hp hl => simp [Place.fit?, hp, hl]
  | name hp hl => simp [Place.fit?, hp, hl]
  | comma hp hl => simp [Place.fit?, hp, hl]
  | close hp hl =>
    have hcomma : l.kind ≠ .comma := fun h => by simp [source_of_comma h] at hl
    simp [Place.fit?, hp, hl, hcomma]

/-- What is wanted at the end of the text is what is asked for. -/
theorem question_of_wants (h : Wants p names ls query listed w) :
    question p names ls = some query := by
  induction h with
  | ends hp => exact query?_eq_some.2 ⟨_, hp⟩
  | typed hp hl =>
    have hfit := fit?_of_fits (.name hp hl)
    simp [question, ne_whitespace_of_isWord hl, hfit, query?_eq_some.2 ⟨_, hp⟩]
  | blank hl _ ih => rwa [question, if_pos hl]
  | @fits p next names names' l ls query listed w hl hfits hwants ih =>
    simp only [question, if_neg hl, fit?_of_fits hfits]
    split
    · rename_i hls
      obtain rfl := List.isEmpty_iff.1 hls
      have hnone : p.afterGap.query? names = none := by
        rw [Option.eq_none_iff_forall_ne_some]
        intro query' hquery
        obtain ⟨q, hp⟩ := query?_eq_some.1 hquery
        rw [fits_name hfits hp] at hwants
        cases hwants with
        | ends hnext => exact demand_after_name hp names' query _ hnext
      rw [hnone]
      exact ih
    · exact ih

theorem suffixes_of_error (h : Asks input query listed w) (he : catalog query = .error e) :
    (complete catalog input).suffixes = [] := by
  obtain ⟨blanks, l, ls, hscan, hblanks, hinsert, hwants⟩ := h
  have hdecides := walk_decides .gapBeforeInto {} ls
  rw [question_of_wants hwants] at hdecides
  obtain ⟨answered, hwalk, herror, -⟩ := hdecides
  have hfound : walk catalog .gapBeforeInto {} ls = degrade query e := by
    rw [← herror, ← he]
    exact hwalk catalog
  rw [complete, hscan, walkStatement_insert hblanks hinsert, hfound]
  simp [degrade, rankCandidates, dropRepeats]

/-- What the text wants behind the column `ID` is what all of it asks for. -/
theorem asks_of_wants (ls : List Lexeme)
    (hscan : Lexeme.scan input.toList =
      [⟨0, "insert".toList⟩, ⟨6, [' ']⟩, ⟨7, "into".toList⟩, ⟨11, [' ']⟩, ⟨12, "store".toList⟩,
        ⟨17, ['.']⟩, ⟨18, "users".toList⟩, ⟨23, [' ']⟩, ⟨24, ['(']⟩, ⟨25, "ID".toList⟩] ++ ls)
    (h : Wants .afterColumn ⟨"store", "users", ["ID"]⟩ ls query listed w) :
    Asks input query listed w :=
  ⟨[], _, _, hscan, by simp, by decide,
    .blank (by decide) (.fits (by decide) (.word rfl (by decide)) (.blank (by decide)
      (.fits (by decide) (.name rfl (by decide +kernel)) (.fits (by decide) (.word rfl (by decide))
        (.fits (by decide) (.name rfl (by decide +kernel)) (.blank (by decide)
          (.fits (by decide) (.word rfl (by decide))
            (.fits (by decide) (.name rfl (by decide +kernel)) h))))))))⟩

end Asked

section Again

variable {catalog : Catalog} {input keyspace table w : String} {listed : List String}

/-- Where one more column is wanted, no column is offered in a spelling in which it is listed. But a
listed column is offered under its name if the catalog has that name, it starts with what is typed,
and none of the columns is listed in that spelling. -/
theorem listed_again_iff (h : Asks input (.columns keyspace table) listed w) :
    (∃ front, Heads keyspace table front ∧
      words (Lexeme.scan input.toList) = front ++ listing listed ++ if w = "" then [] else [w]) ∧
    let suffixes := (complete catalog input).suffixes
    match catalog (.columns keyspace table) with
    | .error _ => suffixes = []
    | .ok answer =>
      ¬Full (answer.filter fun c => c ∉ listed) w →
        (∀ u ∈ suffixes, w ++ u ∉ listed) ∧
        ∀ v ∈ listed, (∃ u ∈ suffixes, w ++ u = identifierName v) ↔
          identifierName v ∈ answer ∧ identifierName v ∉ listed ∧
            ∃ u, u ≠ "" ∧ identifierName v = w ++ u := by
  constructor
  · obtain ⟨blanks, l, ls, hscan, hblanks, hinsert, hwants⟩ := h
    have hstart : Place.gapBeforeInto.Written {} [String.ofList l.source] := ⟨rfl, rfl⟩
    rw [hscan, words_blanks hblanks (ne_whitespace_of_insert hinsert)]
    exact words_of_wants hwants hstart rfl
  · intro suffixes
    cases hanswer : catalog (.columns keyspace table) with
    | error e => exact suffixes_of_error h hanswer
    | ok answer =>
      intro hpart
      have hmem := mem_suffixes_of_asks h hanswer hpart
      refine ⟨fun u hu => ((hmem u).1 hu).2.2, fun v hv => ⟨?_, ?_⟩⟩
      · rintro ⟨u, hu, heq⟩
        obtain ⟨hne, hknown, hnew⟩ := (hmem u).1 hu
        rw [heq] at hknown hnew
        exact ⟨hknown, hnew, u, hne, heq.symm⟩
      · rintro ⟨hknown, hnew, u, hne, heq⟩
        rw [heq] at hknown hnew
        exact ⟨u, (hmem u).2 ⟨hne, hknown, hnew⟩, heq.symm⟩

/-- A column in capitals is offered again behind the start of its name, one in its own spelling is
not. -/
theorem listed_again_iff_users :
    let catalog : Catalog := fun _ => .ok ["id", "name", "email", "items"]
    let input := "insert into store.users (ID, items, i"
    Asks input (.columns "store" "users") ["ID", "items"] "i" ∧
      (∃ u ∈ (complete catalog input).suffixes, "i" ++ u = "id") ∧
      ∀ u ∈ (complete catalog input).suffixes, "i" ++ u ≠ "items" := by
  intro catalog input
  have hasks : Asks input (.columns "store" "users") ["ID", "items"] "i" :=
    asks_of_wants [⟨27, [',']⟩, ⟨28, [' ']⟩, ⟨29, "items".toList⟩, ⟨34, [',']⟩, ⟨35, [' ']⟩,
        ⟨36, ['i']⟩] (by decide +kernel)
      (.fits (by decide) (.comma rfl (by decide)) (.blank (by decide)
        (.fits (by decide) (.name rfl (by decide +kernel)) (.fits (by decide)
          (.comma rfl (by decide)) (.blank (by decide) (.typed rfl (by decide +kernel)))))))
  have hpart : ¬Full (["id", "name", "email", "items"].filter fun c => c ∉ ["ID", "items"]) "i" :=
    fun h => absurd h.2.1 (by decide)
  obtain ⟨hspelled, hnamed⟩ := (@listed_again_iff catalog _ _ _ _ _ hasks).2 hpart
  refine ⟨hasks, (hnamed "ID" (by decide)).2 ?_, fun u hu heq => hspelled u hu ?_⟩
  · exact ⟨by decide, by decide, "d", by decide, by decide⟩
  · rw [heq]
    decide

/-- The column `id` is offered behind `ID`, its name in capitals. -/
theorem listed_offered_again : ¬∀ (catalog : Catalog) (input keyspace table w : String)
    (listed answer : List String), Asks input (.columns keyspace table) listed w →
    catalog (.columns keyspace table) = .ok answer →
    ¬Full (answer.filter fun c => c ∉ listed) w →
    ∀ u ∈ (complete catalog input).suffixes, ∀ v ∈ listed,
      w ++ u ≠ v ∧ w ++ u ≠ identifierName v := by
  intro hall
  have hasks : Asks "insert into store.users (ID, " (.columns "store" "users") ["ID"] "" :=
    asks_of_wants [⟨27, [',']⟩, ⟨28, [' ']⟩] (by decide +kernel)
      (.fits (by decide) (.comma rfl (by decide)) (.blank (by decide) (.ends rfl)))
  have hpart : ¬Full (["id", "name", "email"].filter fun c => c ∉ ["ID"]) "" := fun h => h.1 rfl
  have hoffer : "id" ∈
      (complete (fun _ => .ok ["id", "name", "email"]) "insert into store.users (ID, ").suffixes :=
    (mem_suffixes_of_asks hasks rfl hpart "id").2 (by decide)
  exact (hall _ _ _ _ _ _ _ hasks rfl hpart "id" hoffer "ID" (by simp)).2 (by decide)

end Again

end CqlConsole.Completion
