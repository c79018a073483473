import CqlConsole.Proofs.Insert.Language
import Mathlib.Tactic.IntervalCases

/-!
# Prefixes of sentences

Every state can still reach the end of a statement, and a token that the walk
refuses cannot be mended by the tokens behind it. So the walk stops at the
first token with which the tokens read so far start no sentence, and it goes
on to the end of the input if there is no such token.
-/

set_option autoImplicit false

namespace CqlConsole.Insert

section Completion

def sample (kind : TokenKind) (text : String) : Token :=
  ⟨kind, text, 0, 0⟩

def sampleRow : List Token :=
  [sample .keyword "json", sample .string "''"]

def sampleValues : List Token :=
  [sample .keyword "values", sample .bracket "(", sample .questionMark "?", sample .bracket ")"]

def State.completion : State → List Token
  | into => [sample .keyword "into", sample .identifier "t"] ++ sampleRow
  | tableName | table => sample .identifier "t" :: sampleRow
  | maybeDot | maybeJson | jsonKeyword => sampleRow
  | jsonString => sampleRow.drop 1
  | columnsOpen =>
    [sample .bracket "(", sample .identifier "c", sample .bracket ")"] ++ sampleValues
  | firstColumn | nextColumn => [sample .identifier "c", sample .bracket ")"] ++ sampleValues
  | moreColumns | columnsClose => sample .bracket ")" :: sampleValues
  | valuesKeyword => sampleValues
  | valuesOpen => sampleValues.drop 1
  | firstValue | nextValue => sampleValues.drop 2
  | moreValues | valuesClose => sampleValues.drop 3
  | ifKeyword => [sample .keyword "if", sample .keyword "not", sample .keyword "exists"]
  | notKeyword => [sample .keyword "not", sample .keyword "exists"]
  | existsKeyword => [sample .keyword "exists"]
  | usingOption => [sample .keyword "ttl", sample .questionMark "?"]
  | usingValue => [sample .questionMark "?"]
  | clauses | usingKeyword | moreUsing => []

theorem accepts_completion (s : State) (d : Draft) : ∃ st, Accepts st s d s.completion := by
  cases s <;> exact ⟨_, rfl⟩

end Completion

def ViableFrom (s : State) (d : Draft) (ts : List Token) : Prop :=
  ∃ us st, Accepts st s d (ts ++ us)

theorem sentence_iff {ts : List Token} : Sentence ts ↔ ∃ st, Accepts st .into {} ts := by
  constructor
  · rintro ⟨d, h⟩
    exact ⟨d.statement, accepts_start.2 ⟨d, h, rfl⟩⟩
  · rintro ⟨st, h⟩
    obtain ⟨d, h, _⟩ := accepts_start.1 h
    exact ⟨d, h⟩

theorem viable_iff {ts : List Token} : Viable ts ↔ ViableFrom .into {} ts := by
  simp only [Viable, ViableFrom, sentence_iff]

theorem viable_prefix {p ts : List Token} (hp : p <+: ts) (h : Viable ts) : Viable p := by
  obtain ⟨vs, rfl⟩ := hp
  obtain ⟨us, h⟩ := h
  exact ⟨vs ++ us, by rwa [← List.append_assoc]⟩

theorem viableFrom_nil (s : State) (d : Draft) : ViableFrom s d [] :=
  ⟨s.completion, accepts_completion s d⟩

section Verdict

variable {s : State} {d : Draft} {t : Token}

/-- A token moves the walk, ends the statement or is refused, whatever comes behind it. -/
theorem readFrom_cases (s : State) (d : Draft) (ht : t.kind ≠ .error) :
    (∃ next d', ∀ ts, readFrom s d (t :: ts) =
      (readFrom next d' ts).map (Reading.prepend t)) ∨
    (∃ s' d', ∀ ts, readFrom s d (t :: ts) =
      (readTrailing s' d' ts).map (Reading.prepend t)) ∨
    (∃ s' st, ∀ ts, readFrom s d (t :: ts) = .ok ⟨st, .rejected s' t, [t]⟩) := by
  simp only [readFrom, if_neg ht]
  cases landing s (s.path t) with
  | moved next => exact .inl ⟨next, _, fun _ => rfl⟩
  | finished s' => exact .inr (.inl ⟨s', _, fun _ => rfl⟩)
  | refused s' => exact .inr (.inr ⟨s', _, fun _ => rfl⟩)

theorem kind_of_viable {ts : List Token} (h : ViableFrom s d (t :: ts)) : t.kind ≠ .error := by
  intro ht
  obtain ⟨us, st, h⟩ := h
  rw [List.cons_append, Accepts, accept, readFrom_error s d _ ht] at h
  cases h

theorem accepts_of_moved {next : State} {d' : Draft} {ts : List Token} {st : Statement}
    (h : ∀ ts, readFrom s d (t :: ts) = (readFrom next d' ts).map (Reading.prepend t)) :
    Accepts st s d (t :: ts) ↔ Accepts st next d' ts := by
  rw [Accepts, accept, h, complete_prepend, Accepts, accept]

theorem viable_of_moved {next : State} {d' : Draft} {ts : List Token}
    (h : ∀ ts, readFrom s d (t :: ts) = (readFrom next d' ts).map (Reading.prepend t)) :
    ViableFrom s d (t :: ts) ↔ ViableFrom next d' ts := by
  simp only [ViableFrom, List.cons_append, accepts_of_moved h]

theorem accepts_of_finished {s' : State} {d' : Draft} {ts : List Token} {st : Statement}
    (h : ∀ ts, readFrom s d (t :: ts) = (readTrailing s' d' ts).map (Reading.prepend t)) :
    Accepts st s d (t :: ts) ↔ ts = [] ∧ st = d'.statement := by
  rw [Accepts, accept, h, complete_prepend, complete_trailing]

theorem not_viable_of_refused {s' : State} {r : Statement} {ts : List Token}
    (h : ∀ ts, readFrom s d (t :: ts) = .ok ⟨r, .rejected s' t, [t]⟩) :
    ¬ ViableFrom s d (t :: ts) := by
  rintro ⟨us, st, hst⟩
  rw [List.cons_append, Accepts, accept, h] at hst
  cases hst

/-- No piece of a statement that is complete is an error. -/
theorem kinds_of_accepts {ts : List Token} {st : Statement} (h : Accepts st s d ts) :
    ∀ t ∈ ts, t.kind ≠ .error := by
  induction ts generalizing s d with
  | nil => simp
  | cons t ts ih =>
    have hv : ViableFrom s d (t :: ts) := ⟨[], st, by rwa [List.append_nil]⟩
    have ht := kind_of_viable hv
    rw [List.forall_mem_cons]
    rcases readFrom_cases s d ht with ⟨next, d', hr⟩ | ⟨s', d', hr⟩ | ⟨s', r, hr⟩
    · exact ⟨ht, ih ((accepts_of_moved hr).1 h)⟩
    · obtain ⟨rfl, _⟩ := (accepts_of_finished hr).1 h
      exact ⟨ht, by simp⟩
    · exact absurd hv (not_viable_of_refused hr)

theorem reading_of_viable {ts : List Token} (h : ViableFrom s d ts) :
    ∃ r, readFrom s d ts = .ok r ∧
      ((∃ st, Accepts st s d ts) → r.outcome = .complete) ∧
      ((¬ ∃ st, Accepts st s d ts) → ∃ s', r.outcome = .incomplete s') := by
  induction ts generalizing s d with
  | nil =>
    refine ⟨_, rfl, ?_⟩
    simp only [accepts_nil]
    by_cases ha : s.isAccepting = true <;> simp [ha]
  | cons t ts ih =>
    rcases readFrom_cases s d (kind_of_viable h) with
      ⟨next, d', hr⟩ | ⟨s', d', hr⟩ | ⟨s', st, hr⟩
    · obtain ⟨r, hread, hout⟩ := ih ((viable_of_moved hr).1 h)
      refine ⟨r.prepend t, by rw [hr, hread]; rfl, ?_⟩
      simp only [accepts_of_moved hr]
      exact hout
    · obtain ⟨us, st, hst⟩ := h
      obtain ⟨hnil, _⟩ := (accepts_of_finished hr).1 hst
      obtain ⟨rfl, _⟩ := List.append_eq_nil_iff.1 hnil
      refine ⟨_, hr [], fun _ => rfl, fun hn => ?_⟩
      exact absurd ⟨_, (accepts_of_finished hr).2 ⟨rfl, rfl⟩⟩ hn
    · exact absurd h (not_viable_of_refused hr)

/-- The first token with which no sentence starts decides, whatever comes behind it. -/
theorem reading_of_first_bad {p : List Token} (hp : ViableFrom s d p)
    (ht : ¬ ViableFrom s d (p ++ [t])) :
    ∃ result, (∀ rest, readFrom s d (p ++ t :: rest) = result) ∧
      (t.kind = .error → result = .error (.invalidToken t.text)) ∧
      (t.kind ≠ .error → ∃ r s', result = .ok r ∧ r.outcome = .rejected s' t) := by
  induction p generalizing s d with
  | nil =>
    by_cases he : t.kind = .error
    · exact ⟨_, fun rest => readFrom_error s d rest he, fun _ => rfl, fun hn => absurd he hn⟩
    rcases readFrom_cases s d he with ⟨next, d', hr⟩ | ⟨s', d', hr⟩ | ⟨s', st, hr⟩
    · exact absurd ((viable_of_moved hr).2 (viableFrom_nil next d')) ht
    · exact absurd ⟨[], _, (accepts_of_finished hr).2 ⟨rfl, rfl⟩⟩ ht
    · exact ⟨_, hr, fun hk => absurd hk he, fun _ => ⟨_, s', rfl, rfl⟩⟩
  | cons u p ih =>
    rcases readFrom_cases s d (kind_of_viable hp) with
      ⟨next, d', hr⟩ | ⟨s', d', hr⟩ | ⟨s', st, hr⟩
    · obtain ⟨result, hrest, herror, hreject⟩ := ih ((viable_of_moved hr).1 hp)
        (fun h => ht ((viable_of_moved hr).2 h))
      refine ⟨result.map (Reading.prepend u), fun rest => ?_, fun he => ?_, fun he => ?_⟩
      · rw [List.cons_append, hr, hrest]
      · rw [herror he]
        rfl
      · obtain ⟨r, s', hok, hout⟩ := hreject he
        exact ⟨r.prepend u, s', by rw [hok]; rfl, hout⟩
    -- Behind a terminator only the empty list is viable, so the next token is the bad one.
    · obtain ⟨us, st, hst⟩ := hp
      obtain ⟨hnil, _⟩ := (accepts_of_finished hr).1 hst
      obtain ⟨rfl, _⟩ := List.append_eq_nil_iff.1 hnil
      refine ⟨(readTrailing s' d' [t]).map (Reading.prepend u), fun rest => hr (t :: rest),
        fun he => ?_, fun he => ?_⟩
      · simp [readTrailing, he, Except.map]
      · simp [readTrailing, he, Except.map, Reading.prepend]
    · exact absurd hp (not_viable_of_refused hr)

end Verdict

end CqlConsole.Insert

namespace CqlConsole

open CqlConsole.Insert

/-- What an input says is decided by the first token with which the tokens read so far start no
sentence. If there is none, the input is a sentence or can become one; if there is one, the
input is refused at it, and nothing behind it counts. -/
theorem inspect_verdict {input : String} {first : Token} {ts : List Token}
    (h : solidTokens input = first :: ts) (hi : first.isKeyword "insert" = true) :
    ((∀ p, p <+: ts → Viable p) →
      ∃ r, inspect input = .ok r ∧ (Sentence ts → r.outcome = .complete) ∧
        (¬ Sentence ts → ∃ s, r.outcome = .incomplete s)) ∧
    ∀ (k : Nat) (hk : k < ts.length),
      (∀ j < k, Viable (ts.take (j + 1))) → ¬ Viable (ts.take (k + 1)) →
        (ts[k].kind = .error → inspect input = .error (.invalidToken ts[k].text)) ∧
        (ts[k].kind ≠ .error →
          ∃ r s, inspect input = .ok r ∧ r.outcome = .rejected s ts[k]) ∧
        ∀ other, (solidTokens other).take (k + 2) = first :: ts.take (k + 1) →
          inspect other = inspect input := by
  have hinput := inspect_of_insert h hi
  constructor
  · intro hall
    obtain ⟨r, hread, hout⟩ := reading_of_viable (viable_iff.1 (hall ts List.prefix_rfl))
    refine ⟨r, hinput.trans hread, ?_⟩
    simpa only [sentence_iff] using hout
  · intro k hk hgood hbad
    have hp : Viable (ts.take k) := by
      cases k with
      | zero => exact viable_iff.2 (viableFrom_nil .into {})
      | succ j => exact hgood j (by omega)
    have htake : ts.take (k + 1) = ts.take k ++ [ts[k]] := by
      rw [List.take_add_one, List.getElem?_eq_getElem hk, Option.toList_some]
    rw [htake, viable_iff] at hbad
    obtain ⟨result, hrest, herror, hreject⟩ := reading_of_first_bad (viable_iff.1 hp) hbad
    have hresult : inspect input = result := by
      rw [hinput, ← hrest (ts.drop (k + 1)), List.getElem_cons_drop, List.take_append_drop]
    rw [hresult]
    refine ⟨herror, hreject, fun other ho => ?_⟩
    obtain ⟨vs, hvs⟩ : ∃ vs, solidTokens other = first :: (ts.take k ++ ts[k] :: vs) := by
      refine ⟨(solidTokens other).drop (k + 2), ?_⟩
      have hsplit := List.take_append_drop (k + 2) (solidTokens other)
      rw [ho, htake] at hsplit
      refine hsplit.symm.trans ?_
      rw [List.cons_append, List.append_assoc, List.singleton_append]
    rw [inspect_of_insert hvs hi, hrest]

/-- A text that ends too early, and one with a second name where none can stand. -/
theorem inspect_verdict_names :
    (∃ r s, inspect "insert into t" = .ok r ∧ r.outcome = .incomplete s) ∧
      ∃ r s, inspect "insert into t u (" = .ok r ∧
        r.outcome = .rejected s ⟨.identifier, "u", 14, 15⟩ := by
  have hviable : Viable [⟨.keyword, "into", 7, 11⟩, ⟨.identifier, "t", 12, 13⟩] :=
    ⟨sampleRow, ⟨none, ⟨_, rfl⟩, .json ⟨sample .string "''", rfl⟩, false, [], false⟩, rfl⟩
  have hbad : ¬ Viable [⟨.keyword, "into", 7, 11⟩, ⟨.identifier, "t", 12, 13⟩,
      ⟨.identifier, "u", 14, 15⟩] := by
    rw [viable_iff]
    rintro ⟨us, st, h⟩
    cases h
  have hshort : ¬ Sentence [⟨.keyword, "into", 7, 11⟩, ⟨.identifier, "t", 12, 13⟩] := by
    rw [sentence_iff]
    rintro ⟨st, h⟩
    cases h
  constructor
  · have hsolid : solidTokens "insert into t" = [⟨.keyword, "insert", 0, 6⟩,
        ⟨.keyword, "into", 7, 11⟩, ⟨.identifier, "t", 12, 13⟩] := by decide +kernel
    obtain ⟨r, hr, _, hout⟩ := (inspect_verdict hsolid rfl).1 fun p hp => viable_prefix hp hviable
    obtain ⟨s, hs⟩ := hout hshort
    exact ⟨r, s, hr, hs⟩
  · have hsolid : solidTokens "insert into t u (" = [⟨.keyword, "insert", 0, 6⟩,
        ⟨.keyword, "into", 7, 11⟩, ⟨.identifier, "t", 12, 13⟩, ⟨.identifier, "u", 14, 15⟩,
        ⟨.bracket, "(", 16, 17⟩] := by decide +kernel
    have hgood : ∀ j < 2, Viable ([⟨.keyword, "into", 7, 11⟩, ⟨.identifier, "t", 12, 13⟩,
        ⟨.identifier, "u", 14, 15⟩, ⟨.bracket, "(", 16, 17⟩].take (j + 1)) := by
      intro j hj
      refine viable_prefix ?_ hviable
      interval_cases j <;> decide
    exact ((inspect_verdict hsolid rfl).2 2 (by decide) hgood hbad).2.1 (by decide)

end CqlConsole
