import CqlConsole.Proofs.Token.Depth
import CqlConsole.Proofs.Token.Exactness
import CqlConsole.Shell.Submission

/-!
# Openings and tokens

What is open at the end of a text is found without its tokens, character by
character. Both readings agree: a quote is open where the last token lacks its
closing quote, and the depth counts the parentheses that are tokens.
-/

set_option autoImplicit false

namespace CqlConsole

open CqlConsole.Text CqlConsole.Run

def Shell.weight (c : Char) : Int :=
  if c = '(' then 1 else if c = ')' then -1 else 0

def Run.Mode.openQuote? : Mode → Option Char
  | quoted q false => some q
  | _ => none

namespace Shell

section Runs

variable {m n : Mode} {c : Char} {s : List Char} {d : Int32}

theorem isSome_openQuote? (m : Mode) : m.openQuote?.isSome = m.isOpen := by
  cases m with
  | quoted q closing => cases closing <;> rfl
  | _ => rfl

def signs : List Char :=
  ['\'', '"', '(', ')']

theorem step_neutral (h : c ∉ signs) : Openings.step ⟨none, d⟩ c = ⟨none, d⟩ := by
  simp only [signs, List.mem_cons, List.not_mem_nil, or_false, not_or] at h
  simp [Openings.step, h]

theorem weight_neutral (h : c ∉ signs) : weight c = 0 := by
  simp only [signs, List.mem_cons, List.not_mem_nil, or_false, not_or] at h
  simp [weight, h]

theorem step_start (c : Char) (d : Int32) :
    Openings.step ⟨none, d⟩ c = ⟨(Mode.start c).openQuote?, d + .ofInt (weight c)⟩ := by
  by_cases h : c ∈ signs
  · simp only [signs, List.mem_cons, List.not_mem_nil, or_false] at h
    rcases h with rfl | rfl | rfl | rfl
    · simp [Openings.step, weight, Mode.start, isPunctuation, isQuote, Mode.openQuote?]
    · simp [Openings.step, weight, Mode.start, isPunctuation, isQuote, Mode.openQuote?]
    · simp [Openings.step, weight, Mode.start, isPunctuation, Mode.openQuote?]
    · simp [Openings.step, weight, Mode.start, isPunctuation, Mode.openQuote?,
        Int32.sub_eq_add_neg]
  · have hquote : isQuote c = false := by
      rw [Bool.eq_false_iff, Ne, isQuote_iff]
      exact fun hq => h (List.mem_append_left ['(', ')'] hq)
    have hstart : (Mode.start c).openQuote? = none := by
      rw [Mode.start, hquote]
      split_ifs <;> first | rfl | contradiction
    rw [step_neutral h, weight_neutral h, hstart]
    exact congrArg _ (Int32.add_zero d).symm

/-- Inside of a run, a character changes the open quote as it changes the mode. -/
theorem step_of_mode (hm : ∃ c, m.opening = .start c) (h : m.step c = some n) :
    Openings.step ⟨m.openQuote?, d⟩ c = ⟨n.openQuote?, d⟩ := by
  cases m with
  | punctuation => cases h
  | number =>
    simp only [Mode.step] at h
    split_ifs at h with hc
    cases h
    exact step_neutral (not_mem_of_class (p := Form.isNumberChar) rfl hc)
  | blanks =>
    simp only [Mode.step] at h
    split_ifs at h with hc
    cases h
    exact step_neutral (not_mem_of_class (p := isBlank) rfl hc)
  | word =>
    simp only [Mode.step] at h
    split_ifs at h with hc
    cases h
    have hword : Form.isWordChar c = true := by rw [Form.isWordChar, Bool.eq_false_iff.2 hc]; rfl
    exact step_neutral (not_mem_of_class rfl hword)
  | quoted q closing =>
    obtain ⟨c₀, hstart⟩ := hm
    have hq := start_eq_quoted hstart.symm
    simp only [isQuote, Bool.or_eq_true, beq_iff_eq] at hq
    cases closing with
    | true =>
      obtain rfl : c = q := by
        by_contra hne
        simp [Mode.step, hne] at h
      obtain rfl : .quoted c false = n := by simpa [Mode.step] using h
      simp [Openings.step, Mode.openQuote?, hq]
    | false =>
      obtain rfl : .quoted q (c == q) = n := by simpa [Mode.step] using h
      by_cases hc : c = q
      · simp [Openings.step, Mode.openQuote?, hc]
      · have hbeq := beq_false_of_ne hc
        simp [Openings.step, Mode.openQuote?, hc, hbeq]

theorem foldl_of_steps (hm : ∃ c, m.opening = .start c) (h : m.steps s = some n) :
    s.foldl Openings.step ⟨m.openQuote?, d⟩ = ⟨n.openQuote?, d⟩ := by
  induction s generalizing m with
  | nil =>
    cases h
    rfl
  | cons c s ih =>
    rw [Mode.steps, Option.bind_eq_some_iff] at h
    obtain ⟨k, hk, hs⟩ := h
    rw [List.foldl_cons, step_of_mode hm hk]
    exact ih (by rwa [Mode.opening_step hk]) hs

theorem foldl_run (h : endMode (c :: s) = some m) :
    (c :: s).foldl Openings.step ⟨none, d⟩ = ⟨m.openQuote?, d + .ofInt (weight c)⟩ := by
  rw [List.foldl_cons, step_start]
  exact foldl_of_steps ⟨c, Mode.opening_start c⟩ h

/-- A parenthesis at the beginning of a run is all of it. -/
theorem weight_token (h : (endMode (c :: s)).isSome = true) :
    (token (c :: s)).weight = weight c := by
  by_cases hk : kind (c :: s) = .bracket
  · rcases mem_form.2 ⟨h, hk⟩ with hs | hs <;> cases hs <;> rfl
  · have hne : ∀ b, isPunctuation b = true → kind [b] = .bracket → c ≠ b := by
      rintro b hp hkind rfl
      rw [endMode, Mode.start, if_pos hp] at h
      cases s with
      | nil => exact hk hkind
      | cons d s => cases h
    have ho := hne '(' rfl rfl
    have hc := hne ')' rfl rfl
    rw [Token.weight_of_kind hk, weight, if_neg ho, if_neg hc]

theorem foldl_runs {rs : List (List Char)} (hrun : ∀ r ∈ rs, (endMode r).isSome = true)
    (hclosed : rs.Pairwise fun r _ => isOpen r = false) :
    (rs.flatten.foldl Openings.step ⟨none, d⟩).quote.isSome = rs.getLast?.any isOpen ∧
      (rs.flatten.foldl Openings.step ⟨none, d⟩).depth =
        d + .ofInt (Token.depth (rs.map token)) := by
  -- A run with others behind it closes its quote, so each of them starts outside of quotes.
  induction rs generalizing d with
  | nil => simp
  | cons r rs ih =>
    obtain ⟨hr, hrs⟩ := List.forall_mem_cons.1 hrun
    obtain ⟨ho, hos⟩ := List.pairwise_cons.1 hclosed
    obtain ⟨m, hm⟩ := Option.isSome_iff_exists.1 hr
    cases r with
    | nil => cases hm
    | cons c s =>
      have hopen : m.openQuote?.isSome = isOpen (c :: s) := by
        rw [isSome_openQuote?, isOpen_eq, hm, Option.any_some]
      rw [List.flatten_cons, List.foldl_append, foldl_run hm]
      cases rs with
      | nil => simp [weight_token hr, hopen]
      | cons q rs =>
        have hnone : m.openQuote? = none := by
          rw [← Option.not_isSome_iff_eq_none, hopen, ho q List.mem_cons_self]
          exact Bool.false_ne_true
        obtain ⟨hquote, hdepth⟩ := ih (d := d + .ofInt (weight c)) hrs hos
        rw [hnone, hquote, hdepth, List.getLast?_cons_cons]
        simp [weight_token hr, Int32.add_assoc]

end Runs

theorem openings_split (s : List Char) :
    (openings s).quote.isSome = (split s).getLast?.any isOpen ∧
      (openings s).depth = .ofInt (Token.depth ((split s).map token)) := by
  have hruns := foldl_runs (d := 0) (endMode_split s) (split_closed s)
  rwa [split_flatten, Int32.zero_add] at hruns

theorem depth_tokenize (input : String) :
    Token.depth (tokenize input) = Token.depth ((split input.toList).map token) := by
  rw [tokenize, Token.depth_append, Lexeme.scan, ← place_token 0, Token.depth_unplaced]
  exact Int.add_zero _

theorem depth_openings_tokenize (input : String) :
    (openings input.toList).depth = .ofInt (Token.depth (tokenize input)) := by
  rw [(openings_split input.toList).2, depth_tokenize]

theorem natAbs_depth_tokenize (input : String) :
    (Token.depth (tokenize input)).natAbs ≤ input.utf8ByteSize := by
  rw [depth_tokenize]
  calc (Token.depth ((split input.toList).map token)).natAbs
      ≤ (split input.toList).length := by
        simpa using Token.natAbs_depth_le ((split input.toList).map token)
    _ ≤ byteSize (split input.toList).flatten :=
        length_le_byteSize_flatten (split_ne_nil input.toList)
    _ = input.utf8ByteSize := by rw [split_flatten, utf8ByteSize_eq]

/-- A text of less than two gibibytes has too few parentheses for the counter to wrap. -/
theorem toInt_depth_openings {input : String} (hsize : input.utf8ByteSize < 2 ^ 31) :
    (openings input.toList).depth.toInt = Token.depth (tokenize input) := by
  have hbound := natAbs_depth_tokenize input
  rw [depth_openings_tokenize, Int32.toInt_ofInt_of_le (by omega) (by omega)]

/-- The last token before the end is that of the last run. -/
theorem getLast?_tokens (input : String) :
    (tokenize input).dropLast.getLast? =
      (Lexeme.scan input.toList).getLast?.map Lexeme.token := by
  rw [tokenize, List.dropLast_concat, List.getLast?_map]

/-- An open run shows as an error whose text begins with a quote. -/
theorem isOpen_token {l : Lexeme} (hrun : (endMode l.source).isSome = true) :
    isOpen l.source = true ↔
      l.token.kind = .error ∧ ∃ q ∈ l.token.text.toList.head?, isQuote q = true := by
  obtain ⟨start, source⟩ := l
  cases source with
  | nil => cases hrun
  | cons c s =>
    rw [isOpen_iff hrun]
    refine and_congr_right fun hkind => ?_
    have hne : kind (c :: s) ≠ .keyword := by simp [hkind]
    simp [Lexeme.token, Lexeme.text, Lexeme.kind, hne]

end Shell

open CqlConsole.Shell

/-- The quote that is open in a text is that of a last token without its closing quote, and the
depth counts the opening parentheses among the tokens less the closing ones. Their difference is
never further from zero than the text has bytes, so the count is right up to two gibibytes. -/
theorem openings_tokens (input : String) :
    ((openings input.toList).quote.isSome = true ↔
      ∃ t, (tokenize input).dropLast.getLast? = some t ∧ t.kind = .error ∧
        ∃ q ∈ t.text.toList.head?, isQuote q = true) ∧
    (openings input.toList).depth =
      .ofInt ((tokenize input).countP Token.isOpenBracket -
        (tokenize input).countP Token.isCloseBracket) ∧
    ((tokenize input).countP Token.isOpenBracket -
      (tokenize input).countP Token.isCloseBracket : Int).natAbs ≤ input.utf8ByteSize ∧
    (input.utf8ByteSize < 2 ^ 31 →
      (openings input.toList).depth.toInt =
        (tokenize input).countP Token.isOpenBracket -
          (tokenize input).countP Token.isCloseBracket) := by
  rw [← Token.depth_eq_count]
  refine ⟨?_, depth_openings_tokenize input, natAbs_depth_tokenize input, toInt_depth_openings⟩
  rw [(openings_split input.toList).1, ← split_scan, List.getLast?_map, getLast?_tokens]
  cases hscan : (Lexeme.scan input.toList).getLast? with
  | none => simp
  | some l =>
    have hmem : l ∈ Lexeme.scan input.toList := List.mem_of_getLast? hscan
    simp [isOpen_token (endMode_scan input.toList l hmem)]

/-- A parenthesis in a string is no token, and a quote written twice does not end the string. -/
theorem openings_tokens_strings :
    let line := "insert into t (a) values ('(''', "
    line.utf8ByteSize < 2 ^ 31 ∧
      (openings line.toList).depth.toInt =
        (tokenize line).countP Token.isOpenBracket -
          (tokenize line).countP Token.isCloseBracket := by
  intro line
  have hsize : line.utf8ByteSize < 2 ^ 31 := by decide
  exact ⟨hsize, (openings_tokens line).2.2.2 hsize⟩

end CqlConsole
