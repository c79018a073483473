import CqlConsole.Proofs.Shell.Submission
import CqlConsole.Proofs.Token.Matching

/-!
# The rule of the editor

A text is to be ready if no quote is open and it ends with a semicolon or has
every parenthesis closed. The editor asks for less than that, as it counts: a
closing parenthesis too many makes up for one that stays open behind it.
-/

set_option autoImplicit false

namespace CqlConsole

open CqlConsole.Text CqlConsole.Run

namespace Shell

/-- The last token of a line is no token, as the quote that it begins with is open. -/
def QuoteOpen (line : String) : Prop :=
  ∃ t ∈ (tokenize line).dropLast.getLast?, t.kind = .error ∧
    ∃ q ∈ t.text.toList.head?, isQuote q = true

instance (line : String) : Decidable (QuoteOpen line) :=
  inferInstanceAs (Decidable (∃ t ∈ (tokenize line).dropLast.getLast?, t.kind = .error ∧
    ∃ q ∈ t.text.toList.head?, isQuote q = true))

/-- The rule for a line that is neither blank nor a command. -/
def Finished (line : String) : Prop :=
  ¬QuoteOpen line ∧
    ((trim line.toList).getLast? = some ';' ∨ Token.AllClosed (tokenize line))

instance (line : String) : Decidable (Finished line) :=
  inferInstanceAs (Decidable (_ ∧ _))

section Rule

variable {line : String}

theorem quoteOpen_iff : QuoteOpen line ↔ (openings line.toList).quote.isSome = true := by
  rw [QuoteOpen, getLast?_tokens, (openings_split line.toList).1,
    ← split_scan, List.getLast?_map]
  cases hscan : (Lexeme.scan line.toList).getLast? with
  | none => simp
  | some l =>
    have hrun := endMode_scan line.toList l (List.mem_of_getLast? hscan)
    simp [isOpen_token hrun]

/-- What the editor asks for: the parentheses are counted, wherever they stand. -/
theorem isReady_iff (hblank : trim line.toList ≠ []) (hcommand : command? line = none) :
    isReady line = true ↔ ¬QuoteOpen line ∧
      ((trim line.toList).getLast? = some ';' ∨ Int32.ofInt (Token.depth (tokenize line)) ≤ 0) := by
  rw [quoteOpen_iff, ← depth_openings_tokenize, isReady, openings_trim]
  simp [hblank, hcommand]

/-- In a line of less than two gibibytes the counter tells whether the depth is positive. -/
theorem ofInt_depth_le (hsize : line.utf8ByteSize < 2 ^ 31) :
    Int32.ofInt (Token.depth (tokenize line)) ≤ 0 ↔ Token.depth (tokenize line) ≤ 0 := by
  rw [← depth_openings_tokenize, Int32.le_iff_toInt_le, toInt_depth_openings hsize]
  rfl

end Rule

end Shell

open CqlConsole.Shell

/-- The editor counts the parentheses, in 32 bits. So long as the counter cannot wrap, it takes,
besides the lines that the rule has, those for ready in which closing parentheses make up for some
that stay open in an end of the line; where no parenthesis is closed before it is open, it decides
the rule. -/
theorem isReady_finished_iff {line : String} (hblank : trim line.toList ≠ [])
    (hcommand : command? line = none) :
    (isReady line = true ↔ ¬QuoteOpen line ∧ ((trim line.toList).getLast? = some ';' ∨
      Int32.ofInt (Token.depth (tokenize line)) ≤ 0)) ∧
    (line.utf8ByteSize < 2 ^ 31 →
      (isReady line = true ↔ Finished line ∨ ¬QuoteOpen line ∧ Token.depth (tokenize line) ≤ 0 ∧
        ∃ rest, rest <:+ tokenize line ∧ 0 < Token.depth rest) ∧
      ((∀ front, front <+: tokenize line → 0 ≤ Token.depth front) →
        (isReady line = true ↔ Finished line))) := by
  refine ⟨isReady_iff hblank hcommand, fun hsize => ?_⟩
  rw [isReady_iff hblank hcommand, ofInt_depth_le hsize]
  constructor
  · constructor
    · rintro ⟨hquote, hlast | hdepth⟩
      · exact .inl ⟨hquote, .inl hlast⟩
      · by_cases hclosed : Token.AllClosed (tokenize line)
        · exact .inl ⟨hquote, .inr hclosed⟩
        · rw [Token.allClosed_iff] at hclosed
          push Not at hclosed
          exact .inr ⟨hquote, hdepth, hclosed⟩
    · rintro (⟨hquote, hlast | hclosed⟩ | ⟨hquote, hdepth, -⟩)
      · exact ⟨hquote, .inl hlast⟩
      · exact ⟨hquote, .inr hclosed.depth_le⟩
      · exact ⟨hquote, .inr hdepth⟩
  · intro hfront
    rw [Finished, Token.allClosed_of_front hfront]

/-- A list with a parenthesis too many behind it makes up for the one that is open; and a line that
breaks off in a list, behind a name in quotes that has a parenthesis. -/
theorem isReady_finished_iff_surplus :
    let line := "insert into t (a)) values ("
    let openLine := "insert into t (a, \"(b\", c"
    (trim line.toList ≠ [] ∧ command? line = none ∧ line.utf8ByteSize < 2 ^ 31 ∧
      (isReady line = true ↔ Finished line ∨ ¬QuoteOpen line ∧ Token.depth (tokenize line) ≤ 0 ∧
        ∃ rest, rest <:+ tokenize line ∧ 0 < Token.depth rest)) ∧
    trim openLine.toList ≠ [] ∧ command? openLine = none ∧ openLine.utf8ByteSize < 2 ^ 31 ∧
      (∀ front, front <+: tokenize openLine → 0 ≤ Token.depth front) ∧
      (isReady openLine = true ↔ Finished openLine) := by
  intro line openLine
  have hline : trim line.toList ≠ [] ∧ command? line = none ∧ line.utf8ByteSize < 2 ^ 31 := by
    decide +kernel
  have hopen : trim openLine.toList ≠ [] ∧ command? openLine = none ∧
      openLine.utf8ByteSize < 2 ^ 31 := by
    decide +kernel
  have hfront : ∀ front, front <+: tokenize openLine → 0 ≤ Token.depth front := by
    have hinits : ∀ front ∈ (tokenize openLine).inits, 0 ≤ Token.depth front := by
      decide +kernel
    exact fun front h => hinits front ((List.mem_inits _ _).2 h)
  exact ⟨⟨hline.1, hline.2.1, hline.2.2,
      ((isReady_finished_iff hline.1 hline.2.1).2 hline.2.2).1⟩,
    hopen.1, hopen.2.1, hopen.2.2, hfront,
    ((isReady_finished_iff hopen.1 hopen.2.1).2 hopen.2.2).2 hfront⟩

/-- The rule has such a line go on. -/
theorem ready_unfinished : ¬∀ line : String, trim line.toList ≠ [] → command? line = none →
    (isReady line = true ↔ Finished line) := by
  intro h
  have hready : isReady "insert into t (a)) values (" = true := by decide +kernel
  have hfinished : ¬Finished "insert into t (a)) values (" := by decide +kernel
  exact hfinished ((h _ (by decide) (by decide +kernel)).1 hready)

end CqlConsole
