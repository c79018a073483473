import CqlConsole.Proofs.Token.Pieces
import CqlConsole.Proofs.Token.Tiling
import CqlConsole.Shell.Highlight

/-!
# Highlighting keeps the text

The pieces of a line are cut out by the bytes where its tokens start and stop,
and these are ends of characters. The tokens reach to the last byte, so nothing
is left over, and the pieces one after the other are the line as it was typed.
-/

set_option autoImplicit false

namespace CqlConsole

open CqlConsole.Run CqlConsole.Text

/-- The piece of the input that the token covers stands between a text that ends where the token
starts and one that begins where it stops. -/
def Token.CutsOut (input piece : String) (t : Token) : Prop :=
  ∃ before after, input = before ++ piece ++ after ∧ t.start = before.utf8ByteSize ∧
    t.stop = (before ++ piece).utf8ByteSize

namespace Shell

variable {line : String}

section Pieces

theorem piece_token {l : Lexeme} (h : l ∈ Lexeme.scan line.toList) :
    piece line.toList l.token = (.ofKind l.kind, String.ofList l.source) := by
  have hsource : slice l.token.start l.token.stop line.toList = l.source := source_token h
  rw [piece, hsource]
  rfl

theorem pieces_tokens (line : String) :
    ((Lexeme.scan line.toList).map Lexeme.token).map (piece line.toList) =
      (Lexeme.scan line.toList).map fun l => (.ofKind l.kind, String.ofList l.source) := by
  rw [List.map_map]
  exact List.map_congr_left fun l hl => piece_token hl

/-- The sources of the tokens, one after the other, are the line. -/
theorem join_sources (line : String) :
    String.join ((Lexeme.scan line.toList).map fun l => String.ofList l.source) = line := by
  rw [← String.toList_inj, String.toList_join, List.flatMap_map]
  calc (Lexeme.scan line.toList).flatMap (fun l => (String.ofList l.source).toList)
      = (Lexeme.scan line.toList).flatMap Lexeme.source := by simp only [String.toList_ofList]
    _ = (split line.toList).flatten := by rw [← split_scan, List.flatMap_def]
    _ = line.toList := split_flatten _

theorem cutsOut_token {l : Lexeme} (h : l ∈ Lexeme.scan line.toList) :
    l.token.CutsOut line (String.ofList l.source) := by
  obtain ⟨before, after, hline, hstart⟩ := Lexeme.mem_scan h
  refine ⟨String.ofList before, String.ofList after, ?_, ?_, ?_⟩
  · rw [← String.ofList_append, ← String.ofList_append, ← hline, String.ofList_toList]
  · rw [utf8ByteSize_ofList]
    exact hstart
  · rw [← String.ofList_append, utf8ByteSize_ofList, byteSize_append, ← hstart]
    rfl

end Pieces

section Rest

/-- Tokens without a gap between them are read to the byte where the last of them stops. -/
theorem readTo_of_contiguous {ts : List Token} {lo hi : Nat} (h : Contiguous lo ts hi) :
    (ts.getLast?.map Token.stop).getD lo = hi := by
  induction ts generalizing lo with
  | nil => exact h
  | cons t ts ih =>
    have hrest := ih h.2
    rw [List.getLast?_cons]
    cases hlast : ts.getLast? with
    | none => simpa [hlast] using hrest
    | some u => simpa [hlast] using hrest

theorem readTo_tokens (line : String) :
    readTo ((Lexeme.scan line.toList).map Lexeme.token) = byteSize line.toList := by
  have htiles := Lexeme.contiguous_place 0 (split line.toList)
  rw [split_flatten, Nat.zero_add] at htiles
  exact readTo_of_contiguous htiles

theorem unread_tokens (line : String) :
    unread line.toList (readTo ((Lexeme.scan line.toList).map Lexeme.token)) = [] := by
  rw [readTo_tokens, unread, if_neg (Nat.lt_irrefl _)]

end Rest

theorem highlight_tokens (line : String) :
    highlight true line = ((Lexeme.scan line.toList).map Lexeme.token).map (piece line.toList) := by
  show _ ++ unread line.toList (readTo ((Lexeme.scan line.toList).map Lexeme.token)) = _
  rw [unread_tokens, List.append_nil]
  rfl

theorem join_highlight (enabled : Bool) (line : String) :
    String.join ((highlight enabled line).map Prod.snd) = line := by
  cases enabled with
  | false =>
    show String.join [line] = line
    rw [String.join_cons, String.join_nil, String.append_empty]
  | true =>
    rw [highlight_tokens, pieces_tokens, List.map_map]
    exact join_sources line

end Shell

open CqlConsole.Shell

/-- Highlighting loses nothing of a line, whether it is on or off. When it is on, there is one piece
for each token in front of the end, in their order: what the token covers of the line as it was
typed, in the style of its kind. A token starts and stops between characters, and the last one stops
at the end of the line, so that nothing is left over behind it. -/
theorem highlight_follows_tokens (line : String) :
    (∀ enabled, String.join ((highlight enabled line).map Prod.snd) = line) ∧
    ∃ ts, tokenize line = ts ++ [.endOfInput line.utf8ByteSize] ∧
      highlight true line =
        ts.map (fun t => (Style.ofKind t.kind, String.ofList (t.source line))) ∧
      (∀ t ∈ ts, t.kind ≠ .endOfInput ∧ t.CutsOut line (String.ofList (t.source line))) ∧
      readTo ts = line.utf8ByteSize ∧ unread line.toList (readTo ts) = [] := by
  refine ⟨fun enabled => join_highlight enabled line,
    (Lexeme.scan line.toList).map Lexeme.token, by rw [tokenize, utf8ByteSize_eq],
    highlight_tokens line, fun t ht => ?_, ?_, unread_tokens line⟩
  · obtain ⟨l, hl, rfl⟩ := List.mem_map.1 ht
    rw [source_token hl]
    exact ⟨kind_ne_endOfInput l.source, cutsOut_token hl⟩
  · rw [readTo_tokens, utf8ByteSize_eq]

/-- The keyword is shown as it was typed, and the quote that stays open with its accent. -/
theorem highlight_follows_tokens_open :
    highlight true "SELECT 'é" =
        [(.boldGreen, "SELECT"), (.plain, " "), (.underlinedRed, "'é")] ∧
      Token.CutsOut "SELECT 'é" "'é" ⟨.error, "'é", 7, 10⟩ := by
  obtain ⟨-, ts, hts, hpieces, hcuts, -⟩ := highlight_follows_tokens "SELECT 'é"
  have htokens : tokenize "SELECT 'é" = [⟨.keyword, "select", 0, 6⟩, ⟨.whitespace, " ", 6, 7⟩,
      ⟨.error, "'é", 7, 10⟩] ++ [.endOfInput 10] := by decide +kernel
  rw [htokens] at hts
  obtain rfl := (List.append_inj' hts rfl).1
  exact ⟨hpieces, (hcuts ⟨.error, "'é", 7, 10⟩ (by simp)).2⟩

end CqlConsole
