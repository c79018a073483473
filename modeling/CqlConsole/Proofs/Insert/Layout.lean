import CqlConsole.Proofs.Insert.Placement
import CqlConsole.Proofs.Token.Layout

/-!
# Layout has no part in a statement

White space between the tokens of an input and the case of its keywords change
nothing but the places of the tokens: not their kinds and texts, and neither the
error nor the statement that is read from them.
-/

set_option autoImplicit false

namespace CqlConsole

open CqlConsole.Insert CqlConsole.Run

/-- An input that is written again in other white space, and with other letters of its keywords in
capitals, has the same tokens at other places. It gives the same error, or the same statement with
the same outcome and backlog. -/
theorem inspect_relaid {x y : String} (h : Relaid x y) :
    (solidTokens y).map (fun t => (t.kind, t.text)) =
        (solidTokens x).map (fun t => (t.kind, t.text)) ∧
      (inspect y).map Reading.unplaced = (inspect x).map Reading.unplaced := by
  have htokens : (solidTokens y).map Token.unplaced = (solidTokens x).map Token.unplaced := by
    rw [solidTokens_unplaced, solidTokens_unplaced, solid_relaid h]
  constructor
  · have hpairs := congrArg (List.map fun t : Token => (t.kind, t.text)) htokens
    rw [List.map_map, List.map_map] at hpairs
    exact hpairs
  · rw [inspect_eq, inspect_eq, ← readTokens_unplaced, ← readTokens_unplaced, htokens]

/-- A word in capitals, and a text that breaks off between its quotes on the next line. -/
theorem inspect_relaid_lines :
    Relaid "insert'a b" " INSERT\n'a b" ∧
      (inspect " INSERT\n'a b").map Reading.unplaced =
        (inspect "insert'a b").map Reading.unplaced := by
  have hsources : solidSources "insert'a b" = ["insert".toList, "'a b".toList] := by
    decide +kernel
  have htext : Laid ["'a b".toList] ("'a b".toList ++ ([] ++ [])) :=
    .cons (Or.inl rfl) (by simp) (by simp) (by simp) .nil
  have hword : Laid ["insert".toList, "'a b".toList]
      ("INSERT".toList ++ (['\n'] ++ ("'a b".toList ++ ([] ++ [])))) :=
    .cons (Or.inr (by decide)) (List.forall_mem_singleton.2 rfl) (by simp) (by simp) htext
  have hrelaid : Relaid "insert'a b" " INSERT\n'a b" :=
    ⟨[' '], _, List.forall_mem_singleton.2 rfl, hsources ▸ hword, by decide⟩
  exact ⟨hrelaid, (inspect_relaid hrelaid).2⟩

end CqlConsole
