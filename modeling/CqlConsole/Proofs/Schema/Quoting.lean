import CqlConsole.Proofs.Literal.Display
import CqlConsole.Proofs.Schema.Resolution

/-!
# Names in quotes

A name may hold any characters when it is written in quotes with its own quotes
doubled. This text is one identifier for the lexer, it reads as the name, and a
lookup of it finds the entry of this name unless an entry has the text with its
quotes for a name.
-/

set_option autoImplicit false

namespace CqlConsole.Schema

open CqlConsole.Run CqlConsole.Text

def quoted (name : String) : String :=
  String.ofList (enquote '"' name.toList)

section Quoted

variable {n : String}

theorem tokenize_quoted (n : String) :
    tokenize (quoted n) = [⟨.identifier, quoted n, 0, (quoted n).utf8ByteSize⟩,
      .endOfInput (quoted n).utf8ByteSize] := by
  have hform : (quoted n).toList ∈ TokenKind.identifier.properForm := by
    rw [quoted, String.toList_ofList]
    exact Or.inl (Form.enquote_mem_enclosed '"' n.toList)
  exact tokenize_as_typed (isToken_of_properForm hform) (by decide)

theorem identifierName_quoted (n : String) : identifierName (quoted n) = n := by
  rw [identifierName, quoted, String.toList_ofList, identifierChars_enquote, String.ofList_toList]

/-- A name in quotes stands for the entry of this name where no name is spelled with the quotes. -/
theorem standsFor_quoted {α : Type} {name : α → String} {entries : List α} {e : α}
    (he : e ∈ entries) (hname : name e = n) (hnone : ∀ x ∈ entries, name x ≠ quoted n) :
    StandsFor name entries (quoted n) e :=
  ⟨he, Or.inr ⟨hnone, by rw [identifierName_quoted, hname]⟩⟩

end Quoted

/-- Any text can be a name: in quotes it is one identifier, and the name is what it reads as. In
quotes of any kind a text is got back. A keyspace or a table of a valid snapshot is found by its name
in quotes, unless another one has that text for a name. -/
theorem quoted_name_found (n : String) :
    tokenize (quoted n) = [⟨.identifier, quoted n, 0, (quoted n).utf8ByteSize⟩,
      .endOfInput (quoted n).utf8ByteSize] ∧
    identifierName (quoted n) = n ∧
    (∀ q : Char, unquote q (enquote q n.toList) = n.toList) ∧
    ∀ s : Snapshot, s.validate = .ok () →
      (∀ k ∈ s.keyspaces, k.name = n → (∀ j ∈ s.keyspaces, j.name ≠ quoted n) →
        s.keyspace (quoted n) = .ok k) ∧
      ∀ typed k, s.keyspace typed = .ok k → ∀ t ∈ k.tables, t.name = n →
        (∀ u ∈ k.tables, u.name ≠ quoted n) → s.table typed (quoted n) = .ok t := by
  refine ⟨tokenize_quoted n, identifierName_quoted n, fun q => unquote_enquote q n.toList, ?_⟩
  intro s hvalid
  have hresolves := Snapshot.resolves_of_valid hvalid
  constructor
  · intro k hk hname hnone
    exact (hresolves.keyspace_ok _ _).2 (standsFor_quoted hk hname hnone)
  · intro typed k hkeyspace t ht hname hnone
    have hk := (hresolves.keyspace_ok typed k).1 hkeyspace
    exact (hresolves.table_ok _ _ _).2 ⟨k, hk, standsFor_quoted ht hname hnone⟩

/-- A name of quotes only, and one of no character. -/
theorem quoted_name_found_edges :
    let marks : Keyspace := { name := "\"\"", tables := [{ name := "" }, { name := "é \"x" }] }
    let s : Snapshot := { keyspaces := [{ name := "store" }, marks] }
    s.validate = .ok () ∧
    (tokenize "\"\"\"\"\"\"" = [⟨.identifier, "\"\"\"\"\"\"", 0, 6⟩, .endOfInput 6] ∧
      s.keyspace "\"\"\"\"\"\"" = .ok marks) ∧
    s.table "\"\"\"\"\"\"" "\"\"" = .ok { name := "" } ∧
    s.table "\"\"\"\"\"\"" "\"é \"\"x\"" = .ok { name := "é \"x" } := by
  intro marks s
  have hvalid : s.validate = .ok () := by decide
  have hmarks : marks ∈ s.keyspaces := by decide
  obtain ⟨htokens, -, -, hfound⟩ := quoted_name_found "\"\""
  have hkeyspace : s.keyspace "\"\"\"\"\"\"" = .ok marks :=
    (hfound s hvalid).1 marks hmarks rfl (by decide)
  obtain ⟨-, -, -, hempty⟩ := quoted_name_found ""
  obtain ⟨-, -, -, haccent⟩ := quoted_name_found "é \"x"
  refine ⟨hvalid, ⟨htokens, hkeyspace⟩, ?_, ?_⟩
  · exact (hempty s hvalid).2 _ _ hkeyspace { name := "" } (by decide) rfl (by decide)
  · exact (haccent s hvalid).2 _ _ hkeyspace { name := "é \"x" } (by decide) rfl (by decide)

end CqlConsole.Schema
