import CqlConsole.Proofs.Trie.Contents

/-!
# The shape of a trie

No edge of a trie is empty, siblings start with different characters, and a node
that is not terminal has at least two children, so no edge is cut without need.
Inserting cuts an edge only where the new text ends or where it takes another way.
-/

set_option autoImplicit false

namespace CqlConsole

namespace Forest

def width : Forest → Nat
  | nil => 0
  | node _ _ _ siblings => siblings.width + 1

/-- Every node is terminal or has at least two children. -/
def Branching : Forest → Prop
  | nil => True
  | node _ terminal children siblings =>
    (terminal = true ∨ 2 ≤ children.width) ∧ children.Branching ∧ siblings.Branching

section Insert

variable {f : Forest} {s : List Char}

theorem width_insert (hs : s ≠ []) : f.width ≤ (f.insert s).1.width := by
  induction f, s, hs using insert_induction with
  | empty s hs => exact Nat.zero_le _
  | apart label terminal children siblings s hs h ih =>
    rw [insert_apart h]
    exact Nat.succ_le_succ ih
  | ends label terminal children siblings hl => rw [insert_ends hl, width, width]
  | below label terminal children siblings rest hs hr hl ih =>
    rw [insert_below hl hr, width, width]
  | cut common tail terminal children siblings hc ht => rw [insert_cut hc ht, width, width]
  | fork common tail rest terminal children siblings hs hc ht hr h =>
    rw [insert_fork hc ht hr h, width, width]

theorem branching_insert (hs : s ≠ []) (hf : f.Branching) : (f.insert s).1.Branching := by
  induction f, s, hs using insert_induction with
  | empty s hs => exact ⟨Or.inl rfl, trivial, trivial⟩
  | apart label terminal children siblings s hs h ih =>
    rw [insert_apart h]
    exact ⟨hf.1, hf.2.1, ih hf.2.2⟩
  | ends label terminal children siblings hl =>
    rw [insert_ends hl]
    exact ⟨Or.inl rfl, hf.2⟩
  | below label terminal children siblings rest hs hr hl ih =>
    rw [insert_below hl hr]
    exact ⟨hf.1.imp_right fun h => h.trans (width_insert hr), ih hf.2.1, hf.2.2⟩
  | cut common tail terminal children siblings hc ht =>
    rw [insert_cut hc ht]
    exact ⟨Or.inl rfl, ⟨hf.1, hf.2.1, trivial⟩, hf.2.2⟩
  | fork common tail rest terminal children siblings hs hc ht hr h =>
    rw [insert_fork hc ht hr h]
    have hleaf : (leaf rest).Branching := ⟨Or.inl rfl, trivial, trivial⟩
    exact ⟨Or.inr le_rfl, ⟨hf.1, hf.2.1, hleaf⟩, hf.2.2⟩

/-- The answer says whether there is one terminal node more. -/
theorem terminals_insert (hs : s ≠ []) :
    (f.insert s).1.terminals = f.terminals + if (f.insert s).2 then 1 else 0 := by
  induction f, s, hs using insert_induction with
  | empty s hs => rfl
  | apart label terminal children siblings s hs h ih =>
    rw [insert_apart h]
    simp only [terminals, ih]
    omega
  | ends label terminal children siblings hl =>
    rw [insert_ends hl, terminals, terminals]
    cases terminal <;> simp
    omega
  | below label terminal children siblings rest hs hr hl ih =>
    rw [insert_below hl hr]
    simp only [terminals, ih]
    omega
  | cut common tail terminal children siblings hc ht =>
    rw [insert_cut hc ht]
    simp only [terminals, if_true]
    omega
  | fork common tail rest terminal children siblings hs hc ht hr h =>
    rw [insert_fork hc ht hr h]
    simp only [terminals, leaf, if_true, Bool.false_eq_true, if_false]
    omega

end Insert

def nodes : Forest → List Node
  | nil => []
  | node label terminal children siblings =>
    ⟨label, terminal, children⟩ :: (children.nodes ++ siblings.nodes)

section Nodes

variable {f : Forest} {n : Node}

theorem nodup_heads (hf : f.Separated) : f.heads.Nodup := by
  induction f with
  | nil => exact List.nodup_nil
  | node label terminal children siblings _ ih =>
    obtain ⟨⟨c, s, rfl, hc⟩, _, hsiblings⟩ := hf
    exact List.nodup_cons.2 ⟨hc, ih hsiblings⟩

/-- What a forest hands down to its parts holds with each node in front. -/
theorem exists_of_mem_nodes {P : Forest → Prop}
    (hdown : ∀ label terminal children siblings,
      P (node label terminal children siblings) → P children ∧ P siblings)
    (hf : P f) (hn : n ∈ f.nodes) : ∃ siblings, P (node n.label n.terminal n.children siblings) := by
  induction f with
  | nil => cases hn
  | node label terminal children siblings ihc ihs =>
    obtain ⟨hchildren, hsiblings⟩ := hdown label terminal children siblings hf
    rcases List.mem_cons.1 hn with rfl | hn
    · exact ⟨siblings, hf⟩
    · rcases List.mem_append.1 hn with hn | hn
      · exact ihc hchildren hn
      · exact ihs hsiblings hn

theorem separated_nodes (hf : f.Separated) (hn : n ∈ f.nodes) :
    n.label ≠ [] ∧ n.children.heads.Nodup := by
  obtain ⟨siblings, h⟩ := exists_of_mem_nodes (fun _ _ _ _ h => h.2) hf hn
  exact ⟨ne_nil_of_separated h, nodup_heads h.2.1⟩

theorem branching_nodes (hf : f.Branching) (hn : n ∈ f.nodes) :
    n.terminal = true ∨ 2 ≤ n.children.width := by
  obtain ⟨siblings, h⟩ := exists_of_mem_nodes (fun _ _ _ _ h => h.2) hf hn
  exact h.1

theorem countP_nodes (f : Forest) : f.nodes.countP Node.terminal = f.terminals := by
  induction f with
  | nil => rfl
  | node label terminal children siblings ihc ihs =>
    simp only [nodes, List.countP_cons, List.countP_append, ihc, ihs, terminals]
    omega

end Nodes

end Forest

namespace Trie

variable {t : Trie}

/-- The trie has no needless nodes and counts its terminal ones. -/
structure Compact (t : Trie) : Prop where
  root_label : t.root.label = []
  root_unmarked : t.root.terminal = false
  separated : t.forest.Separated
  branching : t.forest.Branching
  size_eq : t.size = t.forest.terminals

theorem compact_empty : Compact empty :=
  ⟨rfl, rfl, trivial, trivial, rfl⟩

theorem Compact.insert (h : Compact t) (s : String) : Compact (t.insert s).1 := by
  by_cases hs : s.toList = []
  · rwa [insert_of_empty hs]
  · rw [insert_of_ne hs]
    refine ⟨h.root_label, h.root_unmarked, Forest.separated_insert hs h.separated,
      Forest.branching_insert hs h.branching, ?_⟩
    have hterminals : (t.forest.insert s.toList).1.terminals =
        t.size + if (t.forest.insert s.toList).2 then 1 else 0 := by
      rw [Forest.terminals_insert hs, h.size_eq]
    refine Eq.trans ?_ hterminals.symm
    by_cases hnew : (t.forest.insert s.toList).2 = true <;> simp [hnew]

theorem Compact.insertAll (h : Compact t) (texts : List String) : Compact (t.insertAll texts) := by
  induction texts generalizing t with
  | nil => exact h
  | cons s texts ih => exact ih (h.insert s)

theorem compact_ofList (texts : List String) : Compact (ofList texts) :=
  compact_empty.insertAll texts

/-- Whatever is inserted, the root has no label and is not terminal, each node below it has a label
and is terminal or has two children, the children of a node start with different characters, and
the size of the trie is the number of its terminal nodes. -/
theorem ofList_shape (texts : List String) :
    ((ofList texts).root.label = [] ∧ (ofList texts).root.terminal = false) ∧
    (∀ n ∈ (ofList texts).root.children.nodes,
      n.label ≠ [] ∧ (n.terminal = true ∨ 2 ≤ n.children.width)) ∧
    (∀ n ∈ (ofList texts).root :: (ofList texts).root.children.nodes,
      n.children.heads.Nodup) ∧
    (ofList texts).size = (ofList texts).root.children.nodes.countP Forest.Node.terminal := by
  have h := compact_ofList texts
  refine ⟨⟨h.root_label, h.root_unmarked⟩, fun n hn => ?_, ?_,
    h.size_eq.trans (Forest.countP_nodes _).symm⟩
  · exact ⟨(Forest.separated_nodes h.separated hn).1, Forest.branching_nodes h.branching hn⟩
  · rw [List.forall_mem_cons]
    exact ⟨Forest.nodup_heads h.separated, fun n hn => (Forest.separated_nodes h.separated hn).2⟩

/-- Two texts part inside an edge, and the node that is made there has both ways below it. -/
theorem ofList_shape_fork :
    let n : Forest.Node :=
      ⟨['s', 't'], false, .node ['o', 'r', 'e'] true .nil (.node ['a', 'c', 'k'] true .nil .nil)⟩
    n ∈ (ofList ["store", "stack"]).root.children.nodes ∧
      (n.label ≠ [] ∧ (n.terminal = true ∨ 2 ≤ n.children.width)) ∧ n.children.heads.Nodup := by
  intro n
  have hn : n ∈ (ofList ["store", "stack"]).root.children.nodes := List.mem_cons_self
  have hshape := ofList_shape ["store", "stack"]
  exact ⟨hn, hshape.2.1 n hn, hshape.2.2.1 n (List.mem_cons_of_mem _ hn)⟩

end Trie

end CqlConsole
