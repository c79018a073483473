import CqlConsole.Completion.Suggestion
import CqlConsole.Proofs.Completion.Lookup
import CqlConsole.Proofs.Trie.Canonical

/-!
# The order of a catalog's names does not matter

What completion takes from an answer of the catalog is how many names it has and
a trie of them. Tries of the same texts are the same up to the order of siblings,
and what they offer is ranked. So a catalog that lists its names in another order
leads to the same completions.
-/

set_option autoImplicit false

namespace CqlConsole.Completion

inductive Relisted :
    Except ConsoleError (List String) → Except ConsoleError (List String) → Prop where
  | error (e : ConsoleError) : Relisted (.error e) (.error e)
  | ok {answer answer' : List String} : answer.Perm answer' → Relisted (.ok answer) (.ok answer')

theorem Relisted.filter {a a' : Except ConsoleError (List String)} (h : Relisted a a')
    (p : String → Bool) :
    Relisted (a.map fun answer => answer.filter p) (a'.map fun answer => answer.filter p) := by
  cases h with
  | error e => exact .error e
  | ok hperm => exact .ok (hperm.filter p)

structure Findings.Alike (f g : Findings) : Prop where
  offers : f.offers.Perm g.offers
  degraded : f.degraded = g.degraded
  notes : f.notes = g.notes

namespace Findings.Alike

variable {f g : Findings}

theorem refl (f : Findings) : f.Alike f :=
  ⟨.refl _, rfl, rfl⟩

theorem after (h : f.Alike g) (notes : List Note) : (f.after notes).Alike (g.after notes) :=
  ⟨h.offers, h.degraded, congrArg (notes ++ ·) h.notes⟩

end Findings.Alike

inductive Move.Alike : Move → Move → Prop where
  | advance (next : Place) (names : Names) (notes : List Note) :
      Alike (.advance next names notes) (.advance next names notes)
  | finish {f g : Findings} : f.Alike g → Alike (.finish f) (.finish g)

theorem Move.Alike.refl (m : Move) : m.Alike m := by
  cases m with
  | advance next names notes => exact .advance next names notes
  | finish found => exact .finish (.refl found)

theorem complete_ofList_perm {texts texts' : List String} (h : texts.Perm texts')
    (term : String) :
    ((Trie.ofList texts).complete term).Perm ((Trie.ofList texts').complete term) := by
  have hsame : Trie.storable texts = Trie.storable texts' :=
    List.toFinset_eq_of_perm _ _ (h.filter _)
  have hholds := Trie.holds_ofList texts
  rw [hsame] at hholds
  exact hholds.complete_perm (Trie.holds_ofList texts') term

theorem rankCandidates_perm {items items' : List String} (h : items.Perm items') :
    rankCandidates items = rankCandidates items' :=
  (rankCandidates_eq_iff items items').2 fun _ _ => h.mem_iff

section Walk

variable {catalog catalog' : Catalog}

theorem candidates_relisted (h : ∀ query, Relisted (catalog query) (catalog' query))
    (names : Names) (query : Query) :
    Relisted (candidates catalog names query) (candidates catalog' names query) := by
  rw [candidates_eq, candidates_eq]
  exact (h query).filter _

theorem atEnd_alike (h : ∀ query, Relisted (catalog query) (catalog' query)) (names : Names)
    (p : Place) : (atEnd catalog names p).Alike (atEnd catalog' names p) := by
  rw [atEnd, atEnd]
  cases p.demand names with
  | name query next =>
    have hcandidates := candidates_relisted h names query
    dsimp only
    generalize candidates catalog names query = a, candidates catalog' names query = a'
      at hcandidates ⊢
    cases hcandidates with
    | error e => exact .refl _
    | ok hperm => exact ⟨hperm, rfl, by simp [hperm.length_eq]⟩
  | _ => exact .refl _

/-- Both tries have one remainder to offer and it is empty, or neither has. -/
theorem onName_alike (h : ∀ query, Relisted (catalog query) (catalog' query)) (names : Names)
    (query : Query) (next : Place) (l : Lexeme) (isLast : Bool) :
    (onName catalog names query next l isLast).Alike
      (onName catalog' names query next l isLast) := by
  simp only [onName]
  split
  · exact .refl _
  · split
    · exact .refl _
    · have hcandidates := candidates_relisted h names query
      generalize candidates catalog names query = a, candidates catalog' names query = a'
        at hcandidates ⊢
      cases hcandidates with
      | error e => exact .refl _
      | @ok cs cs' hperm =>
        have hsuffixes := complete_ofList_perm hperm (String.ofList l.source)
        by_cases hfull : (Trie.ofList cs).complete (String.ofList l.source) = [""]
        · have hfull' := (List.singleton_perm.1 (hfull ▸ hsuffixes)).symm
          simp only [if_pos hfull, if_pos hfull', hperm.length_eq]
          exact .refl _
        · have hpart' : (Trie.ofList cs').complete (String.ofList l.source) ≠ [""] :=
            fun h => hfull (List.perm_singleton.1 (h ▸ hsuffixes))
          simp only [if_neg hfull, if_neg hpart', hperm.length_eq]
          exact .finish ⟨hsuffixes, rfl, rfl⟩

theorem read_alike (h : ∀ query, Relisted (catalog query) (catalog' query)) (names : Names)
    (p : Place) (l : Lexeme) (isLast : Bool) :
    (p.read catalog names l isLast).Alike (p.read catalog' names l isLast) := by
  rw [Place.read, Place.read]
  cases p.demand names with
  | name query next => exact onName_alike h names query next l isLast
  | _ => exact .refl _

theorem walk_alike (h : ∀ query, Relisted (catalog query) (catalog' query)) (p : Place)
    (names : Names) (ls : List Lexeme) :
    (walk catalog p names ls).Alike (walk catalog' p names ls) := by
  induction ls generalizing p names with
  | nil => exact atEnd_alike h names p
  | cons l ls ih =>
    rw [walk, walk]
    split
    · exact ih p.afterGap names
    · have hread := read_alike h names p.afterGap l ls.isEmpty
      generalize p.afterGap.read catalog names l ls.isEmpty = m,
        p.afterGap.read catalog' names l ls.isEmpty = m' at hread ⊢
      cases hread with
      | advance next names' notes => exact (ih next names').after notes
      | finish hfound => exact hfound

theorem walkStatement_alike (h : ∀ query, Relisted (catalog query) (catalog' query))
    (ls : List Lexeme) : (walkStatement catalog ls).Alike (walkStatement catalog' ls) := by
  induction ls with
  | nil => exact .refl _
  | cons l ls ih =>
    rw [walkStatement, walkStatement]
    split
    · exact ih
    · rw [onStatement, onStatement]
      split
      · exact walk_alike h .gapBeforeInto {} ls
      · exact .refl _

theorem complete_eq_of_relisted (h : ∀ query, Relisted (catalog query) (catalog' query))
    (input : String) : complete catalog input = complete catalog' input := by
  have hfound := walkStatement_alike h (Lexeme.scan input.toList)
  simp only [complete, rankCandidates_perm hfound.offers, hfound.degraded, hfound.notes]

end Walk

/-- The same texts make the same trie up to the order of siblings, in whatever order and however
often they are inserted. Whatever is completed in it, the remainders are the same up to their
order, so the order in which a catalog lists its names changes no completion and no menu. -/
theorem complete_any_order :
    (∀ texts texts' : List String, Trie.storable texts = Trie.storable texts' →
      (Trie.ofList texts).forest.Reordered (Trie.ofList texts').forest ∧
      (Trie.ofList texts).size = (Trie.ofList texts').size ∧
      ∀ term, ((Trie.ofList texts).complete term).Perm ((Trie.ofList texts').complete term)) ∧
    ∀ catalog catalog' : Catalog, (∀ query, Relisted (catalog query) (catalog' query)) →
      ∀ input, complete catalog input = complete catalog' input ∧
        ∀ position, suggestions catalog input position = suggestions catalog' input position := by
  constructor
  · intro texts texts' h
    have hholds := Trie.holds_ofList texts
    have hholds' := Trie.holds_ofList texts'
    rw [h] at hholds
    exact ⟨hholds.reordered hholds' (Trie.compact_ofList texts) (Trie.compact_ofList texts'),
      hholds.size_eq.trans hholds'.size_eq.symm, hholds.complete_perm hholds'⟩
  · intro catalog catalog' h input
    have hcomplete := complete_eq_of_relisted h input
    refine ⟨hcomplete, fun position => ?_⟩
    simp only [suggestions, hcomplete]

/-- One order cuts an edge where the other one adds a node, and the siblings come out in another
order. -/
theorem complete_any_order_cut :
    let texts := ["system", "store", "stores"]
    let texts' := ["stores", "", "store", "system", "store"]
    (Trie.storable texts = Trie.storable texts' ∧
      (Trie.ofList texts).forest ≠ (Trie.ofList texts').forest ∧
      (Trie.ofList texts).forest.Reordered (Trie.ofList texts').forest) ∧
    complete (fun _ => .ok texts) "insert into s" =
      complete (fun _ => .ok ["stores", "store", "system"]) "insert into s" := by
  intro texts texts'
  have hsame : Trie.storable texts = Trie.storable texts' := by decide
  have hrelisted : ∀ query : Query, Relisted ((fun _ => .ok texts : Catalog) query)
      ((fun _ => .ok ["stores", "store", "system"] : Catalog) query) :=
    fun _ => .ok (by decide)
  exact ⟨⟨hsame, by decide, (complete_any_order.1 texts texts' hsame).1⟩,
    (complete_any_order.2 _ _ hrelisted "insert into s").1⟩

end CqlConsole.Completion
