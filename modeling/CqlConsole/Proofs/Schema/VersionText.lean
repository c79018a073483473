import CqlConsole.Proofs.Literal.Display
import CqlConsole.Proofs.Schema.VersionForm

/-!
# Versions read back

The text of a version has the form that versions are to have, so it is read as
the version it was written from. So is the text without its letter, with the
mark of a snapshot build, and with blanks on either side.
-/

set_option autoImplicit false

namespace CqlConsole.Schema.Version

open CqlConsole.Form CqlConsole.Number CqlConsole.Run CqlConsole.Text Computability

variable {v : Version}

/-- The blanks around a text without blanks are taken off, and nothing else. -/
theorem trim_framed {a b s : List Char} (ha : ∀ c ∈ a, isBlank c = true)
    (hs : ∀ c ∈ s, isBlank c = false) (hne : s ≠ []) (hb : ∀ c ∈ b, isBlank c = true) :
    trim (a ++ s ++ b) = s := by
  have hfront : (s ++ b).dropWhile isBlank = s ++ b := by
    refine List.dropWhile_eq_self_iff.2 fun _ => ?_
    rw [List.getElem_append_left (List.length_pos_of_ne_nil hne), hs _ (List.getElem_mem _)]
    decide
  have hback : s.reverse.dropWhile isBlank = s.reverse := by
    refine List.dropWhile_eq_self_iff.2 fun _ => ?_
    rw [hs _ (List.mem_reverse.1 (List.getElem_mem _))]
    decide
  have hblanks : ∀ c ∈ b.reverse, isBlank c = true := fun c hc => hb c (List.mem_reverse.1 hc)
  rw [trim, List.append_assoc, List.dropWhile_append_of_pos ha, hfront, dropEndWhile,
    List.reverse_append, List.dropWhile_append_of_pos hblanks, hback, List.reverse_reverse]

section Written

theorem naturalText_mem (n : UInt32) : naturalText n.toNat ∈ digits n := by
  refine ⟨naturalText_mem_digits n.toNat, ?_⟩
  have hread := natural?_naturalText n.toNat
  rw [natural?_of_digits (naturalText_mem_digits n.toNat)] at hread
  exact Option.some.inj hread

def dotted (v : Version) : List Char :=
  naturalText v.major.toNat ++ '.' :: (naturalText v.minor.toNat ++ '.' ::
    naturalText v.patch.toNat)

theorem toList_text (v : Version) : v.text.toList = 'v' :: v.dotted := by
  simp [text, dotted]

theorem dotted_mem (v : Version) {m : List Char} (hm : m ∈ ending) :
    v.dotted ++ m ∈ numbers digits ending ending v :=
  mem_numbers.2 ⟨_, naturalText_mem v.major, _, naturalText_mem v.minor,
    .inr ⟨_, naturalText_mem v.patch, m, hm, rfl⟩⟩

theorem isBlank_of_mem_dotted : ∀ c ∈ v.dotted, isBlank c = false := by
  have hdigits : ∀ n, ∀ c ∈ naturalText n, isBlank c = false := fun n c hc => by
    have hdigit := isDigit_of_mem_naturalText hc
    exact isBlank_of_isNameChar (by simp [isNameChar, Char.isAlphanum, hdigit])
  intro c hc
  simp only [dotted, List.mem_append, List.mem_cons] at hc
  rcases hc with hc | rfl | hc | rfl | hc
  · exact hdigits _ c hc
  · rfl
  · exact hdigits _ c hc
  · rfl
  · exact hdigits _ c hc

end Written

/-- Whatever stands around the numbers of a version by its form, they are read. -/
theorem ofText_dotted {lead m a b : List Char} (hlead : lead = ['v'] ∨ lead = [])
    (hm : m ∈ ending) (ha : ∀ c ∈ a, isBlank c = true) (hb : ∀ c ∈ b, isBlank c = true)
    {text : String} (htext : text.toList = a ++ (lead ++ (v.dotted ++ m)) ++ b) :
    ofText text = .ok v := by
  have hne : lead ++ (v.dotted ++ m) ≠ [] := by simp [dotted]
  have hdocumented : lead ++ (v.dotted ++ m) ∈ documented v := by
    refine mem_led.2 ⟨_, dotted_mem v hm, ?_⟩
    rcases hlead with rfl | rfl
    · exact .inr rfl
    · exact .inl rfl
  have hblank : ∀ c ∈ lead ++ (v.dotted ++ m), isBlank c = false := by
    simp only [List.mem_append]
    rintro c (hc | hc | hc)
    · rcases hlead with rfl | rfl
      · rw [List.mem_singleton.1 hc]
        rfl
      · cases hc
    · exact isBlank_of_mem_dotted c hc
    · rcases mem_ending.1 hm with rfl | rfl
      · cases hc
      · have hmark : snapshotMark.all (isBlank · == false) = true := by decide
        exact beq_iff_eq.1 (List.all_eq_true.1 hmark c hc)
  rw [ofText_eq_ok, htext, trim_framed ha hblank hne hb]
  exact (documented_iff.1 hdocumented).1

/-- The text of a version is read as the version, also without its letter, with the mark of a
snapshot build behind it, and with blanks around it. So different versions have different texts. -/
theorem ofText_text (v : Version) :
    ofText v.text = .ok v ∧
    (∃ bare, v.text = "v" ++ bare ∧
      ∀ before lead mark after : String, (∀ c ∈ before.toList, isBlank c = true) →
        lead ∈ ["v", ""] → mark ∈ ["-SNAPSHOT", ""] → (∀ c ∈ after.toList, isBlank c = true) →
        ofText (before ++ lead ++ bare ++ mark ++ after) = .ok v) ∧
    ∀ w : Version, w.text = v.text → w = v := by
  have hread (w : Version) : ofText w.text = .ok w :=
    ofText_dotted (a := []) (b := []) (.inl rfl) (.inl rfl) (by simp) (by simp)
      (by simp [toList_text])
  refine ⟨hread v, ⟨String.ofList v.dotted, ?_, ?_⟩, fun w hw => ?_⟩
  · rw [← String.toList_inj, toList_text]
    simp
  · intro before lead mark after hbefore hlead hmark hafter
    have hletter : lead.toList = ['v'] ∨ lead.toList = [] := by
      rcases List.mem_pair.1 hlead with rfl | rfl
      · exact .inl rfl
      · exact .inr rfl
    have hending : mark.toList ∈ ending := by
      rcases List.mem_pair.1 hmark with rfl | rfl
      · exact .inr rfl
      · exact .inl rfl
    exact ofText_dotted hletter hending hbefore hafter (by simp)
  · have hsame := hread w
    rw [hw, hread v] at hsame
    exact (Except.ok.inj hsame).symm

/-- The greatest number, between blanks and without the letter. -/
theorem ofText_text_greatest :
    (⟨4294967295, 0, 10⟩ : Version).text = "v4294967295.0.10" ∧
      ofText "\t 4294967295.0.10-SNAPSHOT\u3000\n" = .ok ⟨4294967295, 0, 10⟩ := by
  have htext : (⟨4294967295, 0, 10⟩ : Version).text = "v4294967295.0.10" := by decide +kernel
  obtain ⟨-, ⟨bare, hbare, hread⟩, -⟩ := ofText_text ⟨4294967295, 0, 10⟩
  obtain rfl : bare = "4294967295.0.10" := by
    have hsame : "v" ++ bare = "v" ++ "4294967295.0.10" := hbare.symm.trans htext
    simpa [← String.toList_inj] using hsame
  exact ⟨htext, hread "\t " "" "-SNAPSHOT" "\u3000\n" (List.all_eq_true.1 (by decide)) (by decide)
    (by decide) (List.all_eq_true.1 (by decide))⟩

end CqlConsole.Schema.Version
