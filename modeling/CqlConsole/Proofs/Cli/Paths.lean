import CqlConsole.Cli.Arguments
import CqlConsole.Error
import Mathlib.Tactic.SplitIfs

/-!
# Paths on the command line

No path of the options that a command line gives is empty, in whichever form the
option was written and wherever its value stood. Each step of the reading keeps
this, so it holds of all that is read.
-/

set_option autoImplicit false

namespace CqlConsole.Cli

def Options.PathsNamed (o : Options) : Prop :=
  ∀ option, option ≠ .format → o.value? option ≠ some ""

namespace Options

variable {o o' : Options}

theorem value?_withValue (o : Options) (text : String) (option other : Valued) :
    (o.withValue text option).value? other =
      if other = option then some text else o.value? other := by
  cases option <;> cases other <;> rfl

theorem value?_withSwitch (o : Options) (option : Switch) (other : Valued) :
    (o.withSwitch option).value? other = o.value? other := by
  cases option <;> cases other <;> rfl

theorem pathsNamed_assign {option : Valued} {text : String} (ho : o.PathsNamed)
    (h : o.assign option text = .ok o') : o'.PathsNamed := by
  rw [assign] at h
  split_ifs at h with hgiven hempty
  cases h
  intro other hother
  rw [value?_withValue]
  split_ifs with hsame
  · rintro ⟨rfl⟩
    exact hempty ⟨rfl, hsame ▸ hother⟩
  · exact ho other hother

theorem pathsNamed_turn {option : Switch} (ho : o.PathsNamed) (h : o.turn option = .ok o') :
    o'.PathsNamed := by
  rw [turn] at h
  split_ifs at h
  cases h
  intro other hother
  rw [value?_withSwitch]
  exact ho other hother

end Options

namespace Draft

variable {d d' : Draft} {o : Options}

theorem pathsNamed_settle (hd : d.options.PathsNamed) (h : d.settle = .ok o) : o.PathsNamed := by
  rw [settle] at h
  split at h
  · cases h
    exact hd
  · cases h
  · exact Options.pathsNamed_assign hd h

theorem pathsNamed_take {meaning : Meaning} {attached : Option String}
    (hd : d.options.PathsNamed) (h : d.take meaning attached = .ok d') :
    d'.options.PathsNamed := by
  rw [take.eq_def] at h
  split at h
  · obtain ⟨o, ho, h⟩ := bind_eq_ok.1 h
    obtain ⟨o', ho', h⟩ := bind_eq_ok.1 h
    cases h
    exact Options.pathsNamed_assign (pathsNamed_settle hd ho) ho'
  · obtain ⟨o, ho, h⟩ := bind_eq_ok.1 h
    cases h
    exact pathsNamed_settle hd ho
  · cases h
  · obtain ⟨o, ho, h⟩ := bind_eq_ok.1 h
    obtain ⟨o', ho', h⟩ := bind_eq_ok.1 h
    cases h
    exact Options.pathsNamed_turn (pathsNamed_settle hd ho) ho'
  · obtain ⟨o, -, h⟩ := bind_eq_ok.1 h
    cases h

theorem pathsNamed_takeLong {name : String} {attached : Option String}
    (hd : d.options.PathsNamed) (h : d.takeLong name attached = .ok d') :
    d'.options.PathsNamed := by
  rw [takeLong] at h
  split at h
  · exact pathsNamed_take hd h
  · cases h

theorem pathsNamed_takeShort {letters : List Char} (hd : d.options.PathsNamed)
    (h : d.takeShort letters = .ok d') : d'.options.PathsNamed := by
  induction letters generalizing d with
  | nil =>
    cases h
    exact hd
  | cons c s ih =>
    rw [takeShort] at h
    split at h
    · cases h
    · exact pathsNamed_take hd h
    · obtain ⟨e, he, h⟩ := bind_eq_ok.1 h
      exact ih (pathsNamed_take hd he) h

end Draft

variable {d : Draft} {a : Arguments}

theorem pathsNamed_readCommand {name : String} {rest : List String}
    (hd : d.options.PathsNamed) (h : readCommand d name rest = .ok a) : a.options.PathsNamed := by
  rw [readCommand] at h
  split_ifs at h
  split at h
  · cases h
  · obtain ⟨command, -, h⟩ := bind_eq_ok.1 h
    obtain ⟨o, ho, h⟩ := bind_eq_ok.1 h
    cases h
    exact Draft.pathsNamed_settle hd ho

theorem pathsNamed_readFrom {words : List String} (hd : d.options.PathsNamed)
    (h : readFrom d words = .ok a) : a.options.PathsNamed := by
  have hend {e : Draft} (he : e.options.PathsNamed)
      (h : e.settle.map (fun options => (⟨options, none⟩ : Arguments)) = .ok a) :
      a.options.PathsNamed := by
    cases hs : e.settle with
    | error refusal => simp [hs, Except.map] at h
    | ok o =>
      rw [hs] at h
      cases h
      exact Draft.pathsNamed_settle he hs
  induction words generalizing d with
  | nil => exact hend hd h
  | cons text rest ih =>
    rw [readFrom.eq_def] at h
    dsimp only at h
    split at h
    · split at h
      · exact hend hd h
      · cases h
    · obtain ⟨e, he, h⟩ := bind_eq_ok.1 h
      exact ih (Draft.pathsNamed_takeLong hd he) h
    · obtain ⟨e, he, h⟩ := bind_eq_ok.1 h
      exact ih (Draft.pathsNamed_takeShort hd he) h
    -- The word waits as a value of the option; it is checked when the option is settled.
    · next option _ _ =>
      exact ih (d := { d with pending := some (option, some text) }) hd h
    · exact pathsNamed_readCommand hd h

theorem pathsNamed_read {words : List String} (h : Arguments.read words = .ok a) :
    a.options.PathsNamed := by
  refine pathsNamed_readFrom (d := {}) ?_ h
  intro option _
  cases option <;> rintro ⟨⟩

theorem schema_ne_empty {words : List String} (h : Arguments.read words = .ok a) :
    a.options.schema ≠ some "" :=
  pathsNamed_read h .schema (by decide)

end CqlConsole.Cli
