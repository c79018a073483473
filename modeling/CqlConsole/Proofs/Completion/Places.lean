import CqlConsole.Proofs.Completion.Lookup
import CqlConsole.Proofs.Insert.Outcome
import CqlConsole.Proofs.Token.Names

/-!
# Places of the completion and states of the parser

Each place of the completion belongs to a state of the parser, and what fits the
place takes the state to the one of the next place. There is one exception: the
completion takes a keyword for a name, which the parser does not.
-/

set_option autoImplicit false

namespace CqlConsole.Completion

open CqlConsole.Insert CqlConsole.Run CqlConsole.Text

def Place.state : Place → State
  | gapBeforeInto | into => .into
  | gapBeforeKeyspace | keyspace => .tableName
  | dot => .maybeDot
  | table => .table
  | columnsOpen => .maybeJson
  | column => .firstColumn
  | afterColumn => .moreColumns
  | gapBeforeColumn => .nextColumn
  | gapBeforeValues | values => .valuesKeyword
  | valuesOpen => .valuesOpen
  | done => .firstValue

def untilClose (ts : List Token) : List Token :=
  ts.takeWhile fun t => !t.isCloseBracket

/-- The tokens from a place on that stand where names are wanted, with the marks between them. -/
def Place.nameTokens (ts : List Token) : Place → List Token
  | gapBeforeInto | into => untilClose (ts.drop 1)
  | gapBeforeValues | values | valuesOpen | done => []
  | _ => untilClose ts

def NoKeyword (ts : List Token) : Prop :=
  ∀ t ∈ ts, t.kind ≠ .keyword

theorem noKeyword_untilClose {t : Token} {ts : List Token} (h : t.isCloseBracket = false) :
    NoKeyword (untilClose (t :: ts)) ↔ t.kind ≠ .keyword ∧ NoKeyword (untilClose ts) := by
  simp [NoKeyword, untilClose, h]

theorem noKeyword_mark {t : Token} {ts : List Token} (hc : t.isCloseBracket = false)
    (hk : t.kind ≠ .keyword) : NoKeyword (untilClose (t :: ts)) ↔ NoKeyword (untilClose ts) := by
  rw [noKeyword_untilClose hc, and_iff_right hk]

section Fits

variable {p next : Place} {names names' : Names} {l : Lexeme}

theorem afterGap_of_gap (hp : p.demand names = .gap next) :
    p.afterGap = next ∧ ∀ names' q, next.demand names' ≠ .gap q := by
  cases p <;> simp [Place.demand] at hp <;> subst hp <;> simp [Place.afterGap, Place.demand]

theorem afterGap_of_fits {l : Lexeme} (h : Fits p names l next names') : p.afterGap = p := by
  have hgap : ∀ q, p.demand names ≠ .gap q := by
    intro q hp
    cases h <;> simp_all
  cases p <;> simp_all [Place.demand, Place.afterGap]

theorem nameTokens_afterGap (p : Place) (ts : List Token) :
    p.afterGap.nameTokens ts = p.nameTokens ts := by
  cases p <;> rfl

def Place.effect : Place → Effect
  | keyspace => .pending
  | dot => .keyspaceFromPending
  | table => .setTable
  | column => .pushColumn
  | _ => .none

/-- The state comes to the next one with the token and this effect, perhaps through a third
state that has none. -/
def Passes (s : State) (t : Token) (next : State) (e : Effect) : Prop :=
  s.react t = .advance next e ∨
    ∃ mid, s.react t = .handOn mid .none ∧ mid.react t = .advance next e

theorem readFrom_passes {s s' : State} {t : Token} {e : Effect} (h : Passes s t s' e) (d : Draft)
    (ts : List Token) :
    readFrom s d (t :: ts) = (readFrom s' (d.apply e t) ts).map (Reading.prepend t) := by
  rcases h with h | ⟨mid, h, hmid⟩
  · exact readFrom_advance d ts h
  · rw [readFrom_handOn d ts h]
    exact readFrom_advance d ts hmid

def Takes (s : State) (t : Token) (next : State) : Prop :=
  (∃ e, s.react t = .advance next e) ∨
    ∃ mid e e', s.react t = .handOn mid e ∧ mid.react t = .advance next e'

theorem Passes.takes {s s' : State} {t : Token} {e : Effect} (h : Passes s t s' e) :
    Takes s t s' := by
  rcases h with h | ⟨mid, h, hmid⟩
  · exact Or.inl ⟨e, h⟩
  · exact Or.inr ⟨mid, .none, e, h, hmid⟩

theorem reads_of_takes {s s' : State} {t : Token} (h : Takes s t s') (ts : List Token) :
    Reads s (t :: ts) ↔ Reads s' ts := by
  rcases h with ⟨e, h⟩ | ⟨mid, e, e', h, hmid⟩
  · exact reads_advance ts h
  · rw [reads_handOn ts h, reads_advance ts hmid]

theorem isWord_iff : isWord l = true ↔ l.kind = .identifier ∨ l.kind = .keyword := by
  simp [isWord]

theorem keyword_of_lower {word : String} {s : List Char} (h : lower s = word.toList)
    (hword : word = "into" ∨ word = "values") :
    isPlainName s = true ∧ Run.kind s = .keyword := by
  rcases hword with rfl | rfl
  · exact ⟨isPlainName_of_lower h (by decide) (by decide),
      kind_of_lower h (by decide) (by decide) (by decide)⟩
  · exact ⟨isPlainName_of_lower h (by decide) (by decide),
      kind_of_lower h (by decide) (by decide) (by decide)⟩

theorem isKeyword_of_lower {word : String} (h : lower l.source = word.toList)
    (hword : word = "into" ∨ word = "values") : l.token.isKeyword word = true := by
  have hkind : l.kind = .keyword := (keyword_of_lower h hword).2
  simp [Token.isKeyword, Token.is, Lexeme.token, Lexeme.text, hkind, h]

theorem dot_of_source (h : l.source = ['.']) : l.token.kind = .dot :=
  congrArg Run.kind h

theorem openBracket_of_source (h : l.source = ['(']) :
    l.token.kind = .bracket ∧ l.token.isOpenBracket = true := by
  obtain ⟨start, source⟩ := l
  cases h
  exact ⟨rfl, rfl⟩

theorem isCloseBracket_of_open {t : Token} (h : t.isOpenBracket = true) :
    t.isCloseBracket = false := by
  simp only [Token.isOpenBracket, Token.is, Bool.and_eq_true, beq_iff_eq] at h
  simp [Token.isCloseBracket, Token.is, h.2]

theorem closeBracket_of_source (h : l.source = [')']) :
    l.token.kind = .bracket ∧ l.token.isCloseBracket = true := by
  obtain ⟨start, source⟩ := l
  cases h
  exact ⟨rfl, rfl⟩

theorem piece_of_wanted {word : String} (hp : p.demand names = .word word next) :
    lower word.toList = word.toList ∧ kind word.toList ≠ .whitespace ∧
      (endMode word.toList).isSome = true := by
  have hall : ∀ w ∈ wantedWords, lower w.toList = w.toList ∧ kind w.toList ≠ .whitespace ∧
      (endMode w.toList).isSome = true := by decide
  exact hall word (mem_wantedWords hp)

theorem passes_word {word : String} (hp : p.demand names = .word word next)
    (hl : lower l.source = word.toList) : Passes p.state l.token next.state p.effect := by
  rcases demand_word_cases hp with ⟨rfl, rfl, rfl⟩ | ⟨rfl, rfl, rfl⟩ | ⟨rfl, rfl, rfl⟩ |
    ⟨rfl, rfl, rfl⟩ | ⟨rfl, rfl, rfl⟩
  · have hinto := isKeyword_of_lower hl (Or.inl rfl)
    exact Or.inl (by simp [Place.state, Place.effect, State.react, State.takeIf, hinto])
  · have hdot := dot_of_source (eq_of_lower_sign hl rfl)
    exact Or.inl (by simp [Place.state, Place.effect, State.react, hdot])
  · obtain ⟨hkind, hopen⟩ := openBracket_of_source (eq_of_lower_sign hl rfl)
    exact Or.inr ⟨.columnsOpen, by simp [Place.state, State.react, hkind],
      by simp [Place.state, Place.effect, State.react, State.takeIf, hopen]⟩
  · have hvalues := isKeyword_of_lower hl (Or.inr rfl)
    exact Or.inl (by simp [Place.state, Place.effect, State.react, State.takeIf, hvalues])
  · obtain ⟨-, hopen⟩ := openBracket_of_source (eq_of_lower_sign hl rfl)
    exact Or.inl (by simp [Place.state, Place.effect, State.react, State.takeIf, hopen])

theorem react_name {query : Query} (hp : p.demand names = .name query next) (t : Token) :
    p.state.react t = State.takeIf (t.kind == .identifier) next.state p.effect := by
  rcases demand_name_cases hp with ⟨rfl, -, rfl⟩ | ⟨rfl, -, rfl⟩ | ⟨rfl, -, rfl⟩ <;> rfl

theorem passes_name {query : Query} {t : Token} (hp : p.demand names = .name query next)
    (h : t.kind = .identifier) : Passes p.state t next.state p.effect :=
  Or.inl (by simp [react_name hp, State.takeIf, h])

theorem not_reads_name {query : Query} {t : Token} (hp : p.demand names = .name query next)
    (h : t.kind ≠ .identifier) (ts : List Token) : ¬Reads p.state (t :: ts) :=
  not_reads_stuck ts (by simp [react_name hp, State.takeIf, h])

theorem passes_comma (h : l.kind = .comma) :
    Passes Place.afterColumn.state l.token Place.gapBeforeColumn.state .none := by
  have hkind : l.token.kind = .comma := h
  exact Or.inl (by simp [Place.state, State.react, hkind])

theorem passes_close (h : l.source = [')']) :
    Passes Place.afterColumn.state l.token Place.gapBeforeValues.state .none := by
  obtain ⟨hkind, hclose⟩ := closeBracket_of_source h
  exact Or.inr ⟨.columnsClose, by simp [Place.state, State.react, hkind],
    by simp [Place.state, State.react, State.takeIf, hclose]⟩

theorem passes_of_fits (h : Fits p names l next names')
    (hname : ∀ query q, p.demand names = .name query q → l.kind = .identifier) :
    Passes p.state l.token next.state p.effect := by
  cases h with
  | word hp hl => exact passes_word hp hl
  | name hp _ => exact passes_name hp (hname _ _ hp)
  | comma hp hl =>
    obtain rfl := demand_more hp
    exact passes_comma hl
  | close hp hl =>
    obtain rfl := demand_more hp
    exact passes_close hl

/-- The parser does not tell the first column from a further one. -/
theorem reads_afterGap (p : Place) (ts : List Token) :
    Reads p.afterGap.state ts ↔ Reads p.state ts := by
  cases p with
  | gapBeforeColumn =>
    cases ts with
    | nil => simp [reads_nil]
    | cons t ts =>
      by_cases hk : t.kind = .identifier
      · have hnext : Takes Place.gapBeforeColumn.state t Place.afterColumn.state :=
          Or.inl ⟨.pushColumn, by simp [Place.state, State.react, State.takeIf, hk]⟩
        have hfirst : Takes Place.column.state t Place.afterColumn.state := hnext
        exact (reads_of_takes hfirst ts).trans (reads_of_takes hnext ts).symm
      · have hnext : State.nextColumn.react t = .stuck := by
          simp [State.react, State.takeIf, hk]
        have hfirst : State.firstColumn.react t = .stuck := hnext
        exact iff_of_false (not_reads_stuck ts hfirst) (not_reads_stuck ts hnext)
  | _ => exact Iff.rfl

theorem noKeyword_of_word {word : String} (hp : p.demand names = .word word next)
    (hl : lower l.source = word.toList) (us : List Token) :
    NoKeyword (p.nameTokens (l.token :: us)) ↔ NoKeyword (next.nameTokens us) := by
  rcases demand_word_cases hp with ⟨rfl, rfl, rfl⟩ | ⟨rfl, rfl, rfl⟩ | ⟨rfl, rfl, rfl⟩ |
    ⟨rfl, rfl, rfl⟩ | ⟨rfl, rfl, rfl⟩
  · rfl
  · have hdot := dot_of_source (eq_of_lower_sign hl rfl)
    exact noKeyword_mark (by simp [Token.isCloseBracket, Token.is, hdot]) (by simp [hdot])
  · obtain ⟨hkind, hopen⟩ := openBracket_of_source (eq_of_lower_sign hl rfl)
    exact noKeyword_mark (isCloseBracket_of_open hopen) (by simp [hkind])
  · rfl
  · rfl

theorem noKeyword_of_name {query : Query} {t : Token} (hp : p.demand names = .name query next)
    (h : t.isCloseBracket = false) (us : List Token) :
    NoKeyword (p.nameTokens (t :: us)) ↔ t.kind ≠ .keyword ∧ NoKeyword (next.nameTokens us) := by
  rcases demand_name_cases hp with ⟨rfl, -, rfl⟩ | ⟨rfl, -, rfl⟩ | ⟨rfl, -, rfl⟩ <;>
    exact noKeyword_untilClose h

/-- The parser follows what fits, unless a keyword stands for a name. -/
theorem reads_step {ts us : List Token} (h : Fits p names l next names')
    (hnext : Reads next.state ts ↔ NoKeyword (next.nameTokens us)) :
    Reads p.state (l.token :: ts) ↔ NoKeyword (p.nameTokens (l.token :: us)) := by
  cases h with
  | word hp hl =>
    rw [reads_of_takes (passes_word hp hl).takes, hnext, noKeyword_of_word hp hl]
  | name hp hl =>
    have hword : l.token.kind = .identifier ∨ l.token.kind = .keyword := isWord_iff.1 hl
    have hclose : l.token.isCloseBracket = false := by
      rcases hword with h | h <;> simp [Token.isCloseBracket, Token.is, h]
    rw [noKeyword_of_name hp hclose]
    rcases hword with hk | hk
    · rw [reads_of_takes (passes_name hp hk).takes, hnext, hk]
      simp
    · exact iff_of_false (not_reads_name hp (by simp [hk]) ts) fun h => h.1 hk
  | comma hp hl =>
    obtain rfl := demand_more hp
    have hkind : l.token.kind = .comma := hl
    rw [reads_of_takes (passes_comma hl).takes, hnext]
    exact (noKeyword_mark (by simp [Token.isCloseBracket, Token.is, hkind]) (by simp [hkind])).symm
  | close hp hl =>
    obtain rfl := demand_more hp
    obtain ⟨-, hclose⟩ := closeBracket_of_source hl
    rw [reads_of_takes (passes_close hl).takes, hnext]
    have hnone : untilClose (l.token :: us) = [] := by simp [untilClose, hclose]
    have hnames : Place.afterColumn.nameTokens (l.token :: us) = [] := hnone
    rw [hnames]
    rfl

end Fits

/-- What the parser has built in front of a place. The columns are taken over at every place, though
none is read before the parenthesis opens. -/
def Place.draft (names : Names) : Place → Draft
  | gapBeforeInto | into | gapBeforeKeyspace | keyspace =>
    { statement := { columns := names.columns } }
  | dot => { statement := { columns := names.columns }, pending := some names.keyspace }
  | table => { statement := { keyspace := some names.keyspace, columns := names.columns } }
  | _ =>
    { statement :=
        { keyspace := some names.keyspace, table := names.table, columns := names.columns } }

def Place.Meets (p : Place) (s : State) : Prop :=
  s = p.state ∨ p = .column ∧ s = .nextColumn

section Parser

variable {p next : Place} {names names' : Names} {l : Lexeme} {s : State}

theorem meets_of_gap (hp : p.demand names = .gap next) (h : p.Meets s) :
    next.Meets s ∧ next.draft names = p.draft names := by
  have hs : s = p.state := by
    rcases h with h | ⟨rfl, -⟩
    · exact h
    · cases hp
  cases p with
  | gapBeforeInto | gapBeforeKeyspace | gapBeforeValues =>
    cases hp
    exact ⟨Or.inl hs, rfl⟩
  | gapBeforeColumn =>
    cases hp
    exact ⟨Or.inr ⟨rfl, hs⟩, rfl⟩
  | _ => cases hp

theorem not_accepting (h : p.Meets s) : s.isAccepting = false := by
  rcases h with rfl | ⟨-, rfl⟩
  · cases p <;> rfl
  · rfl

theorem draft_of_fits (h : Fits p names l next names')
    (hname : ∀ query q, p.demand names = .name query q → l.kind = .identifier) :
    (p.draft names).apply p.effect l.token = next.draft names' := by
  cases h with
  | word hp _ =>
    rcases demand_word_cases hp with ⟨rfl, -, rfl⟩ | ⟨rfl, -, rfl⟩ | ⟨rfl, -, rfl⟩ |
      ⟨rfl, -, rfl⟩ | ⟨rfl, -, rfl⟩ <;> rfl
  | name hp _ =>
    have htext : l.token.text = String.ofList l.source := by
      simp [Lexeme.token, Lexeme.text, hname _ _ hp]
    rcases demand_name_cases hp with ⟨rfl, rfl, rfl⟩ | ⟨rfl, rfl, rfl⟩ | ⟨rfl, rfl, rfl⟩ <;>
      simp [Place.draft, Place.effect, Draft.apply, Names.accept, htext]
  | comma hp _ =>
    obtain rfl := demand_more hp
    rfl
  | close hp _ =>
    obtain rfl := demand_more hp
    rfl

/-- The parser builds from a piece that fits what the walk notes of it. -/
theorem readFrom_fits (h : Fits p names l next names')
    (hname : ∀ query q, p.demand names = .name query q → l.kind = .identifier)
    (hs : p.Meets s) (ts : List Token) :
    readFrom s (p.draft names) (l.token :: ts) =
      (readFrom next.state (next.draft names') ts).map (Reading.prepend l.token) := by
  have hpasses := passes_of_fits h hname
  have hreact : s.react l.token = p.state.react l.token := by
    rcases hs with rfl | ⟨rfl, rfl⟩
    · rfl
    · rfl
  rw [Passes, ← hreact] at hpasses
  rw [readFrom_passes hpasses, draft_of_fits h hname]

end Parser

end CqlConsole.Completion
