import CqlConsole.Proofs.Insert.TokenWalk
import CqlConsole.Proofs.Token.Passage
import Mathlib.Data.List.Forall2

/-!
# One cursor under any calls

A cursor can be asked for the next token, for the next one that is no white
space, for the next one unless it is at the end, and for the statement that it
stands in. Whatever is asked and in which order, each call reads on where the
one before it stopped, and what it gives is about the tokens it read.
-/

set_option autoImplicit false

namespace CqlConsole

namespace Insert

def solidOf (ts : List Token) : List Token :=
  ts.filter fun t => t.kind != .whitespace

/-- A reading is about the tokens `part`, which end at byte `stop` of an input of `size` bytes. It
lists those that are no white space. A token without a place is the last of them, and without
one, the input is read to its end. A piece that is no token is the first such piece, and what
is behind it is not read. -/
def Shows (size stop : Nat) (part : List Token) : Except SyntaxError Reading → Prop
  | .ok r => r.backlog = solidOf part ∧
      match r.outcome with
      | .rejected _ t => part.getLast? = some t ∧ r.backlog.getLast? = some t ∧ t.stop = stop
      | _ => stop = size
  | .error e => ∃ front t, part = front ++ [t] ∧ (∀ u ∈ front, u.kind ≠ .error) ∧
      t.kind = .error ∧ t.stop = stop ∧ e = .invalidToken t.text

section Shows

variable {size stop : Nat} {part : List Token} {t : Token} {x : Except SyntaxError Reading}

theorem shows_blank (ht : t.kind = .whitespace) (h : Shows size stop part x) :
    Shows size stop (t :: part) x := by
  cases x with
  | error e =>
    obtain ⟨front, u, rfl, hfront, h⟩ := h
    exact ⟨t :: front, u, rfl, List.forall_mem_cons.2 ⟨by simp [ht], hfront⟩, h⟩
  | ok r =>
    obtain ⟨hbacklog, hout⟩ := h
    refine ⟨by simpa [solidOf, ht] using hbacklog, ?_⟩
    cases houtcome : r.outcome with
    | rejected s u =>
      simp only [houtcome] at hout ⊢
      exact ⟨by simp [List.getLast?_cons, hout.1], hout.2⟩
    | complete | incomplete s => simpa only [houtcome] using hout

theorem shows_prepend (ht : t.kind ≠ .whitespace) (he : t.kind ≠ .error)
    (h : Shows size stop part x) : Shows size stop (t :: part) (x.map (Reading.prepend t)) := by
  cases x with
  | error e =>
    obtain ⟨front, u, rfl, hfront, h⟩ := h
    exact ⟨t :: front, u, rfl, List.forall_mem_cons.2 ⟨he, hfront⟩, h⟩
  | ok r =>
    obtain ⟨hbacklog, hout⟩ := h
    refine ⟨by simp [Reading.prepend, solidOf, ht, hbacklog], ?_⟩
    cases houtcome : r.outcome with
    | rejected s u =>
      simp only [Reading.prepend, houtcome] at hout ⊢
      simp [List.getLast?_cons, hout]
    | complete | incomplete s => simpa only [Reading.prepend, houtcome] using hout

theorem shows_rejected {s : State} {st : Statement} {blanks : List Token}
    (hblanks : ∀ b ∈ blanks, b.kind = .whitespace) (ht : t.kind ≠ .whitespace) :
    Shows size t.stop (blanks ++ [t]) (.ok ⟨st, .rejected s t, [t]⟩) := by
  induction blanks with
  | nil => simp [Shows, solidOf, ht]
  | cons b blanks ih =>
    obtain ⟨hb, hblanks⟩ := List.forall_mem_cons.1 hblanks
    exact shows_blank hb (ih hblanks)

theorem shows_invalid {blanks : List Token} (hblanks : ∀ b ∈ blanks, b.kind = .whitespace)
    (ht : t.kind = .error) :
    Shows size t.stop (blanks ++ [t]) (.error (.invalidToken t.text)) :=
  ⟨blanks, t, rfl, fun u hu => by simp [hblanks u hu], ht, rfl, rfl⟩

end Shows

section Walk

open CqlConsole.Cursor

variable {size : Nat}

theorem cursor_trailing (s : State) (d : Draft) (c : Cursor) :
    (Walk.trailing d s c).cursor = c.nextSolid.2 := by
  simp only [Walk.trailing]
  split <;> rfl

theorem solidOf_blanks {blanks : List Token} (h : ∀ b ∈ blanks, b.kind = .whitespace) :
    solidOf blanks = [] := by
  simpa [solidOf] using h

theorem trailing_passes (s : State) (d : Draft) (c : Cursor)
    (hend : (Walk.trailing d s c).cursor.rest = [] →
      (Walk.trailing d s c).cursor.position = size) :
    ∃ front, c.Passes front (Walk.trailing d s c).cursor ∧
      Shows size (Walk.trailing d s c).cursor.position (front.map Lexeme.token)
        (Walk.trailing d s c).reading := by
  rw [cursor_trailing] at hend ⊢
  obtain ⟨blanks, hblanks, hcases⟩ := nextSolid_cases c
  have htokens : ∀ b ∈ blanks.map Lexeme.token, b.kind = .whitespace :=
    List.forall_mem_map.2 hblanks
  rcases hcases with ⟨hpass, hrest, htoken⟩ | ⟨l, hpass, hl, htoken⟩
  · have hreading : (Walk.trailing d s c).reading = .ok ⟨d.statement, .complete, []⟩ := by
      simp [Walk.trailing, htoken, Token.endOfInput, Walk.reading, Except.map]
    rw [hreading]
    exact ⟨blanks, hpass, (solidOf_blanks htokens).symm, hend hrest⟩
  · have hstop : c.nextSolid.2.position = l.token.stop :=
      hpass.position_eq.trans (endFrom_concat c.position blanks l)
    refine ⟨blanks ++ [l], hpass, ?_⟩
    rw [hstop, List.map_append]
    by_cases he : l.token.kind = .error
    · have hreading : (Walk.trailing d s c).reading = .error (.invalidToken l.token.text) := by
        simp [Walk.trailing, htoken, he, Walk.reading, Except.map]
      rw [hreading]
      exact shows_invalid htokens he
    · have hreading : (Walk.trailing d s c).reading =
          .ok ⟨d.statement, .rejected s l.token, [l.token]⟩ := by
        have hne : l.token.kind ≠ .endOfInput := Run.kind_ne_endOfInput l.source
        simp only [Walk.trailing, htoken]
        rfl
      rw [hreading]
      exact shows_rejected htokens hl

theorem walk_passes (s : State) (d : Draft) (p : Nat) (ls : List Lexeme)
    (hend : (Walk.ofLexemes s d p ls).cursor.rest = [] →
      (Walk.ofLexemes s d p ls).cursor.position = size) :
    ∃ front, Passes ⟨p, ls⟩ front (Walk.ofLexemes s d p ls).cursor ∧
      Shows size (Walk.ofLexemes s d p ls).cursor.position (front.map Lexeme.token)
        (Walk.ofLexemes s d p ls).reading := by
  induction ls generalizing s d p with
  | nil =>
    refine ⟨[], Passes.stay _, rfl, ?_⟩
    have hsize := hend rfl
    by_cases hs : s.isAccepting = true <;> simpa [Walk.ofLexemes, hs] using hsize
  | cons l ls ih =>
    by_cases hw : l.kind = .whitespace
    · have hwalk : Walk.ofLexemes s d p (l :: ls) = Walk.ofLexemes s d l.stop ls := by
        have hkind : l.token.kind = .whitespace := hw
        rw [Walk.ofLexemes]
        simp only [hkind]
      rw [hwalk] at hend ⊢
      obtain ⟨front, hpass, hshows⟩ := ih s d l.stop hend
      exact ⟨l :: front, hpass.cons, shows_blank hw hshows⟩
    · by_cases he : l.token.kind = .error
      · have hwalk : Walk.ofLexemes s d p (l :: ls) =
            ⟨d.statement, .error (.invalidToken l.token.text), [], [], ⟨l.stop, ls⟩⟩ := by
          rw [Walk.ofLexemes]
          simp only [he]
        rw [hwalk]
        exact ⟨[l], (Passes.stay _).cons, shows_invalid (List.forall_mem_nil _) he⟩
      · have hkind : l.token.kind ≠ .whitespace := hw
        simp only [Walk.ofLexemes] at hend ⊢
        cases hl : landing s (s.path l.token) with
        | moved next =>
          simp only [hl] at hend ⊢
          obtain ⟨front, hpass, hshows⟩ := ih next _ l.stop hend
          rw [reading_prepend]
          exact ⟨l :: front, hpass.cons, shows_prepend hw he hshows⟩
        | finished state =>
          simp only [hl] at hend ⊢
          obtain ⟨front, hpass, hshows⟩ := trailing_passes state _ _ hend
          rw [reading_prepend]
          exact ⟨l :: front, hpass.cons, shows_prepend hw he hshows⟩
        | refused state =>
          exact ⟨[l], (Passes.stay _).cons, shows_rejected (List.forall_mem_nil _) hw⟩

end Walk

end Insert

namespace Cursor

open CqlConsole.Insert

inductive Call where
  | next
  | nextSolid
  | item
  | statement
  deriving DecidableEq, Repr

inductive Answer where
  | next (t : Token)
  | nextSolid (t : Token)
  | item (t : Option Token)
  | statement (r : Except SyntaxError Reading)
  deriving DecidableEq, Repr

def ask (c : Cursor) : Call → Answer × Cursor
  | .next => (.next c.next.1, c.next.2)
  | .nextSolid => (.nextSolid c.nextSolid.1, c.nextSolid.2)
  | .item => (.item c.next?.1, c.next?.2)
  | .statement => (.statement (Walk.ofCursor c).reading, (Walk.ofCursor c).cursor)

/-- An answer is about the tokens `part`, which end at byte `stop` of an input of `size` bytes.
It gives the end of the input only at the end, and it drops nothing but white space. -/
def Answer.Shows (size stop : Nat) (part : List Token) : Answer → Prop
  | next t => part = [t] ∨ part = [] ∧ stop = size ∧ t = .endOfInput size
  | nextSolid t => ∃ blanks, (∀ b ∈ blanks, b.kind = .whitespace) ∧
      (part = blanks ++ [t] ∧ t.kind ≠ .whitespace ∨
        part = blanks ∧ stop = size ∧ t = .endOfInput size)
  | item (some t) => part = [t]
  | item none => part = [] ∧ stop = size
  | statement r => Insert.Shows size stop part r

structure Record where
  before : Nat
  answer : Answer
  after : Nat
  deriving DecidableEq, Repr

def afterCalls (c : Cursor) : List Call → Cursor
  | [] => c
  | call :: calls => (c.ask call).2.afterCalls calls

def records (c : Cursor) : List Call → List Record
  | [] => []
  | call :: calls =>
    ⟨c.position, (c.ask call).1, (c.ask call).2.position⟩ :: (c.ask call).2.records calls

def Record.Reads (size : Nat) (r : Record) (part : List Token) : Prop :=
  Contiguous r.before part r.after ∧ r.answer.Shows size r.after part

section Calls

variable {input : String} {c : Cursor}

/-- One call: what it reads comes next behind the cursor, and its answer is about that. -/
theorem ask_passes (c : Cursor) (call : Call) {size : Nat}
    (hend : (c.ask call).2.rest = [] → (c.ask call).2.position = size) :
    ∃ front, c.Passes front (c.ask call).2 ∧
      (c.ask call).1.Shows size (c.ask call).2.position (front.map Lexeme.token) := by
  cases call with
  | next =>
    rcases c.next_cases with ⟨hrest, hnext⟩ | ⟨l, hpass, htoken⟩
    · simp only [ask, hnext] at hend ⊢
      rw [← hend hrest]
      exact ⟨[], Passes.stay c, Or.inr ⟨rfl, rfl, rfl⟩⟩
    · exact ⟨[l], hpass, Or.inl (congrArg (fun t => [t]) htoken.symm)⟩
  | nextSolid =>
    obtain ⟨blanks, hblanks, hcases⟩ := c.nextSolid_cases
    have htokens : ∀ b ∈ blanks.map Lexeme.token, b.kind = .whitespace :=
      List.forall_mem_map.2 hblanks
    rcases hcases with ⟨hpass, hrest, htoken⟩ | ⟨l, hpass, hl, htoken⟩
    · refine ⟨blanks, hpass, blanks.map Lexeme.token, htokens, Or.inr ⟨rfl, hend hrest, ?_⟩⟩
      rw [htoken, ← hend hrest]
      rfl
    · refine ⟨blanks ++ [l], hpass, blanks.map Lexeme.token, htokens, Or.inl ?_⟩
      rw [htoken, List.map_append]
      exact ⟨rfl, hl⟩
  | item =>
    cases hrest : c.rest with
    | nil =>
      have hitem : c.next? = (none, c) := by rw [next?, hrest]
      simp only [ask, hitem] at hend ⊢
      exact ⟨[], Passes.stay c, rfl, hend hrest⟩
    | cons l ls =>
      have hitem : c.next? = (some c.next.1, c.next.2) := by rw [next?, hrest]
      rcases c.next_cases with ⟨hnil, -⟩ | ⟨m, hpass, htoken⟩
      · rw [hrest] at hnil
        cases hnil
      · simp only [ask, hitem]
        exact ⟨[m], hpass, congrArg (fun t => [t]) htoken.symm⟩
  | statement => exact walk_passes .into {} c.position c.rest hend

theorem Stands.ask (h : Stands input c) (call : Call) : Stands input (c.ask call).2 := by
  obtain ⟨front, hpass, -⟩ := ask_passes c call fun _ => Eq.refl (c.ask call).2.position
  exact (h.passes hpass).1

theorem Stands.afterCalls (h : Stands input c) (calls : List Call) :
    Stands input (c.afterCalls calls) := by
  induction calls generalizing c with
  | nil => exact h
  | cons call calls ih => exact ih (h.ask call)

/-- The calls share the tokens behind the cursor among them, in order, and what they leave is
behind the cursor after them. -/
theorem exists_parts (h : Stands input c) (calls : List Call) :
    ∃ parts : List (List Token),
      c.rest.map Lexeme.token = parts.flatten ++ (c.afterCalls calls).rest.map Lexeme.token ∧
      List.Forall₂ (Record.Reads input.utf8ByteSize) (c.records calls) parts := by
  induction calls generalizing c with
  | nil => exact ⟨[], rfl, .nil⟩
  | cons call calls ih =>
    obtain ⟨front, hpass, hshows⟩ := ask_passes c call (h.ask call).position_of_rest
    obtain ⟨hstands, hcontiguous, -⟩ := h.passes hpass
    obtain ⟨parts, hparts, hreads⟩ := ih hstands
    refine ⟨front.map Lexeme.token :: parts, ?_, .cons ⟨hcontiguous, hshows⟩ hreads⟩
    rw [hpass.rest_eq, List.map_append, hparts, List.flatten_cons, List.append_assoc]
    rfl

theorem mem_records (h : Stands input c) {calls : List Call} {r : Record}
    (hr : r ∈ c.records calls) :
    r.before ∈ (tokenize input).map Token.start ∧ r.after ∈ (tokenize input).map Token.start ∧
      r.before ≤ r.after := by
  induction calls generalizing c with
  | nil => cases hr
  | cons call calls ih =>
    rcases List.mem_cons.1 hr with rfl | hr
    · obtain ⟨front, hpass, -⟩ := ask_passes c call (h.ask call).position_of_rest
      exact ⟨h.position_mem, (h.ask call).position_mem, (h.passes hpass).2.2⟩
    · exact ih (h.ask call) hr

theorem isChain_records (c : Cursor) (calls : List Call) :
    (c.records calls).IsChain fun r s => r.after = s.before := by
  induction calls generalizing c with
  | nil => exact .nil
  | cons call calls ih =>
    cases calls with
    | nil => exact .singleton _
    | cons call' calls => exact .cons_cons rfl (ih (c.ask call).2)

end Calls

end Cursor

open CqlConsole.Cursor CqlConsole.Text

/-- Whatever is asked of a cursor and in which order, it stands between two tokens of the input, or
at its end, and never goes back. The calls read the tokens one after the other, each where the one
before it stopped, and every answer is about the tokens its call read. What is left is what the
text behind the cursor gives by itself. -/
theorem calls_in_order (input : String) (calls : List Call) :
    (∀ r ∈ (ofInput input).records calls, r.before ∈ (tokenize input).map Token.start ∧
      r.after ∈ (tokenize input).map Token.start ∧ r.before ≤ r.after) ∧
    (((ofInput input).records calls).IsChain fun r s => r.after = s.before) ∧
    ∃ (parts : List (List Token)) (left : List Token),
      tokenize input = parts.flatten ++ left ++ [.endOfInput input.utf8ByteSize] ∧
      List.Forall₂ (Record.Reads input.utf8ByteSize) ((ofInput input).records calls) parts ∧
      Contiguous ((ofInput input).afterCalls calls).position left input.utf8ByteSize ∧
      (ofInput input).afterCalls calls =
        behind input ((ofInput input).afterCalls calls).position := by
  have hstart := stands_ofInput input
  have hstop := hstart.afterCalls calls
  obtain ⟨parts, hparts, hreads⟩ := exists_parts hstart calls
  refine ⟨fun r hr => mem_records hstart hr, isChain_records _ calls, parts,
    ((ofInput input).afterCalls calls).rest.map Lexeme.token, ?_, hreads, hstop.contiguous,
    hstop.eq_behind⟩
  rw [← hparts, tokenize, utf8ByteSize_eq]
  rfl

/-- The end of the input is handed out again and again, and the cursor stays there. -/
theorem calls_in_order_end :
    let input := "insert into t u;"
    let calls : List Call := [.next, .statement, .next, .item, .next]
    let r : Record := ⟨16, .next (.endOfInput 16), 16⟩
    r ∈ (ofInput input).records calls ∧ r.before ∈ (tokenize input).map Token.start ∧
      r.after ∈ (tokenize input).map Token.start ∧ r.before ≤ r.after := by
  intro input calls r
  have hr : r ∈ (ofInput input).records calls := by decide +kernel
  exact ⟨hr, (calls_in_order input calls).1 r hr⟩

end CqlConsole
