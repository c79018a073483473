import CqlConsole.Proofs.Insert.Grammar
import CqlConsole.Proofs.Token.Pieces

/-!
# The symbols of a printed statement

The compact text of a statement is made of words, marks and the texts of the
tokens that the statement keeps. Each of them is cut off by what is printed
behind it, so that part by part the text spells the symbols of the grammar.
-/

set_option autoImplicit false

namespace CqlConsole.Insert

open CqlConsole.Run CqlConsole.Text

def textSymbols (s : List Char) : List Symbol :=
  (solid s).map symbol

structure Kept (t : Token) : Prop where
  stable : t.Stable
  symbol_eq : symbol t = .kept t

theorem symbol_unplaced {t : Token} (h : symbol t = .kept t) :
    symbol t.unplaced = .kept t.unplaced := by
  obtain ⟨k, text, i, j⟩ := t
  cases k <;> simp only [symbol, Token.unplaced] at h ⊢ <;> grind

section Pieces

variable {s : List Char} {w word : String} {t : Token}

theorem piece_of_word (hm : endMode w.toList = some .word)
    (hw : symbol (token w.toList) = .keyword word) : IsPiece w.toList := by
  have hword := symbol_keyword.1 hw
  simp only [Token.isKeyword, Token.is, Bool.and_eq_true, beq_iff_eq] at hword
  have hkind : kind w.toList = .keyword := hword.1
  exact ⟨⟨.word, hm⟩, by simp [hkind], by simp [hkind]⟩

theorem textSymbols_word (hm : endMode w.toList = some .word)
    (hw : symbol (token w.toList) = .keyword word) (hs : separates s = true) :
    textSymbols (w.toList ++ s) = .keyword word :: textSymbols s := by
  rw [textSymbols, (piece_of_word hm hw).solid_append hs, List.map_cons, hw, textSymbols]

theorem textSymbols_space_word (hm : endMode w.toList = some .word)
    (hw : symbol (token w.toList) = .keyword word) (hs : separates s = true) :
    textSymbols (' ' :: (w.toList ++ s)) = .keyword word :: textSymbols s := by
  rw [textSymbols, (piece_of_word hm hw).solid_space, ← textSymbols, textSymbols_word hm hw hs]

theorem textSymbols_kept (h : Kept t) (hs : separates s = true) :
    textSymbols (t.text.toList ++ s) = .kept t.unplaced :: textSymbols s := by
  rw [textSymbols, h.stable.solid_append hs, List.map_cons, symbol_unplaced h.symbol_eq,
    textSymbols]

theorem textSymbols_space_kept (h : Kept t) (hs : separates s = true) :
    textSymbols (' ' :: (t.text.toList ++ s)) = .kept t.unplaced :: textSymbols s := by
  rw [textSymbols, h.stable.piece.solid_space, ← textSymbols, textSymbols_kept h hs]

theorem textSymbols_space_name_dot (h : Kept t) (hk : t.kind = .identifier) :
    textSymbols (' ' :: (t.text.toList ++ '.' :: s)) =
      .kept t.unplaced :: .dot :: textSymbols s := by
  rw [textSymbols, h.stable.piece.solid_space, h.stable.solid_dot hk, List.map_cons,
    List.map_cons, symbol_unplaced h.symbol_eq]
  rfl

theorem textSymbols_mark {c : Char} {x : Symbol} (hc : isPunctuation c = true)
    (hk : kind [c] ≠ .whitespace) (hx : symbol (token [c]) = x) :
    textSymbols (c :: s) = x :: textSymbols s := by
  rw [textSymbols, solid_punctuation hc hk, List.map_cons, hx, textSymbols]

theorem textSymbols_space_openBracket :
    textSymbols (' ' :: '(' :: s) = .openBracket :: textSymbols s := by
  have hspace : solid (' ' :: '(' :: s) = solid ('(' :: s) := solid_space rfl
  rw [textSymbols, hspace]
  exact textSymbols_mark rfl (by decide) rfl

theorem textSymbols_closeBracket :
    textSymbols (')' :: s) = .closeBracket :: textSymbols s :=
  textSymbols_mark rfl (by decide) rfl

end Pieces

theorem joined_toList (separator t : String) (ts : List String) :
    (joined separator (t :: ts)).toList =
      t.toList ++ ts.flatMap fun u => separator.toList ++ u.toList := by
  induction ts generalizing t with
  | nil => simp [joined]
  | cons u us ih => simp [joined, String.toList_append, ih]

theorem joined_commas (t : String) (ts : List String) :
    (joined ", " (t :: ts)).toList = t.toList ++ ts.flatMap fun u => ',' :: ' ' :: u.toList :=
  joined_toList ", " t ts

theorem joined_ands (t : String) (ts : List String) :
    (joined " AND " (t :: ts)).toList =
      t.toList ++ ts.flatMap fun u => ' ' :: ("AND".toList ++ ' ' :: u.toList) :=
  joined_toList " AND " t ts

/-- The members of a list behind the first, up to the bracket that closes it. -/
theorem textSymbols_further (ts : List Token) (h : ∀ t ∈ ts, Kept t) (s : List Char) :
    separates ((ts.flatMap fun t => ',' :: ' ' :: t.text.toList) ++ ')' :: s) = true ∧
    textSymbols ((ts.flatMap fun t => ',' :: ' ' :: t.text.toList) ++ ')' :: s) =
      furtherSymbols (ts.map Token.unplaced) ++ .closeBracket :: textSymbols s := by
  induction ts with
  | nil => exact ⟨rfl, textSymbols_closeBracket⟩
  | cons t ts ih =>
    obtain ⟨hs, hts⟩ := ih fun u hu => h u (List.mem_cons_of_mem t hu)
    have hcons : ((t :: ts).flatMap fun t => ',' :: ' ' :: t.text.toList) ++ ')' :: s =
        ',' :: ' ' :: (t.text.toList ++
          ((ts.flatMap fun t => ',' :: ' ' :: t.text.toList) ++ ')' :: s)) := by
      simp
    have hcomma : symbol (token [',']) = .comma := rfl
    refine ⟨rfl, ?_⟩
    rw [hcons, textSymbols_mark rfl (by decide) hcomma,
      textSymbols_space_kept (h t List.mem_cons_self) hs, hts]
    rfl

theorem textSymbols_listed (t : Token) (ts : List Token) (h : ∀ u ∈ t :: ts, Kept u)
    (s : List Char) :
    textSymbols (' ' :: '(' :: ((joined ", " ((t :: ts).map Token.text)).toList ++ ')' :: s)) =
      .openBracket :: .kept t.unplaced :: furtherSymbols (ts.map Token.unplaced) ++
        .closeBracket :: textSymbols s := by
  obtain ⟨hs, hts⟩ := textSymbols_further ts (fun u hu => h u (List.mem_cons_of_mem t hu)) s
  rw [textSymbols_space_openBracket, List.map_cons, joined_commas, List.flatMap_map,
    List.append_assoc, textSymbols_kept (h t List.mem_cons_self) hs, hts]
  rfl

section Options

variable {s : List Char}

theorem textSymbols_word_kept {w word : String} {t : Token} (hm : endMode w.toList = some .word)
    (hw : symbol (token w.toList) = .keyword word) (h : Kept t) (hs : separates s = true) :
    textSymbols (' ' :: (w.toList ++ ' ' :: (t.text.toList ++ s))) =
      .keyword word :: .kept t.unplaced :: textSymbols s := by
  rw [textSymbols_space_word hm hw rfl, textSymbols_space_kept h hs]

def UsingName.capitals : UsingName → String
  | .ttl => "TTL"
  | .timestamp => "TIMESTAMP"

def Setting.text (x : Setting) : String :=
  x.name.capitals ++ " " ++ x.value.text

def Setting.unplaced (x : Setting) : Setting :=
  ⟨x.name, x.value.unplaced, x.kind_eq⟩

theorem textSymbols_setting (x : Setting) (h : Kept x.value) (hs : separates s = true) :
    textSymbols (' ' :: (x.text.toList ++ s)) = x.unplaced.symbols ++ textSymbols s := by
  have hmode : endMode x.name.capitals.toList = some .word := by cases x.name <;> rfl
  have hword : symbol (token x.name.capitals.toList) = .keyword x.name.word := by
    cases x.name <;> rfl
  have htext : x.text.toList ++ s =
      x.name.capitals.toList ++ ' ' :: (x.value.text.toList ++ s) := by
    rw [Setting.text, String.toList_append, String.toList_append, List.append_assoc,
      List.append_assoc]
    rfl
  rw [htext, textSymbols_word_kept hmode hword h hs]
  rfl

theorem textSymbols_furtherSettings (xs : List Setting) (h : ∀ x ∈ xs, Kept x.value)
    (hs : separates s = true) :
    separates ((xs.flatMap fun x => ' ' :: ("AND".toList ++ ' ' :: x.text.toList)) ++ s) = true ∧
    textSymbols ((xs.flatMap fun x => ' ' :: ("AND".toList ++ ' ' :: x.text.toList)) ++ s) =
      Clauses.furtherSettings (xs.map Setting.unplaced) ++ textSymbols s := by
  induction xs with
  | nil => exact ⟨hs, rfl⟩
  | cons x xs ih =>
    obtain ⟨hsep, hxs⟩ := ih fun y hy => h y (List.mem_cons_of_mem x hy)
    have hcons : ((x :: xs).flatMap fun x => ' ' :: ("AND".toList ++ ' ' :: x.text.toList)) ++ s =
        ' ' :: ("AND".toList ++ ' ' :: (x.text.toList ++
          ((xs.flatMap fun x => ' ' :: ("AND".toList ++ ' ' :: x.text.toList)) ++ s))) := by
      simp only [List.flatMap_cons, List.append_assoc, List.cons_append]
    have hword : symbol (token "AND".toList) = .keyword "and" := rfl
    refine ⟨rfl, ?_⟩
    rw [hcons, textSymbols_space_word rfl hword rfl,
      textSymbols_setting x (h x List.mem_cons_self) hsep, hxs, List.map_cons,
      Clauses.furtherSettings, Clauses.furtherSettings, List.flatMap_cons, List.append_assoc]
    rfl

theorem textSymbols_settings (x : Setting) (xs : List Setting) (h : ∀ y ∈ x :: xs, Kept y.value)
    (hs : separates s = true) :
    textSymbols ((" USING " ++ joined " AND " ((x :: xs).map Setting.text)).toList ++ s) =
      Clauses.settingSymbols ((x :: xs).map Setting.unplaced) ++ textSymbols s := by
  have hfurther : ∀ y ∈ xs, Kept y.value := fun y hy => h y (List.mem_cons_of_mem x hy)
  obtain ⟨hsep, hxs⟩ := textSymbols_furtherSettings xs hfurther hs
  have htext : (" USING " ++ joined " AND " ((x :: xs).map Setting.text)).toList ++ s =
      ' ' :: ("USING".toList ++ ' ' :: (x.text.toList ++
        ((xs.flatMap fun x => ' ' :: ("AND".toList ++ ' ' :: x.text.toList)) ++ s))) := by
    rw [String.toList_append, List.map_cons, joined_ands, List.flatMap_map, List.append_assoc,
      List.append_assoc]
    rfl
  have hword : symbol (token "USING".toList) = .keyword "using" := rfl
  rw [htext, textSymbols_space_word rfl hword rfl,
    textSymbols_setting x (h x List.mem_cons_self) hsep, hxs]
  simp [Clauses.settingSymbols]

end Options

end CqlConsole.Insert
