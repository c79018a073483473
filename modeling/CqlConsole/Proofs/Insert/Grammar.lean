import CqlConsole.Insert.Walk
import Mathlib.Tactic.SplitIfs

/-!
# The grammar of INSERT

A sentence is what may follow the first keyword of a statement:

    INTO name ['.' name]
      ( '(' name (',' name)* ')' VALUES '(' term (',' term)* ')' | JSON string )
      [IF NOT EXISTS] [USING option (AND option)*] [';']

A tree of the grammar holds the tokens that the statement keeps. Of all other
tokens it only matters which word or mark they are, so a tree spells a list of
symbols, and a list of tokens is a sentence if its symbols are those of a tree.
-/

set_option autoImplicit false

namespace CqlConsole.Insert

/-- A token as the grammar sees it. -/
inductive Symbol where
  | keyword (word : String)
  | openBracket
  | closeBracket
  | comma
  | dot
  | semicolon
  | kept (token : Token)
  deriving DecidableEq, Repr

def symbol (t : Token) : Symbol :=
  match t.kind with
  | .keyword => .keyword t.text
  | .bracket =>
    if t.text = "(" then .openBracket else if t.text = ")" then .closeBracket else .kept t
  | .comma => .comma
  | .dot => .dot
  | .semicolon => .semicolon
  | _ => .kept t

def termKinds : List TokenKind :=
  [.string, .integer, .float, .uuid, .boolean, .blob, .questionMark]

abbrev Name := { t : Token // t.kind = .identifier }

abbrev Term := { t : Token // t.kind ∈ termKinds }

abbrev JsonText := { t : Token // t.kind = .string }

def UsingName.word : UsingName → String
  | .ttl => "ttl"
  | .timestamp => "timestamp"

structure Setting where
  name : UsingName
  value : Token
  kind_eq : value.kind = .integer ∨ value.kind = .questionMark

def Setting.symbols (x : Setting) : List Symbol :=
  [.keyword x.name.word, .kept x.value]

def furtherSymbols (ts : List Token) : List Symbol :=
  ts.flatMap fun t => [.comma, .kept t]

inductive Row where
  | listed (column : Name) (columns : List Name) (value : Term) (values : List Term)
  | json (text : JsonText)

namespace Row

def symbols : Row → List Symbol
  | listed c cs v vs =>
    [.openBracket, .kept c] ++ furtherSymbols (cs.map Subtype.val) ++
      [.closeBracket, .keyword "values", .openBracket, .kept v] ++
      furtherSymbols (vs.map Subtype.val) ++ [.closeBracket]
  | json p => [.keyword "json", .kept p]

def columns : Row → List String
  | listed c cs _ _ => (c :: cs).map fun t => t.val.text
  | json _ => []

def values : Row → List Token
  | listed _ _ v vs => (v :: vs).map Subtype.val
  | json _ => []

def isJson : Row → Bool
  | listed _ _ _ _ => false
  | json _ => true

def payload : Row → Option String
  | listed _ _ _ _ => none
  | json p => some p.val.text

end Row

structure Clauses where
  ifNotExists : Bool
  settings : List Setting
  terminated : Bool

namespace Clauses

def conditionSymbols (ifNotExists : Bool) : List Symbol :=
  if ifNotExists then [.keyword "if", .keyword "not", .keyword "exists"] else []

def furtherSettings (xs : List Setting) : List Symbol :=
  xs.flatMap fun x => .keyword "and" :: x.symbols

def settingSymbols : List Setting → List Symbol
  | [] => []
  | x :: xs => .keyword "using" :: x.symbols ++ furtherSettings xs

def endSymbols (terminated : Bool) : List Symbol :=
  if terminated then [.semicolon] else []

def symbols (c : Clauses) : List Symbol :=
  conditionSymbols c.ifNotExists ++ (settingSymbols c.settings ++ endSymbols c.terminated)

end Clauses

def lastValue (name : UsingName) (xs : List Setting) : Option Token :=
  (xs.filter fun x => x.name = name).getLast?.map Setting.value

/-- A derivation of the grammar. -/
structure Tree where
  keyspace : Option Name
  table : Name
  row : Row
  clauses : Clauses

namespace Tree

def targetSymbols : Option Name → Name → List Symbol
  | none, t => [.kept t]
  | some k, t => [.kept k, .dot, .kept t]

def symbols (d : Tree) : List Symbol :=
  .keyword "into" :: targetSymbols d.keyspace d.table ++ (d.row.symbols ++ d.clauses.symbols)

def statement (d : Tree) : Statement where
  keyspace := d.keyspace.map fun t => t.val.text
  table := d.table.val.text
  columns := d.row.columns
  values := d.row.values
  json := d.row.isJson
  payload := d.row.payload
  ifNotExists := d.clauses.ifNotExists
  ttl := lastValue .ttl d.clauses.settings
  timestamp := lastValue .timestamp d.clauses.settings

end Tree

/-- The tokens are those of a derivation. -/
def Sentence (ts : List Token) : Prop :=
  ∃ d : Tree, ts.map symbol = d.symbols

/-- The tokens are the start of a sentence. -/
def Viable (ts : List Token) : Prop :=
  ∃ us, Sentence (ts ++ us)

theorem symbol_keyword {t : Token} {word : String} :
    symbol t = .keyword word ↔ t.isKeyword word = true := by
  obtain ⟨k, text, i, j⟩ := t
  cases k <;> simp [symbol, Token.isKeyword, Token.is]
  split_ifs <;> simp

theorem symbol_openBracket {t : Token} : symbol t = .openBracket ↔ t.isOpenBracket = true := by
  obtain ⟨k, text, i, j⟩ := t
  cases k <;> simp [symbol, Token.isOpenBracket, Token.is]
  split_ifs <;> simp_all

theorem symbol_closeBracket {t : Token} :
    symbol t = .closeBracket ↔ t.isCloseBracket = true := by
  obtain ⟨k, text, i, j⟩ := t
  cases k <;> simp [symbol, Token.isCloseBracket, Token.is]
  split_ifs <;> simp_all

theorem symbol_comma {t : Token} : symbol t = .comma ↔ t.kind = .comma := by
  obtain ⟨k, text, i, j⟩ := t
  cases k <;> simp [symbol]
  split_ifs <;> simp

theorem symbol_dot {t : Token} : symbol t = .dot ↔ t.kind = .dot := by
  obtain ⟨k, text, i, j⟩ := t
  cases k <;> simp [symbol]
  split_ifs <;> simp

theorem symbol_semicolon {t : Token} : symbol t = .semicolon ↔ t.kind = .semicolon := by
  obtain ⟨k, text, i, j⟩ := t
  cases k <;> simp [symbol]
  split_ifs <;> simp

theorem eq_of_symbol_kept {t u : Token} (h : symbol t = .kept u) : t = u := by
  unfold symbol at h
  split at h
  · cases h
  · split_ifs at h
    exact Symbol.kept.inj h
  · cases h
  · cases h
  · cases h
  · exact Symbol.kept.inj h

theorem symbol_name (t : Name) : symbol t.val = .kept t.val := by
  simp [symbol, t.property]

theorem symbol_term (t : Term) : symbol t.val = .kept t.val := by
  obtain ⟨⟨k, text, i, j⟩, h⟩ := t
  cases k <;> simp [termKinds] at h <;> rfl

theorem symbol_jsonText (t : JsonText) : symbol t.val = .kept t.val := by
  simp [symbol, t.property]

theorem symbol_value (x : Setting) : symbol x.value = .kept x.value := by
  rcases x.kind_eq with h | h <;> simp [symbol, h]

end CqlConsole.Insert
