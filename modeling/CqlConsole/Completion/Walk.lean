import CqlConsole.Completion.Catalog
import CqlConsole.Completion.Rank
import CqlConsole.Number.Numeral
import CqlConsole.Statement
import CqlConsole.Trie

/-!
# Completion of a statement

The lexemes of the typed text are walked from place to place of the grammar of
INSERT. The walk stops where the text ends, or on a word that is still being
typed, and says what could follow there; it stops without an offer on a token
that does not fit. Names are completed from a catalog. At most one question to
the catalog decides what is offered, because a name that is followed by more
text is taken as it stands.
-/

set_option autoImplicit false

namespace CqlConsole.Completion

open CqlConsole.Text

inductive Note where
  | found (count : Nat) (noun : String)
  | failed (noun : String) (error : ConsoleError)
  | stopped (token : Token) (wanted : String)
  deriving DecidableEq, Repr

def Note.display : Note → String
  | found count noun =>
    "completion: " ++ String.ofList (Number.naturalText count) ++ " " ++ noun ++ " candidates"
  | failed noun error => "completion: " ++ noun ++ " lookup failed: " ++ error.message
  | stopped token wanted =>
    "completion: stopped at " ++ token.display ++ " while expecting " ++ wanted

structure Findings where
  offers : List String := []
  degraded : Option ConsoleError := none
  notes : List Note := []
  deriving DecidableEq, Repr

def Findings.after (notes : List Note) (f : Findings) : Findings :=
  { f with notes := notes ++ f.notes }

/-- Places in the grammar after the keyword `insert`. A gap is a place where a space is
offered but not required. -/
inductive Place where
  | gapBeforeInto
  | into
  | gapBeforeKeyspace
  | keyspace
  | dot
  | table
  | columnsOpen
  | column
  | afterColumn
  | gapBeforeColumn
  | gapBeforeValues
  | values
  | valuesOpen
  | done
  deriving DecidableEq, Repr

structure Names where
  keyspace : String := ""
  table : String := ""
  columns : List String := []
  deriving DecidableEq, Repr

inductive Demand where
  /-- A space may stand here; without one, the next place comes. -/
  | gap (next : Place)
  | word (word : String) (next : Place)
  | name (query : Query) (next : Place)
  | moreColumns
  | nothing
  deriving DecidableEq, Repr

def Place.demand (names : Names) : Place → Demand
  | gapBeforeInto => .gap into
  | into => .word "into" gapBeforeKeyspace
  | gapBeforeKeyspace => .gap keyspace
  | keyspace => .name .keyspaces dot
  | dot => .word "." table
  | table => .name (.tables names.keyspace) columnsOpen
  | columnsOpen => .word "(" column
  | column => .name (.columns names.keyspace names.table) afterColumn
  | afterColumn => .moreColumns
  | gapBeforeColumn => .gap column
  | gapBeforeValues => .gap values
  | values => .word "values" valuesOpen
  | valuesOpen => .word "(" done
  | done => .nothing

def Place.afterGap : Place → Place
  | gapBeforeInto => into
  | gapBeforeKeyspace => keyspace
  | gapBeforeColumn => column
  | gapBeforeValues => values
  | p => p

def Names.accept (names : Names) (query : Query) (name : String) : Names :=
  match query with
  | .keyspaces => { names with keyspace := name }
  | .tables _ => { names with table := name }
  | .columns _ _ => { names with columns := names.columns ++ [name] }

def candidates (catalog : Catalog) (names : Names) (query : Query) :
    Except ConsoleError (List String) :=
  match query with
  | .columns _ _ => (catalog query).map fun cs => cs.filter fun c => c ∉ names.columns
  | _ => catalog query

/-- The remainder of a keyword in the case of what was typed: in capitals if all letters
typed are. -/
def matchCase (typed rest : List Char) : List Char :=
  let letters := typed.filter Char.isAlpha
  if !letters.isEmpty && letters.all Char.isUpper then upper rest else rest

def isWord (l : Lexeme) : Bool :=
  l.kind == .identifier || l.kind == .keyword

inductive Move where
  | advance (next : Place) (names : Names) (notes : List Note)
  | finish (found : Findings)
  deriving DecidableEq, Repr

def refuse (l : Lexeme) (wanted : String) : Findings :=
  { notes := [.stopped l.token wanted] }

def degrade (query : Query) (e : ConsoleError) : Findings :=
  { degraded := some e, notes := [.failed query.noun e] }

def atEnd (catalog : Catalog) (names : Names) (p : Place) : Findings :=
  match p.demand names with
  | .gap _ => { offers := [" "] }
  | .word word _ => { offers := [word] }
  | .name query _ =>
    match candidates catalog names query with
    | .error e => degrade query e
    | .ok cs => { offers := cs, notes := [.found cs.length query.noun] }
  | .moreColumns => { offers := [",", ")"] }
  | .nothing => {}

def onWord (names : Names) (word : String) (next : Place) (l : Lexeme) (isLast : Bool) : Move :=
  let typed := lower l.source
  if typed = word.toList then .advance next names []
  else if isLast && typed.isPrefixOf word.toList then
    .finish { offers := [String.ofList (matchCase l.source (word.toList.drop typed.length))] }
  else .finish (refuse l word)

/-- A name: taken as it stands if more text follows, else completed from the catalog. A name
in full that is the start of no other is taken as well. -/
def onName (catalog : Catalog) (names : Names) (query : Query) (next : Place) (l : Lexeme)
    (isLast : Bool) : Move :=
  let typed := String.ofList l.source
  if !isWord l then .finish (refuse l query.noun)
  else if !isLast then .advance next (names.accept query typed) []
  else
    match candidates catalog names query with
    | .error e => .finish (degrade query e)
    | .ok cs =>
      let notes := [Note.found cs.length query.noun]
      let suffixes := (Trie.ofList cs).complete typed
      if suffixes = [""] then .advance next (names.accept query typed) notes
      else .finish { offers := suffixes, notes := notes }

def onMoreColumns (names : Names) (l : Lexeme) : Move :=
  match l.kind, l.source with
  | .comma, _ => .advance .gapBeforeColumn names []
  | .bracket, [')'] => .advance .gapBeforeValues names []
  | _, _ => .finish (refuse l "',' or ')'")

def Place.read (catalog : Catalog) (names : Names) (p : Place) (l : Lexeme) (isLast : Bool) :
    Move :=
  match p.demand names with
  | .gap _ => .finish {}
  | .word word next => onWord names word next l isLast
  | .name query next => onName catalog names query next l isLast
  | .moreColumns => onMoreColumns names l
  | .nothing => .finish {}

def walk (catalog : Catalog) : Place → Names → List Lexeme → Findings
  | p, names, [] => atEnd catalog names p
  | p, names, l :: ls =>
    if l.kind = .whitespace then walk catalog p.afterGap names ls
    else
      match p.afterGap.read catalog names l ls.isEmpty with
      | .advance next names notes => (walk catalog next names ls).after notes
      | .finish found => found

def onStatement (catalog : Catalog) (l : Lexeme) (ls : List Lexeme) : Findings :=
  if l.token.isKeyword "insert" then walk catalog .gapBeforeInto {} ls
  else if isWord l && ls.isEmpty then
    let rests := (Trie.ofList statementKeywords).complete (String.ofList (lower l.source))
    { offers := rests.map fun rest => String.ofList (matchCase l.source rest.toList) }
  else {}

def walkStatement (catalog : Catalog) : List Lexeme → Findings
  | [] => {}
  | l :: ls =>
    if l.kind = .whitespace then walkStatement catalog ls else onStatement catalog l ls

structure Completions where
  suffixes : List String
  degraded : Option ConsoleError
  notes : List Note
  deriving DecidableEq, Repr

def complete (catalog : Catalog) (input : String) : Completions :=
  let found := walkStatement catalog (Lexeme.scan input.toList)
  ⟨rankCandidates found.offers, found.degraded, found.notes⟩

end CqlConsole.Completion
