import CqlConsole.Token.Basic

/-!
# The states of an INSERT statement

A deterministic machine reads the tokens after the first keyword. In a state,
a token is taken, handed on to another state, accepted as the end, or refused;
taking and handing on name a change to the statement that is being built.
A token is handed on at most once, because the states that receive one never
hand it on themselves.
-/

set_option autoImplicit false

namespace CqlConsole.Insert

inductive State where
  | into
  | tableName
  | maybeDot
  | table
  | maybeJson
  | jsonKeyword
  | jsonString
  | columnsOpen
  | firstColumn
  | moreColumns
  | nextColumn
  | columnsClose
  | valuesKeyword
  | valuesOpen
  | firstValue
  | moreValues
  | nextValue
  | valuesClose
  | clauses
  | ifKeyword
  | notKeyword
  | existsKeyword
  | usingKeyword
  | usingOption
  | usingValue
  | moreUsing
  deriving DecidableEq, Repr

inductive Effect where
  | none
  /-- A name whose role the next token decides. -/
  | pending
  | keyspaceFromPending
  | tableFromPending
  | setTable
  | pushColumn
  | pushValue
  | setJson
  | jsonPayload
  | ifNotExists
  | usingOption
  | usingValue
  deriving DecidableEq, Repr

inductive Transition where
  | advance (next : State) (effect : Effect)
  | handOn (next : State) (effect : Effect)
  | finish
  | stuck
  deriving DecidableEq, Repr

def isTerm (t : Token) : Bool :=
  t.kind.isConstant || t.kind == .questionMark

namespace State

def isAccepting : State → Bool
  | clauses | usingKeyword | moreUsing => true
  | _ => false

def expected : State → String
  | into => "INTO"
  | tableName | table => "table name"
  | maybeDot => "'.', JSON or '('"
  | maybeJson => "JSON or '('"
  | jsonKeyword => "JSON"
  | jsonString => "JSON string"
  | columnsOpen | valuesOpen => "'('"
  | firstColumn | nextColumn => "column name"
  | moreColumns | moreValues => "',' or ')'"
  | columnsClose | valuesClose => "')'"
  | valuesKeyword => "VALUES"
  | firstValue | nextValue => "value"
  | clauses => "IF, USING or ';'"
  | ifKeyword => "IF"
  | notKeyword => "NOT"
  | existsKeyword => "EXISTS"
  | usingKeyword => "USING or ';'"
  | usingOption => "TTL or TIMESTAMP"
  | usingValue => "integer or '?'"
  | moreUsing => "AND or ';'"

def label : State → String
  | into => "Into"
  | tableName => "TableName"
  | maybeDot => "MaybeDot"
  | table => "Table"
  | maybeJson => "MaybeJson"
  | jsonKeyword => "JsonKeyword"
  | jsonString => "JsonString"
  | columnsOpen => "NamelistOpen"
  | firstColumn => "NameList"
  | moreColumns => "MoreColumns"
  | nextColumn => "Column"
  | columnsClose => "NamelistClose"
  | valuesKeyword => "ValuesKeyword"
  | valuesOpen => "ValuesListOpen"
  | firstValue => "ValuesList"
  | moreValues => "MoreValues"
  | nextValue => "Value"
  | valuesClose => "ValuesListClose"
  | clauses => "IfNotUsing"
  | ifKeyword => "IfNotExists"
  | notKeyword => "NotKeyword"
  | existsKeyword => "ExistsKeyword"
  | usingKeyword => "Using"
  | usingOption => "UsingOption"
  | usingValue => "UsingValue"
  | moreUsing => "MoreUsing"

def all : List State :=
  [into, tableName, maybeDot, table, maybeJson, jsonKeyword, jsonString, columnsOpen,
    firstColumn, moreColumns, nextColumn, columnsClose, valuesKeyword, valuesOpen, firstValue,
    moreValues, nextValue, valuesClose, clauses, ifKeyword, notKeyword, existsKeyword,
    usingKeyword, usingOption, usingValue, moreUsing]

def ofLabel? (name : String) : Option State :=
  all.find? fun s => s.label == name

def finishOn (s : State) (t : Token) : Transition :=
  if t.kind = .semicolon ∧ s.isAccepting then .finish else .stuck

def takeIf (test : Bool) (next : State) (effect : Effect) : Transition :=
  if test then .advance next effect else .stuck

def react (s : State) (t : Token) : Transition :=
  match s with
  | into => takeIf (t.isKeyword "into") tableName .none
  | tableName => takeIf (t.kind == .identifier) maybeDot .pending
  | maybeDot =>
    match t.kind with
    | .dot => .advance table .keyspaceFromPending
    | .keyword => .handOn jsonKeyword .tableFromPending
    | .bracket => .handOn columnsOpen .tableFromPending
    | _ => .stuck
  | table => takeIf (t.kind == .identifier) maybeJson .setTable
  | maybeJson =>
    match t.kind with
    | .keyword => .handOn jsonKeyword .none
    | .bracket => .handOn columnsOpen .none
    | _ => .stuck
  | jsonKeyword => takeIf (t.isKeyword "json") jsonString .setJson
  | jsonString => takeIf (t.kind == .string) clauses .jsonPayload
  | columnsOpen => takeIf t.isOpenBracket firstColumn .none
  | firstColumn | nextColumn => takeIf (t.kind == .identifier) moreColumns .pushColumn
  | moreColumns =>
    match t.kind with
    | .comma => .advance nextColumn .none
    | .bracket => .handOn columnsClose .none
    | _ => .stuck
  | columnsClose => takeIf t.isCloseBracket valuesKeyword .none
  | valuesKeyword => takeIf (t.isKeyword "values") valuesOpen .none
  | valuesOpen => takeIf t.isOpenBracket firstValue .none
  | firstValue | nextValue => takeIf (isTerm t) moreValues .pushValue
  | moreValues =>
    match t.kind with
    | .comma => .advance nextValue .none
    | .bracket => .handOn valuesClose .none
    | _ => .stuck
  | valuesClose => takeIf t.isCloseBracket clauses .none
  | clauses =>
    if t.isKeyword "if" then .handOn ifKeyword .none
    else if t.isKeyword "using" then .handOn usingKeyword .none
    else clauses.finishOn t
  | ifKeyword => takeIf (t.isKeyword "if") notKeyword .none
  | notKeyword => takeIf (t.isKeyword "not") existsKeyword .none
  | existsKeyword => takeIf (t.isKeyword "exists") usingKeyword .ifNotExists
  | usingKeyword =>
    if t.isKeyword "using" then .advance usingOption .none else usingKeyword.finishOn t
  | usingOption =>
    takeIf (t.isKeyword "ttl" || t.isKeyword "timestamp") usingValue .usingOption
  | usingValue =>
    takeIf (t.kind == .integer || t.kind == .questionMark) moreUsing .usingValue
  | moreUsing =>
    if t.isKeyword "and" then .advance usingOption .none else moreUsing.finishOn t

def path (s : State) (t : Token) : List (State × Transition) :=
  match s.react t with
  | .handOn next effect => [(s, .handOn next effect), (next, next.react t)]
  | transition => [(s, transition)]

end State

namespace Effect

def label : Effect → String
  | none => "None"
  | pending => "Pending"
  | keyspaceFromPending => "KeyspaceFromPending"
  | tableFromPending => "TableFromPending"
  | setTable => "SetTable"
  | pushColumn => "PushColumn"
  | pushValue => "PushValue"
  | setJson => "SetJson"
  | jsonPayload => "JsonPayload"
  | ifNotExists => "IfNotExists"
  | usingOption => "UsingOption"
  | usingValue => "UsingValue"

end Effect

def Transition.display : Transition → String
  | advance next effect => "Advance(" ++ next.label ++ ", " ++ effect.label ++ ")"
  | handOn next effect => "Reprocess(" ++ next.label ++ ", " ++ effect.label ++ ")"
  | finish => "Finish"
  | stuck => "Stuck"

end CqlConsole.Insert
