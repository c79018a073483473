import CqlConsole.Text.Shown

/-!
# Tokens

A token is a classified piece of the input with its text and the bytes it
covers. Keywords carry their text in lower case; every other token carries the
piece as it was typed. White space is a token too, and the list of tokens of an
input ends with one that marks its end.
-/

set_option autoImplicit false

namespace CqlConsole

inductive TokenKind where
  | endOfInput
  | error
  | keyword
  | whitespace
  | identifier
  | star
  | string
  | integer
  | float
  | uuid
  | boolean
  | blob
  | comma
  | bracket
  | semicolon
  | dot
  | questionMark
  | colon
  deriving DecidableEq, Repr

namespace TokenKind

def label : TokenKind → String
  | endOfInput => "<eof>"
  | error => "ERROR"
  | keyword => "KEYWORD"
  | whitespace => "WS"
  | identifier => "IDENTIFIER"
  | star => "STAR"
  | string => "STRING"
  | integer => "INTEGER"
  | float => "FLOAT"
  | uuid => "UUID"
  | boolean => "BOOLEAN"
  | blob => "BLOB"
  | comma => "COMMA"
  | bracket => "BRACKET"
  | semicolon => "SEMICOLON"
  | dot => "DOT"
  | questionMark => "QMARK"
  | colon => "COLON"

def all : List TokenKind :=
  [endOfInput, error, keyword, whitespace, identifier, star, string, integer, float, uuid,
    boolean, blob, comma, bracket, semicolon, dot, questionMark, colon]

def ofLabel? (name : String) : Option TokenKind :=
  all.find? fun k => k.label == name

def isConstant : TokenKind → Bool
  | string | integer | float | uuid | boolean | blob => true
  | _ => false

end TokenKind

structure Token where
  kind : TokenKind
  text : String
  start : Nat
  stop : Nat
  deriving DecidableEq, Repr

namespace Token

def endOfInput (size : Nat) : Token :=
  ⟨.endOfInput, "", size, size⟩

def is (t : Token) (kind : TokenKind) (text : String) : Bool :=
  t.kind == kind && t.text == text

def isKeyword (t : Token) (word : String) : Bool :=
  t.is .keyword word

def isOpenBracket (t : Token) : Bool :=
  t.is .bracket "("

def isCloseBracket (t : Token) : Bool :=
  t.is .bracket ")"

def display (t : Token) : String :=
  "[" ++ t.kind.label ++ " " ++ Text.shown t.text ++ "]"

end Token

def keywords : List String := [
  "add", "allow", "alter", "and", "apply", "asc", "authorize", "batch", "begin", "by",
  "columnfamily", "create", "default", "delete", "desc", "describe", "drop", "entries",
  "execute", "exists", "from", "full", "grant", "if", "in", "index", "infinity", "insert",
  "into", "json", "keyspace", "limit", "modify", "nan", "norecursive", "not", "null", "of",
  "on", "or", "order", "primary", "rename", "replace", "revoke", "schema", "select", "set",
  "table", "timestamp", "to", "token", "truncate", "ttl", "unlogged", "unset", "update",
  "use", "using", "values", "view", "where", "with"]

end CqlConsole
