/-!
# Errors

What can go wrong, one constructor for each cause, and the text that reports it.
An error of the console wraps an error of one of its parts and puts the name of
the part in front; syntax errors and free texts stand for themselves. Steps that
may fail, one after the other, give what the last of them gives or the first
error.
-/

set_option autoImplicit false

namespace CqlConsole

inductive SyntaxError where
  | empty
  | invalidToken (text : String)
  | unsupported (keyword : String)
  | unexpected (expected found : String)
  | incomplete (expected : String)
  deriving DecidableEq, Repr

def SyntaxError.message : SyntaxError → String
  | .empty => "Syntax error: empty statement"
  | .invalidToken text => "Syntax error: invalid token '" ++ text ++ "'"
  | .unsupported keyword => "Unsupported statement: " ++ keyword
  | .unexpected expected found => "Expected " ++ expected ++ ", found '" ++ found ++ "'"
  | .incomplete expected => "Incomplete statement: expected " ++ expected

inductive SchemaError where
  | unknownKeyspace (name : String)
  | unknownTable (keyspace table : String)
  | invalidSnapshot (reason : String)
  | invalidVersion (reason : String)
  deriving DecidableEq, Repr

def SchemaError.message : SchemaError → String
  | .unknownKeyspace name => "Unknown keyspace: " ++ name
  | .unknownTable keyspace table => "Unknown table: " ++ keyspace ++ "." ++ table
  | .invalidSnapshot reason => "Invalid schema snapshot: " ++ reason
  | .invalidVersion reason => "Invalid version string: " ++ reason

inductive SettingsError where
  | fileNotFound (path : String)
  | invalidFormat (reason : String)
  | invalidValue (field value : String)
  | other (text : String)
  deriving DecidableEq, Repr

def SettingsError.message : SettingsError → String
  | .fileNotFound path => "Config file not found: " ++ path
  | .invalidFormat reason => "Invalid config format: " ++ reason
  | .invalidValue field value => "Invalid value '" ++ value ++ "' for field '" ++ field ++ "'"
  | .other text => text

inductive ConsoleError where
  | statement (e : SyntaxError)
  | schema (e : SchemaError)
  | settings (e : SettingsError)
  | io (reason : String)
  | other (text : String)
  deriving DecidableEq, Repr

namespace ConsoleError

def message : ConsoleError → String
  | statement e => e.message
  | schema e => "Schema error: " ++ e.message
  | settings e => "Configuration error: " ++ e.message
  | io reason => "I/O error: " ++ reason
  | other text => text

def source? : ConsoleError → Option String
  | statement e => some e.message
  | schema e => some e.message
  | settings e => some e.message
  | io reason => some reason
  | other _ => none

end ConsoleError

section Steps

variable {ε α β : Type} {x : Except ε α} {f : α → Except ε β}

/-- Two steps give a value if the first one does, and the second one with the value of the first. -/
theorem bind_eq_ok {b : β} : x >>= f = .ok b ↔ ∃ a, x = .ok a ∧ f a = .ok b := by
  cases x <;> simp [bind, Except.bind]

theorem bind_eq_error {e : ε} :
    x >>= f = .error e ↔ x = .error e ∨ ∃ a, x = .ok a ∧ f a = .error e := by
  cases x <;> simp [bind, Except.bind]

end Steps

end CqlConsole
