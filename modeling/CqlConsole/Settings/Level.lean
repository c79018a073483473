/-!
# Levels of the log

Each line of the log has a level. A log shows the lines of its own level and of
the more severe ones.
-/

set_option autoImplicit false

namespace CqlConsole.Settings

inductive Level where
  | error
  | warn
  | info
  | debug
  | trace
  deriving DecidableEq, Repr

namespace Level

def name : Level → String
  | error => "error"
  | warn => "warn"
  | info => "info"
  | debug => "debug"
  | trace => "trace"

def label : Level → String
  | error => "ERROR"
  | warn => "WARN"
  | info => "INFO"
  | debug => "DEBUG"
  | trace => "TRACE"

def all : List Level := [error, warn, info, debug, trace]

def ofName? (name : String) : Option Level :=
  all.find? fun l => l.name == name

def detail : Level → Nat
  | error => 0
  | warn => 1
  | info => 2
  | debug => 3
  | trace => 4

def shows (log line : Level) : Bool :=
  line.detail ≤ log.detail

theorem ofName?_name (l : Level) : ofName? l.name = some l := by
  cases l <;> decide

end Level

end CqlConsole.Settings
