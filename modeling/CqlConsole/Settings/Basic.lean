import CqlConsole.Error
import CqlConsole.Files.Disk
import CqlConsole.Render.Output
import CqlConsole.Settings.Level

/-!
# Settings

How the console shows statements, keeps its history, writes its log, and where
the schema comes from. Settings are valid if the history has room, and no path
that will be used is empty.
-/

set_option autoImplicit false

namespace CqlConsole.Settings

structure Display where
  format : OutputFormat := .table
  colours : Bool := true
  highlighting : Bool := true
  deriving DecidableEq, Repr

structure History where
  maxSize : Nat := 1000
  filePath : String
  persist : Bool := true
  deriving DecidableEq, Repr

structure Logging where
  level : Level := .warn
  timestamps : Bool := true
  deriving DecidableEq, Repr

end CqlConsole.Settings

namespace CqlConsole

structure Settings where
  display : Settings.Display := {}
  history : Settings.History
  logging : Settings.Logging := {}
  schemaPath : Option String := none
  deriving DecidableEq, Repr

namespace Settings

def historyPath (home : String) : String :=
  Files.pathIn home ".cqlsh_history"

def defaultPath (home : String) : String :=
  Files.pathIn (Files.pathIn home ".cqlsh") "config.toml"

def defaults (home : String) : Settings where
  history := { filePath := historyPath home }

def validate (s : Settings) : Except SettingsError Unit :=
  if s.history.maxSize = 0 then .error (.invalidValue "history.max_size" "0")
  else if s.history.persist ∧ s.history.filePath = "" then
    .error (.invalidValue "history.file_path" "")
  else if s.schemaPath = some "" then .error (.invalidValue "schema.path" "")
  else .ok ()

end Settings

end CqlConsole
