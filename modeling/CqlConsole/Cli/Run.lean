import CqlConsole.Cli.Arguments
import CqlConsole.Cli.Effective
import CqlConsole.Completion.Walk
import CqlConsole.Schema.Document
import CqlConsole.Shell.Session

/-!
# Runs

A run carries out the command of a command line, or prepares the interactive
console: it loads the schema, greets, and opens the history.
-/

set_option autoImplicit false

namespace CqlConsole.Cli

open CqlConsole.Files CqlConsole.Number CqlConsole.Settings

inductive Ending where
  | handled
  | interactive
  deriving DecidableEq, Repr

def HostShell.ofName (name : String) : Except SettingsError HostShell :=
  let word := String.ofList (Text.lower name.toList)
  if word = "bash" then .ok .bash
  else if word = "zsh" then .ok .zsh
  else if word = "fish" then .ok .fish
  else if word = "powershell" ∨ word = "pwsh" then .ok .powershell
  else .error (.other ("Unsupported shell: " ++ name ++
    ". Supported shells: bash, zsh, fish, powershell"))

def loadSchema (disk : Disk) (s : Settings) : Report Schema.Snapshot :=
  match s.schemaPath with
  | none => pure {}
  | some path => do
    let snapshot ← Report.ofExcept .schema
      (Schema.Snapshot.ofFile .standard path (disk.read path))
    Report.write [.log .debug ("Loaded schema snapshot from " ++ path ++ " (" ++
      String.ofList (naturalText snapshot.keyspaces.length) ++ " keyspaces)")]
    pure snapshot

def showStatement (s : Settings) (statement : String) : Report Unit := do
  Report.write ((inspectSteps statement).steps.map fun step => .log .trace step.display)
  let text ← Report.ofExcept .statement
    (Shell.renderInput s.display.format s.display.colours statement)
  Report.write [.output text]

def showCompletions (disk : Disk) (s : Settings) (input : String) : Report Unit := do
  let snapshot ← loadSchema disk s
  let found := Completion.complete snapshot.catalog input
  Report.write (found.notes.map fun note => .log .debug note.display)
  Report.write (found.degraded.toList.map fun e => .warning ("Warning: " ++ e.message))
  Report.write (found.suffixes.map .output)

def settingsPath (home : String) (o : Options) : String :=
  o.settingsFile.getD (defaultPath home)

def verdict (home : String) (disk : Disk) (path : String) : String :=
  if disk.holds path then
    match Settings.ofFile .standard home disk path with
    | .error e => "❌ Failed to load configuration: " ++ (ConsoleError.settings e).message
    | .ok s =>
      match s.validate with
      | .ok _ => "✅ Configuration is valid"
      | .error e => "❌ Configuration validation failed: " ++ (ConsoleError.settings e).message
  else "❌ Configuration file does not exist"

def checkSettings (home : String) (disk : Disk) (path : String) : Report Unit :=
  Report.write [
    .output ("Validating configuration file: " ++ path),
    .output (verdict home disk path)]

def showSettings (path : String) (s : Settings) : Report Unit := do
  Report.write [
    .output ("Configuration file: " ++ path), .output "",
    .output "=== Effective Configuration ===", .output ""]
  let text ← Report.ofExcept .settings (encode .standard s)
  Report.write [.output text]

def carryOut (home : String) (disk : Disk) (o : Options) (s : Settings) : Command → Report Unit
  | .version => Report.write [.output ("cqlsh version " ++ release), .output "Rust version: 1.91"]
  | .completion name => do
    let shell ← Report.ofExcept .settings (HostShell.ofName name)
    Report.write [.script shell]
  | .settings shown checked => do
    if checked then checkSettings home disk (settingsPath home o)
    if shown then showSettings (settingsPath home o) s
  | .parse statement => showStatement s statement
  | .complete input => showCompletions disk s input

def openHistory (disk : Disk) (h : History) : Report Unit := do
  if h.persist then Report.write [.log .debug ("Using history file " ++ h.filePath)]
  if h.maxSize = Nat.pow 2 64 - 1 then
    Report.ofExcept .other (.error
      ("History error: error in Reedline history: " ++
        "History capacity too large to be addressed safely"))
  if h.persist then
    match disk.obstacle? h.filePath with
    | none => pure ()
    | some reason => Report.ofExcept .other (.error ("History error: I/O error: " ++ reason))

def prepare (disk : Disk) (o : Options) (s : Settings) : Report Unit := do
  let snapshot ← loadSchema disk s
  if !o.quiet then
    let banner ← Report.ofExcept .schema snapshot.cluster.banner
    Report.write [.output banner, .output "Use HELP for help."]
  openHistory disk s.history

structure Outcome where
  settings : Option Settings
  report : Report Ending

def run (home : String) (disk : Disk) (a : Arguments) : Outcome :=
  let loaded := effective .standard home disk a.options
  match loaded.result with
  | .error e => ⟨none, ⟨loaded.events, .error e⟩⟩
  | .ok s =>
    ⟨some s, do
      let s ← loaded
      match a.command with
      | some command =>
        carryOut home disk a.options s command
        pure .handled
      | none =>
        prepare disk a.options s
        pure .interactive⟩

end CqlConsole.Cli
