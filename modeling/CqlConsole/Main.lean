import CqlConsole.Cli.Transcript
import CqlConsole.Cli.Usage
import CqlConsole.Shell.Prompt
import CqlConsole.Shell.Submission

/-!
# The program

Reads the files that a run needs, carries the run out, writes what it reports,
and then reads statements from the input if the console is interactive.
-/

set_option autoImplicit false

namespace CqlConsole.Program

open CqlConsole.Files CqlConsole.Settings CqlConsole.Cli

def reason : IO.Error → String
  | .noFileOrDirectory _ _ _ => Fault.missing.reason
  | .inappropriateType _ _ _ => Fault.isFolder.reason
  | e => toString e

def readText (path : String) : IO (Except String String) :=
  try
    return .ok (← IO.FS.readFile path)
  catch e => return .error (reason e)

def isPresent (path : String) : IO Bool :=
  try
    let _ ← IO.FS.realPath path
    return true
  catch _ => return false

def parentOf (path : String) : String :=
  Text.joined "/" ((Text.pieces '/' path.toList).dropLast.map String.ofList)

def tryOpen (path : String) : IO (Option String) :=
  try
    if parentOf path ≠ "" then IO.FS.createDirAll (parentOf path)
    let _ ← IO.FS.Handle.mk path .append
    return none
  catch e => return some (reason e)

def observe (paths : List String) : IO Disk := do
  let texts ← paths.mapM fun path => return (path, ← readText path)
  let present ← paths.filterM isPresent
  return {
    read := fun path => (texts.lookup path).getD (.error Fault.missing.reason)
    holds := fun path => path ∈ present
    obstacle? := fun _ => none }

def historyFile? (a : Arguments) (s : Settings) : Option String :=
  if a.command.isNone && s.history.persist then some s.history.filePath else none

def observeFor (home : String) (a : Arguments) : IO Disk := do
  let path := settingsPath home a.options
  let disk ← observe [path]
  match (effective .standard home disk a.options).result with
  | .error _ => return disk
  | .ok s =>
    let disk ← observe (path :: s.schemaPath.toList)
    match historyFile? a s with
    | none => return disk
    | some file =>
      let obstacle ← tryOpen file
      return { disk with obstacle? := fun _ => obstacle }

def withoutTime (o : Outcome) : Outcome :=
  { o with settings := o.settings.map fun s =>
      { s with logging := { s.logging with timestamps := false } } }

def historyLine (input : String) : String :=
  Text.joined "<\\n>" ((Text.lines input.toList).map String.ofList) ++ "\n"

partial def readInput (typed : String) : IO (Option String) := do
  IO.print (if typed.isEmpty then Shell.prompt none ++ Shell.modeIndicator else Shell.continuation)
  (← IO.getStdout).flush
  let line ← (← IO.getStdin).getLine
  if line.isEmpty then return none
  let input := typed ++ line
  if Shell.isReady input then return some (String.ofList (Text.trim input.toList))
  else readInput input

partial def converse (s : Settings) : IO Unit := do
  match ← readInput "" with
  | none => return
  | some input =>
    if s.history.persist && !input.isEmpty then
      (← IO.FS.Handle.mk s.history.filePath .append).putStr (historyLine input)
    match Shell.answer s.display.format s.display.colours input with
    | .ok .leave => return
    | .ok .nothing => converse s
    | .ok (.output text) =>
      IO.println text
      converse s
    | .error e =>
      IO.eprintln e.message
      converse s

def carryOutRun (home : String) (a : Arguments) : IO UInt32 := do
  let disk ← observeFor home a
  let o := run home disk a
  IO.eprint (withoutTime o).diagnostics
  IO.print (o.output HostShell.script)
  match o.report.result, o.settings with
  | .ok .interactive, some s =>
    converse s
    if !a.options.quiet then IO.println "Goodbye!"
  | _, _ => pure ()
  return o.exitCode.toUInt32

end CqlConsole.Program

def main (words : List String) : IO UInt32 := do
  let home := (← IO.getEnv "HOME").getD "."
  match CqlConsole.Cli.Arguments.read words with
  | .ok a => CqlConsole.Program.carryOutRun home a
  | .error refusal =>
    IO.print refusal.output
    IO.eprint refusal.message
    return refusal.exitCode.toUInt32
