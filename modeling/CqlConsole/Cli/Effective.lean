import CqlConsole.Cli.Options
import CqlConsole.Cli.Report
import CqlConsole.Settings.File

/-!
# Effective settings

The settings of a run are those of the settings file, or the defaults if the
file is not valid, changed by the options of the command line.
-/

set_option autoImplicit false

namespace CqlConsole.Cli

open CqlConsole.Files CqlConsole.Settings CqlConsole.Toml

def Options.level? (o : Options) : Option Level :=
  if o.veryVerbose then some .trace
  else if o.verbose then some .debug
  else if o.quiet then some .error
  else none

def Options.format? (o : Options) : Option OutputFormat :=
  o.format.map fun name => (OutputFormat.read name).toOption.getD .table

def Options.apply (o : Options) (s : Settings) : Settings where
  display := {
    format := o.format?.getD s.display.format
    colours := !o.noColour && s.display.colours
    highlighting := !o.noColour && s.display.highlighting }
  history := { s.history with persist := !o.noHistory && s.history.persist }
  logging := { s.logging with level := o.level?.getD s.logging.level }
  schemaPath := o.schema.or s.schemaPath

def Options.warnings (o : Options) : List Event :=
  match o.format with
  | none => []
  | some name =>
    match OutputFormat.read name with
    | .ok _ => []
    | .error _ => [.warning ("Warning: Unknown format '" ++ name ++ "', using default")]

def orDefaults (home : String) (s : Settings) : Report Settings :=
  match s.validate with
  | .ok _ => pure s
  | .error e => do
    Report.write [
      .warning ("Warning: Configuration validation failed: " ++ (ConsoleError.settings e).message),
      .warning "Using default configuration instead."]
    pure (defaults home)

def effective (c : Codec) (home : String) (disk : Disk) (o : Options) : Report Settings := do
  let loaded ← Report.ofExcept .settings (Settings.load c home disk o.settingsFile)
  let base ← orDefaults home loaded
  Report.write o.warnings
  pure (o.apply base)

end CqlConsole.Cli
