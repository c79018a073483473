import CqlConsole.Cli.Word

/-!
# Options of the command line

An option takes a value or not. A value stands behind an equals sign, directly
behind a short name, or in the next word. Such a word is looked at only when
the next option or the end of the options comes, so faults behind it may be
reported first. No option may be given twice.
-/

set_option autoImplicit false

namespace CqlConsole.Cli

inductive Refusal where
  | unknownArgument
  | unknownCommand
  /-- An option without its value, or an empty path. -/
  | invalidValue
  | missingArgument
  | repeatedOption
  | surplusValue
  | help
  | version
  deriving DecidableEq, Repr

structure Options where
  settingsFile : Option String := none
  schema : Option String := none
  format : Option String := none
  noColour : Bool := false
  noHistory : Bool := false
  quiet : Bool := false
  verbose : Bool := false
  veryVerbose : Bool := false
  deriving DecidableEq, Repr

inductive Valued where
  | settingsFile
  | schema
  | format
  deriving DecidableEq, Repr

inductive Switch where
  | noColour
  | noHistory
  | quiet
  | verbose
  | veryVerbose
  deriving DecidableEq, Repr

inductive Meaning where
  | valued (option : Valued)
  | switch (option : Switch)
  | refuse (reason : Refusal)
  deriving DecidableEq, Repr

def long? : String → Option Meaning
  | "config" => some (.valued .settingsFile)
  | "schema" => some (.valued .schema)
  | "format" => some (.valued .format)
  | "no-color" => some (.switch .noColour)
  | "no-history" => some (.switch .noHistory)
  | "quiet" => some (.switch .quiet)
  | "verbose" => some (.switch .verbose)
  | "vv" => some (.switch .veryVerbose)
  | "help" => some (.refuse .help)
  | "version" => some (.refuse .version)
  | _ => none

def short? : Char → Option Meaning
  | 'c' => some (.valued .settingsFile)
  | 's' => some (.valued .schema)
  | 'q' => some (.switch .quiet)
  | 'v' => some (.switch .verbose)
  | 'h' => some (.refuse .help)
  | 'V' => some (.refuse .version)
  | _ => none

namespace Options

def value? (o : Options) : Valued → Option String
  | .settingsFile => o.settingsFile
  | .schema => o.schema
  | .format => o.format

def withValue (o : Options) (text : String) : Valued → Options
  | .settingsFile => { o with settingsFile := some text }
  | .schema => { o with schema := some text }
  | .format => { o with format := some text }

def given (o : Options) : Switch → Bool
  | .noColour => o.noColour
  | .noHistory => o.noHistory
  | .quiet => o.quiet
  | .verbose => o.verbose
  | .veryVerbose => o.veryVerbose

def withSwitch (o : Options) : Switch → Options
  | .noColour => { o with noColour := true }
  | .noHistory => { o with noHistory := true }
  | .quiet => { o with quiet := true }
  | .verbose => { o with verbose := true }
  | .veryVerbose => { o with veryVerbose := true }

def assign (o : Options) (option : Valued) (text : String) : Except Refusal Options :=
  if (o.value? option).isSome then .error .repeatedOption
  else if text = "" ∧ option ≠ .format then .error .invalidValue
  else .ok (o.withValue text option)

def turn (o : Options) (option : Switch) : Except Refusal Options :=
  if o.given option then .error .repeatedOption else .ok (o.withSwitch option)

end Options

structure Draft where
  options : Options := {}
  pending : Option (Valued × Option String) := none
  deriving DecidableEq, Repr

namespace Draft

def settle (d : Draft) : Except Refusal Options :=
  match d.pending with
  | none => .ok d.options
  | some (_, none) => .error .invalidValue
  | some (option, some text) => d.options.assign option text

def waiting? (d : Draft) : Option Valued :=
  match d.pending with
  | some (option, none) => some option
  | _ => none

def take (d : Draft) (meaning : Meaning) (attached : Option String) : Except Refusal Draft :=
  match meaning, attached with
  | .valued option, some text => do pure { options := ← (← d.settle).assign option text }
  | .valued option, none => do pure { options := ← d.settle, pending := some (option, none) }
  | _, some _ => .error .surplusValue
  | .switch option, none => do pure { options := ← (← d.settle).turn option }
  | .refuse reason, none => do
    let _ ← d.settle
    .error reason

def takeLong (d : Draft) (name : String) (attached : Option String) : Except Refusal Draft :=
  match long? name with
  | some meaning => d.take meaning attached
  | none => .error .unknownArgument

def attached? : List Char → Option String
  | [] => none
  | '=' :: s => some (String.ofList s)
  | s => some (String.ofList s)

def takeShort (d : Draft) : List Char → Except Refusal Draft
  | [] => .ok d
  | c :: s =>
    match short? c with
    | none => .error .unknownArgument
    | some (.valued option) => d.take (.valued option) (attached? s)
    | some meaning => do (← d.take meaning none).takeShort s

end Draft

end CqlConsole.Cli
