import CqlConsole.Cli.Options

/-!
# Arguments

A command line has options, and then perhaps a command with arguments and
options of its own. Without a command the console is interactive.
-/

set_option autoImplicit false

namespace CqlConsole.Cli

inductive Command where
  | version
  | completion (shell : String)
  | settings (shown checked : Bool)
  | parse (statement : String)
  | complete (input : String)
  deriving DecidableEq, Repr

structure Arguments where
  options : Options := {}
  command : Option Command := none
  deriving DecidableEq, Repr

structure Form where
  switches : List String := []
  words : Nat := 0

structure Given where
  switches : List String := []
  words : List String := []
  deriving DecidableEq, Repr

namespace Given

def addWord (form : Form) (g : Given) (text : String) : Except Refusal Given :=
  if g.words.length < form.words then .ok { g with words := g.words ++ [text] }
  else .error .unknownArgument

def addSwitch (form : Form) (g : Given) (name : String) (attached : Option String) :
    Except Refusal Given :=
  if name ≠ "help" ∧ name ∉ form.switches then .error .unknownArgument
  else if attached.isSome then .error .surplusValue
  else if name = "help" then .error .help
  else if name ∈ g.switches then .error .repeatedOption
  else .ok { g with switches := g.switches ++ [name] }

def add (form : Form) (g : Given) (word : Word) : Except Refusal Given :=
  match word with
  | .separator => .ok g
  | .long name attached => g.addSwitch form name attached
  | .short ('h' :: _) => .error .help
  | .short _ => .error .unknownArgument
  | .plain text => g.addWord form text

def addAll (form : Form) : Bool → Given → List String → Except Refusal Given
  | _, g, [] => if g.words.length < form.words then .error .missingArgument else .ok g
  | plain, g, text :: rest => do
    let word := if plain then .plain text else Word.ofText text
    addAll form (plain || word == .separator) (← g.add form word) rest

def word (g : Given) : String :=
  g.words.headD ""

end Given

def commands : List (String × Form × (Given → Command)) := [
  ("version", {}, fun _ => .version),
  ("completion", { words := 1 }, fun g => .completion g.word),
  ("config", { switches := ["show", "validate"] },
    fun g => .settings ("show" ∈ g.switches) ("validate" ∈ g.switches)),
  ("parse", { words := 1 }, fun g => .parse g.word),
  ("complete", { words := 1 }, fun g => .complete g.word)]

def command? (name : String) (rest : List String) : Option (Except Refusal Command) :=
  (commands.find? fun c => c.1 == name).map fun c =>
    (Given.addAll c.2.1 false {} rest).map c.2.2

def isCommandName (name : String) : Bool :=
  name == "help" || commands.any fun c => c.1 == name

def helpOn (rest : List String) : Refusal :=
  match rest with
  | [] => .help
  | [name] => if isCommandName name then .help else .unknownCommand
  | _ => .unknownCommand

def readCommand (d : Draft) (name : String) (rest : List String) : Except Refusal Arguments :=
  if name = "help" then .error (helpOn rest)
  else
    match command? name rest with
    | none => .error .unknownCommand
    | some command => do
      let command ← command
      pure ⟨← d.settle, some command⟩

def readFrom (d : Draft) : List String → Except Refusal Arguments
  | [] => d.settle.map fun options => ⟨options, none⟩
  | text :: rest =>
    match Word.ofText text, d.waiting? with
    | .separator, _ =>
      match rest with
      | [] => d.settle.map fun options => ⟨options, none⟩
      | name :: _ => .error (if isCommandName name then .unknownArgument else .unknownCommand)
    | .long name attached, _ => do readFrom (← d.takeLong name attached) rest
    | .short letters, _ => do readFrom (← d.takeShort letters) rest
    | .plain _, some option => readFrom { d with pending := some (option, some text) } rest
    | .plain _, none => readCommand d text rest

def Arguments.read (words : List String) : Except Refusal Arguments :=
  readFrom {} words

end CqlConsole.Cli
