import CqlConsole.Error
import CqlConsole.Settings.Level
import CqlConsole.Text.CodePoints

/-!
# Reports

A report tells in order what a run wrote, and how it ended: with a value, or
with the error that stopped it. What was written before the error stays.
-/

set_option autoImplicit false

namespace CqlConsole.Cli

open CqlConsole.Settings CqlConsole.Text

inductive HostShell where
  | bash
  | zsh
  | fish
  | powershell
  deriving DecidableEq, Repr

inductive Event where
  | output (line : String)
  | script (shell : HostShell)
  | warning (line : String)
  | log (level : Level) (message : String)
  deriving DecidableEq, Repr

def steersTerminal (c : Char) : Bool :=
  c == '\x07' || c == '\x08' || c == '\x0c' || c == '\x1b' ||
    (0x7F ≤ c.toNat && c.toNat ≤ 0x9F)

def logChar (c : Char) : List Char :=
  if !steersTerminal c then [c]
  else if c.toNat < 0x80 then '\\' :: 'x' :: hexPadded 2 c.toNat
  else "\\u\x7b".toList ++ Nat.toDigits 16 c.toNat ++ ['\x7d']

def logLine (level : Level) (message : String) : String :=
  let label := level.label.toList
  String.ofList (List.replicate (5 - label.length) ' ' ++ label ++ ' ' ::
    message.toList.flatMap logChar)

structure Report (α : Type) where
  events : List Event
  result : Except ConsoleError α

namespace Report

variable {α β : Type}

protected def pure (a : α) : Report α :=
  ⟨[], .ok a⟩

protected def bind (r : Report α) (f : α → Report β) : Report β :=
  match r.result with
  | .ok a => ⟨r.events ++ (f a).events, (f a).result⟩
  | .error e => ⟨r.events, .error e⟩

instance : Monad Report where
  pure := Report.pure
  bind := Report.bind

def write (events : List Event) : Report Unit :=
  ⟨events, .ok ()⟩

def ofExcept {ε : Type} (wrap : ε → ConsoleError) (r : Except ε α) : Report α :=
  ⟨[], r.mapError wrap⟩

end Report

end CqlConsole.Cli
