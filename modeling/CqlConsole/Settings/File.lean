import CqlConsole.Files.Tree
import CqlConsole.Settings.Document

/-!
# Settings files

Settings are loaded from a file that is named, or else from the one in the home
folder. A named file must exist; without the other one the defaults hold.
-/

set_option autoImplicit false

namespace CqlConsole.Settings

open CqlConsole.Files CqlConsole.Toml

def ofFile (c : Codec) (home : String) (disk : Disk) (path : String) :
    Except SettingsError Settings :=
  match disk.read path with
  | .ok text => decode c home text
  | .error _ => .error (.fileNotFound path)

def load (c : Codec) (home : String) (disk : Disk) : Option String → Except SettingsError Settings
  | some path => ofFile c home disk path
  | none =>
    if disk.holds (defaultPath home) then ofFile c home disk (defaultPath home)
    else .ok (defaults home)

-- The folders are made before the text is, so they stay if there is no text.
def save (c : Codec) (s : Settings) (path : String) (tree : Tree) :
    Except ConsoleError Unit × Tree :=
  match tree.makeParents path with
  | (.error fault, tree) => (.error (.io fault.reason), tree)
  | (.ok _, tree) =>
    match encode c s with
    | .error e => (.error (.settings e), tree)
    | .ok text =>
      match tree.write path text with
      | .error fault => (.error (.io fault.reason), tree)
      | .ok written => (.ok (), written)

end CqlConsole.Settings
