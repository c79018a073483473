/-!
# Disks

What the console needs to know of files: the text of one, whether there is
something at a path, and whether a file could be written there. A reason for a
failure is the text that the system gives.
-/

set_option autoImplicit false

namespace CqlConsole.Files

structure Disk where
  read : String → Except String String
  holds : String → Bool
  /-- The reason why a file cannot be opened for writing, if there is one. Missing folders on
  the way are no obstacle. -/
  obstacle? : String → Option String

/-- The path of a name in a folder. A slash comes between them if the folder ends without one. -/
def pathIn (folder name : String) : String :=
  if folder.toList.getLast?.all (· == '/') then folder ++ name else folder ++ "/" ++ name

theorem pathIn_ne_empty {name : String} (h : name ≠ "") (folder : String) :
    pathIn folder name ≠ "" := by
  rw [pathIn]
  split <;> simp [h]

end CqlConsole.Files
