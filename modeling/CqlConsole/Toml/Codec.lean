import CqlConsole.Toml.Reader
import CqlConsole.Toml.Writer

/-!
# Codecs

A codec writes sections as a document and reads documents; either may fail for
a reason. The standard one can write all sections.
-/

set_option autoImplicit false

namespace CqlConsole.Toml

structure Codec where
  write : List Section → Except String String
  read : String → Except String Node

namespace Codec

def standard : Codec where
  write secs := .ok (String.ofList (writeSections secs))
  read text := (Toml.read text).elim (.error "TOML parse error") .ok

end Codec

end CqlConsole.Toml
