/-!
# The release of the console

The number of this release, which the banner and the command line show.
-/

set_option autoImplicit false

namespace CqlConsole

def release : String := "0.1.0"

end CqlConsole
