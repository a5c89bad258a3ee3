import TapeMachine.Proofs.Engine.Replay
import TapeMachine.Proofs.Language.Excerpt
import TapeMachine.Proofs.Language.WellFormed
import TapeMachine.Proofs.Shell.Drawing
import TapeMachine.Proofs.Text.Json
import TapeMachine.Proofs.Text.Trim
import TapeMachine.Shell.Run
/-!
# Files that are run

To run a file is to hold a session with its program on the lines of the input (`run_file`). The end
of the input quits, as a line that says so would.
-/
namespace TapeMachine

namespace Session

end Session

namespace Shell

variable {path : Path} {found : Found} {content : ByteArray} {text : String}

def Style.escape : Style → String
  | green => "\x1b[38;5;10m"
  | yellow => "\x1b[38;5;11m"
  | red => "\x1b[38;5;9m"
  | bold => "\x1b[1m"
  | italic => "\x1b[3m"
  | reversed => "\x1b[7m"

end Shell

end TapeMachine
