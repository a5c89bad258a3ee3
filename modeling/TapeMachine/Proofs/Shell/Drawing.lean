import TapeMachine.Shell.Screen
/-!
# Frames line by line

A frame written out as the lines that it consists of, and what is `drawn` of each event of a session.
-/
namespace TapeMachine.Shell

variable (terminal : Terminal)

end TapeMachine.Shell
