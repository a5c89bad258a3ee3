import TapeMachine.Failure
/-!
# Sample programs

Three programs come with the library: adding one to a binary number, adding two unary numbers, and
inverting bits. They are found by their name or by their place.
-/
namespace TapeMachine

structure Sample where
  name : String
  program : Program

namespace Samples

def sourceOf (lines : List String) : List Char := lines.flatMap fun line => line.toList ++ ['\n']

def binaryIncrement : List Char := sourceOf [
  "# Binary increment: adds one to the number on the tape.",
  "@0:1;",
  "*right:carry:done;",
  "!right;",
  "~done;",
  "&1011;",
  "",
  "# Walk to the first blank right of the number.",
  "$right:0 -> right:*:R;",
  "$right:1 -> right:*:R;",
  "$right:_ -> carry:*:L;",
  "",
  "# Propagate the carry to the left.",
  "$carry:1 -> carry:0:L;",
  "$carry:0 -> done:1:*;",
  "$carry:_ -> done:1:*;"]

def unaryAddition : List Char := sourceOf [
  "# Unary addition: 111 0 11 becomes 11111.",
  "@1:0;",
  "*scan:end:erase:done;",
  "!scan;",
  "~done;",
  "&111011;",
  "",
  "$scan:1 -> scan:*:R;",
  "$scan:0 -> end:1:R;",
  "",
  "$end:1 -> end:*:R;",
  "$end:_ -> erase:*:L;",
  "",
  "$erase:1 -> done:_:*;"]

def bitFlipper : List Char := sourceOf [
  "# Bit flipper: inverts every bit, then rewinds to the first cell.",
  "@0:1;",
  "*done;",
  "~done;",
  "&0110;",
  "",
  ":flip \x7b",
  "    *rewind;",
  "",
  "    # An any-state source names the namespace's own state.",
  "    $*:0 -> .flip:1:R;",
  "    $*:1 -> .flip:0:R;",
  "    $*:_ -> rewind:*:L;",
  "",
  "    $rewind:0 -> rewind:*:L;",
  "    $rewind:1 -> rewind:*:L;",
  "    $rewind:_ -> .done:*:R;",
  "\x7d",
  "",
  "!flip;"]

def sources : List (String × List Char) :=
  [("binary-increment", binaryIncrement), ("unary-addition", unaryAddition),
    ("bit-flipper", bitFlipper)]

def all : List Sample :=
  sources.filterMap fun (name, source) => (compile source).program.map (⟨name, ·⟩)

def names : List String := all.map (·.name)

def atIndex (index : Nat) : Except Failure Sample :=
  match all[index]? with
  | some sample => .ok sample
  | none => .error (.sampleIndex index)

def ofName (name : List Char) : Except Failure Sample :=
  match all.find? (·.name.toList == name) with
  | some sample => .ok sample
  | none => .error (.sampleName name)

end Samples

end TapeMachine
