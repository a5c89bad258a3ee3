import TapeMachine.Program
import TapeMachine.Text.Json
/-!
# Programs as JSON

Every part of a program as a JSON value; the fields stand in the order of the parts.
-/
namespace TapeMachine

def Json.fields (entries : List (String × Json)) : Json :=
  .record (entries.map fun (key, value) => (key.toList, value))

def Json.word (s : String) : Json := .text s.toList

def Json.char (c : Char) : Json := .text [c]

def Symbol.toJson : Symbol → Json
  | .any => .word "Any"
  | .char c => .fields [("Char", .char c)]

def Transition.toJson (t : Transition) : Json :=
  .fields [("state", .text t.state), ("read", t.read.toJson), ("target", .text t.target),
    ("write", t.write.toJson), ("direction", .word t.direction.word)]

def State.toJson (s : State) : Json :=
  .fields [("name", .text s.name), ("transitions", .list (s.transitions.map Transition.toJson))]

def Table.toJson (table : Table) : Json :=
  .fields [("states", .list (table.states.map State.toJson))]

def Tape.toJson (t : Tape) : Json :=
  .fields [("cells", .list (t.cells.map Json.char)), ("head", .number t.head)]

def Program.toJson (p : Program) : Json :=
  .fields [("table", p.table.toJson), ("initial_state", .text p.initial),
    ("halt_states", .list (p.halts.map Json.text)), ("alphabet", .list (p.alphabet.map Json.char)),
    ("tape", p.tape.toJson)]

def Program.dump [Json.Escaping] (p : Program) : String := String.ofList p.toJson.compact

end TapeMachine
