import TapeMachine.Shell.Run
import TapeMachine.Proofs.Engine.Endless
import TapeMachine.Proofs.Language.Reading
import TapeMachine.Proofs.Language.Recast
import TapeMachine.Proofs.Language.Recovery
import TapeMachine.Proofs.Table.Consistency
import TapeMachine.Proofs.Table.Walk
import TapeMachine.Proofs.Language.Directives
import TapeMachine.Proofs.Language.Soundness
import TapeMachine.Proofs.Language.WellFormed
import TapeMachine.Proofs.Language.History
import TapeMachine.Proofs.Language.TapeAlphabet
import TapeMachine.Proofs.Tape.Coordinates
import TapeMachine.Proofs.Engine.Entered
import TapeMachine.Proofs.Language.Grammar
import TapeMachine.Proofs.Language.Reports
import TapeMachine.Proofs.Language.Bare
import TapeMachine.Proofs.Language.Generation
import TapeMachine.Proofs.Language.Recognition
import TapeMachine.Proofs.Language.Rooted
import TapeMachine.Proofs.Language.Flattening
import TapeMachine.Proofs.Table.Appending
import TapeMachine.Proofs.Table.Places
import TapeMachine.Proofs.Engine.Replay
import TapeMachine.Proofs.Engine.Batches
import TapeMachine.Proofs.Language.Layout
import TapeMachine.Proofs.Language.Accounting
import TapeMachine.Proofs.Table.Rules
import TapeMachine.Proofs.Table.Selection
import TapeMachine.Proofs.Language.Anonymous
import TapeMachine.Proofs.Language.Printed
import TapeMachine.Proofs.Program.Serial
import TapeMachine.Proofs.Shell.Checking
import TapeMachine.Proofs.Language.Interruption
import TapeMachine.Proofs.Language.References
import TapeMachine.Proofs.Engine.Status
import TapeMachine.Proofs.Language.Ledger
import TapeMachine.Proofs.Language.Locations
import TapeMachine.Proofs.Language.Halves
import TapeMachine.Proofs.Language.Resolution
import TapeMachine.Proofs.Engine.Operations
import TapeMachine.Proofs.Engine.Symbols
import TapeMachine.Proofs.Engine.Sweeps
import TapeMachine.Proofs.Samples.BinaryIncrement
import TapeMachine.Proofs.Samples.BitFlipper
import TapeMachine.Proofs.Samples.UnaryAddition
import TapeMachine.Proofs.Engine.Commands
import TapeMachine.Proofs.Language.Nesting
