import StackMachine.Main
import StackMachine.Proofs.Listing.RoundTrip
import StackMachine.Proofs.Machine.Bracketing
import StackMachine.Proofs.Machine.Faults
import StackMachine.Proofs.Machine.Resources
import StackMachine.Proofs.Machine.Scoping
import StackMachine.Proofs.Machine.StackBase
import StackMachine.Proofs.Machine.TailCall
import StackMachine.Proofs.Store.Transparent
import StackMachine.Proofs.Machine.FrameEffect
import StackMachine.Proofs.Machine.LargerLimits
import StackMachine.Proofs.Store.History
import StackMachine.Proofs.Machine.AppendedCode
import StackMachine.Proofs.Listing.NormalForm
import StackMachine.Proofs.CommandLine.Rendering
import StackMachine.Proofs.CommandLine.Transcript
import StackMachine.Proofs.Machine.Defined
import StackMachine.Proofs.Arithmetic.Integers
import StackMachine.Proofs.Machine.Activation
import StackMachine.Proofs.Store.Assignment
import StackMachine.Proofs.Machine.EventLog
import StackMachine.Proofs.Store.Levels
import StackMachine.Proofs.Arithmetic.Classification
import StackMachine.Proofs.Machine.Chains
import StackMachine.Proofs.Machine.Headers
import StackMachine.Proofs.Arithmetic.Comparisons
import StackMachine.Proofs.Program.Builder
import StackMachine.Proofs.Machine.Dispatch
import StackMachine.Proofs.Listing.Writing
import StackMachine.Proofs.Datum.Equality
import StackMachine.Proofs.Text.Stream
import StackMachine.Proofs.Arithmetic.Factorial
