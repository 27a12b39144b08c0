import Triangle.Main
import Triangle.Proofs.Calculation
import Triangle.Proofs.Code.Rethreading
import Triangle.Proofs.Code.Segments
import Triangle.Proofs.Code.SourceLines
import Triangle.Proofs.Compilation
import Triangle.Proofs.Generate.Labels
import Triangle.Proofs.Generate.Naming
import Triangle.Proofs.Generate.Progress
import Triangle.Proofs.Layout.Records
import Triangle.Proofs.Machine.Decimals
import Triangle.Proofs.Machine.Encoding
import Triangle.Proofs.Machine.Hidden
import Triangle.Proofs.Machine.StackPointer
import Triangle.Proofs.Optimize.Legal
import Triangle.Proofs.Optimize.Pruning
import Triangle.Proofs.Optimize.Remaining
import Triangle.Proofs.Optimize.Rounds
import Triangle.Proofs.Optimize.Undecided
import Triangle.Proofs.Peephole
import Triangle.Proofs.Reassembly
import Triangle.Proofs.Scope.History
import Triangle.Proofs.Tree.RoundTrip
import Triangle.Proofs.Typing.Constancy
import Triangle.Proofs.Typing.Unwinding
