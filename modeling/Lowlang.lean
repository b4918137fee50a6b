import Lowlang.Main
import Lowlang.Profile
import Lowlang.Shell.Editing
import Lowlang.Proofs.Program.RoundTrip
import Lowlang.Proofs.Script.Concatenation
import Lowlang.Proofs.Script.Erasure
import Lowlang.Proofs.Script.Reader
import Lowlang.Proofs.Script.Scoping
import Lowlang.Proofs.Expr.Reading
import Lowlang.Proofs.Script.Recovery
import Lowlang.Proofs.Ty.RoundTrip
import Lowlang.Proofs.Value.Expressible
import Lowlang.Proofs.Value.RoundTrip
import Lowlang.Proofs.Expr.Made
import Lowlang.Proofs.Value.Accepted
import Lowlang.Proofs.Value.MisreadNames
import Lowlang.Proofs.Value.Misreading
import Lowlang.Proofs.Value.Rereading
import Lowlang.Proofs.Shell.Recency
import Lowlang.Proofs.Shell.Reloading
import Lowlang.Proofs.Registry.Extension
import Lowlang.Proofs.Script.Weakening
import Lowlang.Proofs.Shell.Batch
import Lowlang.Proofs.Shell.Line
import Lowlang.Proofs.Shell.Keystrokes
import Lowlang.Proofs.Script.Interruption
import Lowlang.Proofs.Program.Interruption
import Lowlang.Proofs.Script.Nesting
import Lowlang.Proofs.Script.Visibility
import Lowlang.Proofs.Script.Positions
import Lowlang.Proofs.Raw.Equality
import Lowlang.Proofs.Program.Merging
import Lowlang.Proofs.Ty.Refusal
import Lowlang.Proofs.Shell.Completing
import Lowlang.Proofs.Shell.Walking
import Lowlang.Proofs.Config.Order
import Lowlang.Proofs.Program.Wrapping
import Lowlang.Proofs.Program.Positions
import Lowlang.Proofs.Shell.Calling
import Lowlang.Proofs.Shell.Candidates
import Lowlang.Proofs.Log.Records
import Lowlang.Proofs.Log.Labels
import Lowlang.Proofs.Text.Encoding
import Lowlang.Proofs.Registry.Family
import Lowlang.Proofs.Fault.Identity
import Lowlang.Proofs.Shell.Bounds
