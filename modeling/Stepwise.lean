import Stepwise.Workflow
import Stepwise.Rereading
import Stepwise.Script
import Stepwise.Log.Sink
import Stepwise.Text.Ascii
import Stepwise.Proofs.Entries
import Stepwise.Proofs.Splitting
import Stepwise.Proofs.Rearranged
import Stepwise.Proofs.Leaves
import Stepwise.Proofs.Assignment
import Stepwise.Proofs.FlatRoundTrip
import Stepwise.Proofs.LastWrites
import Stepwise.Proofs.NestedAgain
import Stepwise.Proofs.Holding
import Stepwise.Proofs.HeldNesting
import Stepwise.Proofs.LeftBehind
import Stepwise.Proofs.Unshared
import Stepwise.Proofs.RunningOn
import Stepwise.Proofs.Layout
import Stepwise.Proofs.Encoding
import Stepwise.Proofs.FieldOrder
import Stepwise.Proofs.Rereading
import Stepwise.Proofs.Decoding
import Stepwise.Proofs.ChannelRoundTrip
import Stepwise.Proofs.Shadowing
import Stepwise.Proofs.Undiagnosed
import Stepwise.Proofs.Diagnosed
import Stepwise.Proofs.Writing
import Stepwise.Proofs.Repeats
import Stepwise.Proofs.Plans
import Stepwise.Proofs.Recording
import Stepwise.Proofs.Accepted
import Stepwise.Proofs.StartStates
import Stepwise.Proofs.Sharp
import Stepwise.Proofs.Equals
import Stepwise.Proofs.ListTracking
import Stepwise.Proofs.Mirrors
import Stepwise.Proofs.WritingBack
import Stepwise.Proofs.Routes
import Stepwise.Proofs.Turns
import Stepwise.Proofs.Simulation
import Stepwise.Proofs.Parity
import Stepwise.Proofs.Accounts
import Stepwise.Proofs.Ceiling
import Stepwise.Proofs.Replacing
import Stepwise.Proofs.Limits
import Stepwise.Proofs.Reordered
import Stepwise.Proofs.Returned
import Stepwise.Proofs.Verdicts
import Stepwise.Proofs.Passages
import Stepwise.Proofs.FailedDispatches
import Stepwise.Proofs.Envelope
import Stepwise.Proofs.ProcedureLists
import Stepwise.Proofs.Succession
import Stepwise.Proofs.Supersteps
import Stepwise.Proofs.Resolutions
import Stepwise.Proofs.Bounds
