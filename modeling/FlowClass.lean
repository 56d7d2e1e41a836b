import FlowClass.Main
import FlowClass.Pass.Guard
import FlowClass.Proofs.Analysis.Closures
import FlowClass.Proofs.Analysis.Strict
import FlowClass.Proofs.Program.Trace
import FlowClass.Proofs.Pass.Containment
import FlowClass.Proofs.Pass.Scheduling
import FlowClass.Proofs.Pass.Attribution
import FlowClass.Proofs.Pass.Survival
import FlowClass.Proofs.Pass.Queue
import FlowClass.Proofs.Program.Parameters
import FlowClass.Proofs.Program.Statics
import FlowClass.Proofs.Document.RoundTrip
import FlowClass.Proofs.Pass.Unreached
import FlowClass.Proofs.Marker.Innermost
import FlowClass.Proofs.Program.ElseBody
import FlowClass.Proofs.Symbol.Assignable
import FlowClass.Proofs.Symbol.ShortNames
import FlowClass.Proofs.Model.Identities
import FlowClass.Proofs.Program.Lookup
import FlowClass.Proofs.Command.Written
import FlowClass.Proofs.Program.Access
import FlowClass.Proofs.Code.ArrayTypes
import FlowClass.Proofs.Code.Quoting
import FlowClass.Proofs.Code.Operands
