import ReadGuard.AliasStore
import ReadGuard.Binary64.Basic
import ReadGuard.Binary64.Shortest
import ReadGuard.Binary64.Text
import ReadGuard.CallGraph.Basic
import ReadGuard.CallGraph.Closure
import ReadGuard.CallGraph.Components
import ReadGuard.CallGraph.Report
import ReadGuard.Check.Batch
import ReadGuard.Check.Event
import ReadGuard.Check.Log
import ReadGuard.Check.Run
import ReadGuard.Check.Verdict
import ReadGuard.Code.Basic
import ReadGuard.Code.Position
import ReadGuard.Code.Render
import ReadGuard.Code.Size
import ReadGuard.Code.Walk
import ReadGuard.Command.Home
import ReadGuard.Command.Options
import ReadGuard.Command.Run
import ReadGuard.Command.Script
import ReadGuard.Command.Switch
import ReadGuard.Command.Word
import ReadGuard.FileTree
import ReadGuard.Files
import ReadGuard.Issue.Basic
import ReadGuard.Issue.Reporter
import ReadGuard.Issue.Rule
import ReadGuard.Load.Args
import ReadGuard.Load.Basic
import ReadGuard.Load.Expr
import ReadGuard.Load.Fault
import ReadGuard.Load.Form
import ReadGuard.Load.Stmt
import ReadGuard.Load.Unit
import ReadGuard.Log
import ReadGuard.Main
import ReadGuard.Path
import ReadGuard.Policy.Basic
import ReadGuard.Policy.Log
import ReadGuard.Policy.Sources
import ReadGuard.Proofs.Alias.Chain
import ReadGuard.Proofs.Alias.Order
import ReadGuard.Proofs.CallGraph.Contamination
import ReadGuard.Proofs.CallGraph.Lookup
import ReadGuard.Proofs.CallGraph.Sweep
import ReadGuard.Proofs.Check.Budget
import ReadGuard.Proofs.Check.Calls
import ReadGuard.Proofs.Check.Effect
import ReadGuard.Proofs.Check.Growth
import ReadGuard.Proofs.Check.Induction
import ReadGuard.Proofs.Check.Least
import ReadGuard.Proofs.Check.Monotone
import ReadGuard.Proofs.Check.Permutation
import ReadGuard.Proofs.Check.Reports
import ReadGuard.Proofs.Check.TaintPass
import ReadGuard.Proofs.Check.Wording
import ReadGuard.Proofs.Code.Evaluation
import ReadGuard.Proofs.Code.Preorder
import ReadGuard.Proofs.Issue.Wording
import ReadGuard.Protection
import ReadGuard.Sexp.Basic
import ReadGuard.Sexp.Reader
import ReadGuard.Sexp.Token
import ReadGuard.Text.Blank
import ReadGuard.Text.Cut
import ReadGuard.Text.Digit
import ReadGuard.Text.Json
import ReadGuard.Text.Letter
import ReadGuard.Text.Lines
import ReadGuard.Text.LowerCase
import ReadGuard.Text.Printable
import ReadGuard.Text.Quoted
import ReadGuard.Text.Ranges
import ReadGuard.Ty.Basic
import ReadGuard.Ty.Grammar
import ReadGuard.Ty.Printer
import ReadGuard.TypeCache
import ReadGuard.TypeGraph.Basic
import ReadGuard.TypeGraph.Classifier
import ReadGuard.Write.Binding
import ReadGuard.Write.Breach
import ReadGuard.Write.FieldPath
import ReadGuard.Write.Target
import ReadGuard.Proofs.Check.DirectWrite
import ReadGuard.Proofs.Check.PureReader
import ReadGuard.Proofs.Check.Extension
import ReadGuard.Proofs.Check.RecordedCalls
import ReadGuard.Proofs.Alias.History
import ReadGuard.Proofs.Check.Action
import ReadGuard.Proofs.Check.Reached
import ReadGuard.Proofs.Check.Provenance
import ReadGuard.Proofs.Check.Strict
import ReadGuard.Proofs.Check.Repetition
import ReadGuard.Proofs.CallGraph.Outside
import ReadGuard.Proofs.CallGraph.Rounds
import ReadGuard.Proofs.Check.Isolation
import ReadGuard.Proofs.Ty.Node
import ReadGuard.Proofs.Ty.Reading
import ReadGuard.Proofs.Ty.Writes
import ReadGuard.Proofs.Ty.RoundTrip
import ReadGuard.Proofs.CallGraph.StrongComponents
import ReadGuard.Proofs.TypeGraph.Classification
import ReadGuard.Proofs.Alias.MultipleAssignment
import ReadGuard.Proofs.Check.Taints
import ReadGuard.Proofs.Write.FieldRoot
import ReadGuard.Proofs.TypeGraph.Sharing
import ReadGuard.Proofs.Write.AliasPath
import ReadGuard.Proofs.Write.Parentheses
import ReadGuard.Proofs.Issue.Emission
import ReadGuard.Proofs.Command.ExitStatus
import ReadGuard.Proofs.Load.Alike
import ReadGuard.Proofs.Load.Reordering
import ReadGuard.Proofs.Load.Formation
import ReadGuard.Proofs.Load.Positions
import ReadGuard.Proofs.Issue.Lines
import ReadGuard.Proofs.Check.Lines
import ReadGuard.Proofs.CallGraph.Recursion
import ReadGuard.Proofs.CallGraph.SingleSweep
import ReadGuard.Proofs.Check.CallSites
import ReadGuard.Proofs.Policy.Precedence
import ReadGuard.Proofs.Code.Paths
import ReadGuard.Proofs.TypeGraph.PointerChain
