import TreeDiff.Script.Shelf
import TreeDiff.Text.Quoted
import TreeDiff.Grid.Path
import TreeDiff.Grid.Moves
import TreeDiff.Grid.Recurrence
import TreeDiff.Grid.Timed
import TreeDiff.Differ
import TreeDiff.Differ.Watch
import TreeDiff.Rendering.Print
import TreeDiff.Join.Rules
import TreeDiff.Pricing
import TreeDiff.LabelRule
import TreeDiff.Words
import TreeDiff.Proofs.Grid.Rows
import TreeDiff.Proofs.Grid.Traversal
import TreeDiff.Proofs.Grid.Moves
import TreeDiff.Proofs.Grid.Optimum
import TreeDiff.Proofs.Grid.Exact
import TreeDiff.Proofs.Grid.Cheapest
import TreeDiff.Proofs.Grid.First
import TreeDiff.Proofs.Grid.Overflow
import TreeDiff.Proofs.Grid.Paths
import TreeDiff.Proofs.Grid.Complete
import TreeDiff.Proofs.Grid.Order
import TreeDiff.Proofs.Grid.Protocol
import TreeDiff.Proofs.Grid.Deadline
import TreeDiff.Proofs.Diff.Costs
import TreeDiff.Proofs.Differ.Cheapest
import TreeDiff.Proofs.Differ.Deadline
import TreeDiff.Proofs.Differ.Sides
import TreeDiff.Proofs.Differ.Watch
import TreeDiff.Proofs.Differ.Expiry
import TreeDiff.Proofs.Differ.Account
import TreeDiff.Proofs.Differ.Punctual
import TreeDiff.Proofs.Differ.Report
import TreeDiff.Proofs.Diff.Metric
import TreeDiff.Proofs.Diff.Unchanged
import TreeDiff.Proofs.Differ.Distance
import TreeDiff.Proofs.Differ.Ceiling
import TreeDiff.Grid.Chart
import TreeDiff.Proofs.Grid.Timeout
import TreeDiff.Proofs.Differ.Timeout
import TreeDiff.Proofs.Differ.Children
import TreeDiff.Proofs.Tree.Text
import TreeDiff.Proofs.Rendering.Readable
import TreeDiff.Differ.Recurrence
import TreeDiff.Proofs.Diff.Context
import TreeDiff.Proofs.Differ.Context
import TreeDiff.Proofs.Grid.Segments
import TreeDiff.Proofs.Differ.NormalForm
import TreeDiff.Rendering.Layout
import TreeDiff.Proofs.Rendering.Writing
import TreeDiff.Rendering.Session
import TreeDiff.Proofs.Rendering.Layout
import TreeDiff.Proofs.Rendering.Session
import TreeDiff.Proofs.Join.Stable
import TreeDiff.Proofs.Join.Lifted
import TreeDiff.Proofs.Grid.Subsequences
import TreeDiff.Proofs.Join.Accounts
import TreeDiff.Proofs.Join.Conserved
import TreeDiff.Proofs.Script.Linked
import TreeDiff.Proofs.Script.Shelf
import TreeDiff.Proofs.Diff.Conservation
import TreeDiff.Proofs.Diff.Filter
import TreeDiff.Proofs.Tree.Reading
import TreeDiff.Grid.Indexed
import TreeDiff.Proofs.Grid.Indexed
import TreeDiff.Proofs.Grid.Slips
import TreeDiff.Tree.Counting
import TreeDiff.Proofs.Tree.Counting
