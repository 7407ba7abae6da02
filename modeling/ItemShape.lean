import ItemShape.Parse.Describe
import ItemShape.Main
import ItemShape.Proofs.Entries
import ItemShape.Proofs.Value.Equal
import ItemShape.Proofs.Parse.Fill
import ItemShape.Proofs.Parse.Filled
import ItemShape.Proofs.Parse.Keeps
import ItemShape.Proofs.Parse.Steps
import ItemShape.Proofs.Schema.Built
import ItemShape.Proofs.Parse.Conservative
import ItemShape.Proofs.Parse.Conforms
import ItemShape.Proofs.Parse.Relaxed
import ItemShape.Proofs.Format.Children
import ItemShape.Proofs.Format.Restore
import ItemShape.Proofs.Parse.Evaluate
import ItemShape.Proofs.Parse.Update
import ItemShape.Proofs.Parse.FirstError
import ItemShape.Proofs.Parse.FixedPoint
import ItemShape.Proofs.Parse.Operations
import ItemShape.Proofs.Parse.Stored
import ItemShape.Proofs.Parse.Agree
import ItemShape.Proofs.Parse.Protocol
import ItemShape.Proofs.Parse.Gather
import ItemShape.Proofs.Parse.KeyAttribute
import ItemShape.Proofs.Parse.OperationFree
import ItemShape.Proofs.Value.Alike
import ItemShape.Proofs.Parse.Alike
import ItemShape.Proofs.Parse.KeyOrder
import ItemShape.Proofs.Parse.Comparison
import ItemShape.Proofs.Parse.Relocate
import ItemShape.Proofs.Parse.ErrorPath
import ItemShape.Proofs.Parse.KeyOnly
import ItemShape.Proofs.Parse.Unread
import ItemShape.Proofs.Json.Tree
import ItemShape.Proofs.Json.Pointer
import ItemShape.Proofs.Json.Resolve
import ItemShape.Proofs.Format.Unseen
import ItemShape.Proofs.Value.Notation
import ItemShape.Proofs.Definition.Parts
import ItemShape.Proofs.Definition.Composed
import ItemShape.Proofs.Lint.Findings
import ItemShape.Proofs.Lint.Harmless
import ItemShape.Proofs.Lint.Verdict
import ItemShape.Proofs.Parse.Default
import ItemShape.Proofs.Format.Record
import ItemShape.Proofs.Format.Reported
import ItemShape.Proofs.Parse.AddedAttribute
import ItemShape.Proofs.Parse.Widened
import ItemShape.Proofs.Format.Widened
import ItemShape.Proofs.Definition.Located
import ItemShape.Proofs.Path
import ItemShape.Proofs.Value.Same
import ItemShape.Proofs.Lint.Ignored
import ItemShape.Proofs.Parse.IntegerSet
import ItemShape.Proofs.Format.Unique
import ItemShape.Proofs.Value.Written
