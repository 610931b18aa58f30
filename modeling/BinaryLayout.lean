import BinaryLayout.IR.Command
import BinaryLayout.IR.Superset
import BinaryLayout.Proofs.LR.Listing
import BinaryLayout.Main
import BinaryLayout.Memo
import BinaryLayout.Proofs.Cpp.EnumCase
import BinaryLayout.Proofs.Cpp.Operation
import BinaryLayout.Proofs.Cpp.Sharing
import BinaryLayout.Proofs.IR.Traversal
import BinaryLayout.Proofs.LR.Notes
import BinaryLayout.Proofs.LR.Rejection
import BinaryLayout.Template
import BinaryLayout.Proofs.Language.Expression
import BinaryLayout.Proofs.Bounds.Exact
import BinaryLayout.Proofs.Attributes.ByteOrder
import BinaryLayout.Proofs.Constraint.Size
import BinaryLayout.Proofs.Expansion.Next
import BinaryLayout.Proofs.Scope.Unique
import BinaryLayout.Proofs.Writing.Range
import BinaryLayout.Proofs.Dependency.Cycles
import BinaryLayout.Proofs.Token.Blocks
import BinaryLayout.Proofs.Token.Quoted
