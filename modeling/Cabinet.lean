import Cabinet.Main
import Cabinet.Proofs.Collection.Failing
import Cabinet.Proofs.Collection.Snapshot
import Cabinet.Proofs.Json.RoundTrip
import Cabinet.Store.Denied
import Cabinet.Store.Traced
import Cabinet.Proofs.Store.Backends
import Cabinet.Proofs.Cursor.Guard
import Cabinet.Proofs.Query.Kept
import Cabinet.Proofs.Cursor.SortedProjection
import Cabinet.Proofs.Cursor.Calls
import Cabinet.Proofs.Cursor.Counting
import Cabinet.Proofs.Cursor.Resuming
import Cabinet.Proofs.Cursor.Rewinding
import Cabinet.Proofs.Store.Grammar
import Cabinet.Proofs.Store.Confined
import Cabinet.Proofs.Text.Order
import Cabinet.Proofs.Collection.OneDocument
import Cabinet.Proofs.Collection.FindAndModify
import Cabinet.Proofs.Cursor.SuccessiveSorts
import Cabinet.Proofs.Cursor.Laziness
import Cabinet.Proofs.Cursor.Building
import Cabinet.Proofs.Cursor.FirstError
import Cabinet.Proofs.Collection.ReadOnly
import Cabinet.Proofs.Collection.Legible
import Cabinet.Proofs.Collection.Returned
import Cabinet.Proofs.Store.Refusing
import Cabinet.Proofs.Store.Apart
import Cabinet.Proofs.Store.Namespace
import Cabinet.Proofs.Cursor.Unseen
import Cabinet.Proofs.Collection.Hidden
import Cabinet.Proofs.Store.Damaged
import Cabinet.Proofs.Collection.Removal
import Cabinet.Proofs.Command.Pages
import Cabinet.Proofs.Cursor.Remembered
import Cabinet.Proofs.Collection.Setting
import Cabinet.Proofs.Collection.Incrementing
import Cabinet.Proofs.Command.Rejected
import Cabinet.Proofs.Query.Preorder
import Cabinet.Proofs.Query.Increment
import Cabinet.Proofs.Command.Configuring
import Cabinet.Proofs.Command.Showing
import Cabinet.Proofs.Cursor.Sortable
import Cabinet.Proofs.Value.Reordered
import Cabinet.Proofs.Query.Fieldwise
import Cabinet.Proofs.Command.Loading
import Cabinet.Proofs.Query.Counted
import Cabinet.Proofs.Query.Repeating
import Cabinet.Proofs.Query.Renaming
import Cabinet.Proofs.Query.Complement
import Cabinet.Proofs.Query.Composing
import Cabinet.Proofs.Collection.Embedded
import Cabinet.Proofs.Cursor.Ending
