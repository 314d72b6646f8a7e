import Quarry.Clause.All
import Quarry.Clause.Conditions
import Quarry.Clause.Order
import Quarry.Clause.Page
import Quarry.Dialect
import Quarry.Duration
import Quarry.Event
import Quarry.Failure
import Quarry.Invalid
import Quarry.Json.Basic
import Quarry.Json.Numeral
import Quarry.Json.Printer
import Quarry.Json.Reader
import Quarry.Json.Record
import Quarry.Name
import Quarry.Number.Binary
import Quarry.Number.Shortest
import Quarry.Number.Word
import Quarry.Operator
import Quarry.Operator.Text
import Quarry.Placeholder
import Quarry.Pool
import Quarry.Pool.Address
import Quarry.Pool.ConnectionString
import Quarry.Search.Compiled
import Quarry.Search.Condition
import Quarry.Search.Document
import Quarry.Search.Spec
import Quarry.Select.Basic
import Quarry.Select.Build
import Quarry.Select.History
import Quarry.Select.Join
import Quarry.Server
import Quarry.Statement
import Quarry.Text.Blank
import Quarry.Text.Decimal
import Quarry.Text.Hex
import Quarry.Text.Join
import Quarry.Transaction.Connection
import Quarry.Transaction.Isolation
import Quarry.Transaction.Options
import Quarry.Transaction.Run
import Quarry.Transaction.Timed
import Quarry.Value
import Quarry.Wire.Bytes
import Quarry.Wire.Encode
import Quarry.Wire.SqlType
import Quarry.Proofs.Checked
import Quarry.Proofs.Faults
import Quarry.Proofs.Placeholder.Reading
import Quarry.Proofs.Placeholder.Inert
import Quarry.Proofs.Placeholder.Part
import Quarry.Proofs.Placeholder.Shift
import Quarry.Proofs.Text.Mask
import Quarry.Proofs.Text.Words
import Quarry.Proofs.Text.Numeral
import Quarry.Proofs.Json.Integer
import Quarry.Proofs.Name.Grammar
import Quarry.Proofs.Name.Inert
import Quarry.Proofs.Name.Spelling
import Quarry.Proofs.Name.Outer
import Quarry.Proofs.Name.Field
import Quarry.Proofs.Name.Solid
import Quarry.Proofs.Name.Call
import Quarry.Proofs.Operator.Parts
import Quarry.Proofs.Operator.Words
import Quarry.Proofs.Clause.Parts
import Quarry.Proofs.Clause.Page
import Quarry.Proofs.Search.Condition
import Quarry.Proofs.Search.Compiled
import Quarry.Proofs.Search.Faults
import Quarry.Proofs.Search.Document
import Quarry.Proofs.Search.Concat
import Quarry.Proofs.Search.Entries
import Quarry.Proofs.Clause.Shows
import Quarry.Proofs.Clause.Placeholders
import Quarry.Proofs.Clause.Comment
import Quarry.Proofs.Clause.Readable
import Quarry.Proofs.Search.Veiled
import Quarry.Proofs.Statement.Passage
import Quarry.Proofs.Statement.Binding
import Quarry.Proofs.Select.Counted
import Quarry.Proofs.Select.ByHand
import Quarry.Proofs.Select.Count
import Quarry.Proofs.Select.Faults
import Quarry.Proofs.Select.Reached
import Quarry.Proofs.Select.Sortable
import Quarry.Proofs.Select.Refused
import Quarry.Proofs.Select.Layout
import Quarry.Proofs.Select.Tidy
import Quarry.Proofs.Select.Build
import Quarry.Proofs.Select.Placeholders
import Quarry.Proofs.Select.Numbers
import Quarry.Proofs.Select.Requests
import Quarry.Proofs.Select.Veiled
import Quarry.Proofs.Select.Split
import Quarry.Proofs.Transaction.Tells
import Quarry.Proofs.Transaction.Works
import Quarry.Proofs.Transaction.Told
import Quarry.Proofs.Transaction.Lifecycle
import Quarry.Proofs.Transaction.Orderly
import Quarry.Proofs.Transaction.Closed
import Quarry.Proofs.Transaction.Forks
import Quarry.Proofs.Transaction.Verdict
import Quarry.Proofs.Transaction.Steady
import Quarry.Proofs.Transaction.Deadline
import Quarry.Proofs.Transaction.Timeline
import Quarry.Proofs.Transaction.Account
import Quarry.Proofs.Transaction.Reports
import Quarry.Proofs.Wire.Decode
import Quarry.Proofs.Wire.Block
