import RecordStore.CommandLine.Arguments
import RecordStore.CommandLine.Client
import RecordStore.CommandLine.Run
import RecordStore.CommandLine.Shell
import RecordStore.Config
import RecordStore.Datastore
import RecordStore.Disk
import RecordStore.Error
import RecordStore.Filter
import RecordStore.History
import RecordStore.Import
import RecordStore.Json
import RecordStore.Keyed
import RecordStore.Main
import RecordStore.Number
import RecordStore.Output.Format
import RecordStore.Proofs.Datastore.Access
import RecordStore.Proofs.Datastore.LineWise
import RecordStore.Proofs.Datastore.Reachable
import RecordStore.Proofs.Disk.Resolve
import RecordStore.Proofs.Filter.Range
import RecordStore.Proofs.Filter.Scan
import RecordStore.Proofs.Filter.Written
import RecordStore.Proofs.History.Bounded
import RecordStore.Proofs.History.Saved
import RecordStore.Proofs.Import.Pieces
import RecordStore.Proofs.Import.Progress
import RecordStore.Proofs.Json.RoundTrip
import RecordStore.Proofs.Number.Canonical
import RecordStore.Proofs.Number.FixedSum
import RecordStore.Proofs.Number.Rounding
import RecordStore.Proofs.Output.Decoded
import RecordStore.Proofs.Query.Checked
import RecordStore.Proofs.Query.Columns
import RecordStore.Proofs.Query.Dates
import RecordStore.Proofs.Query.Durations
import RecordStore.Proofs.Query.Extremum
import RecordStore.Proofs.Query.FilterPosition
import RecordStore.Proofs.Query.Grouped
import RecordStore.Proofs.Query.Groups
import RecordStore.Proofs.Query.Ordered
import RecordStore.Proofs.Query.Rows
import RecordStore.Proofs.Query.RunErrors
import RecordStore.Proofs.Query.Sums
import RecordStore.Proofs.Query.Written
import RecordStore.Proofs.Record.Fits
import RecordStore.Proofs.Record.Storage
import RecordStore.Proofs.Schema
import RecordStore.Proofs.Sequence
import RecordStore.Proofs.Store.Agreement
import RecordStore.Proofs.Store.Call
import RecordStore.Proofs.Store.Change
import RecordStore.Proofs.Store.Coherence
import RecordStore.Proofs.Store.Deletion
import RecordStore.Proofs.Store.Entries
import RecordStore.Proofs.Store.Kept
import RecordStore.Proofs.Store.Located
import RecordStore.Proofs.Store.Placing
import RecordStore.Proofs.Store.Reconnection
import RecordStore.Proofs.Store.Refinement
import RecordStore.Proofs.Store.Repeated
import RecordStore.Proofs.Text.Lines
import RecordStore.Proofs.Text.Pieces
import RecordStore.Proofs.Text.Utf8
import RecordStore.Query.Basic
import RecordStore.Query.Keyword
import RecordStore.Query.Run
import RecordStore.Query.Text
import RecordStore.Record.Basic
import RecordStore.Schema.Basic
import RecordStore.Schema.Kind
import RecordStore.Store.Basic
import RecordStore.Store.File
import RecordStore.Store.Memory
import RecordStore.Text.Basic
import RecordStore.Text.Bytes
import RecordStore.Text.Columns
import RecordStore.Text.Columns.Classes
import RecordStore.Time
import RecordStore.Proofs.Output.Grid
