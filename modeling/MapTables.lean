import MapTables.Input.Source
import MapTables.Main
import MapTables.Store.Memory
import MapTables.Store.Supervised
import MapTables.Proofs.Assembly.Step
import MapTables.Proofs.Assembly.Closings
import MapTables.Proofs.Store.Memory
import MapTables.Proofs.Store.Driven
import MapTables.Proofs.Load.Balance
import MapTables.Proofs.Load.Flush
import MapTables.Proofs.Load.Plain
import MapTables.Proofs.Load.Underway
import MapTables.Proofs.Load.Taking
import MapTables.Proofs.Load.Closing
import MapTables.Proofs.Load.Outcome
import MapTables.Proofs.Store.Logged
import MapTables.Proofs.Load.Calls
import MapTables.Proofs.Markup.Complete
import MapTables.Proofs.Markup.Reading
import MapTables.Proofs.Markup.Leftover
import MapTables.Proofs.Load.Overlooked
import MapTables.Proofs.Input.Cut
import MapTables.Proofs.Input.Forks
import MapTables.Proofs.Markup.Start
import MapTables.Proofs.Load.Truncation
import MapTables.Proofs.Assembly.Owners
import MapTables.Proofs.Assembly.Documents
import MapTables.Proofs.Load.Beside
import MapTables.Proofs.Load.Sent
import MapTables.Proofs.Load.Orphans
import MapTables.Proofs.Assembly.Keys
import MapTables.Proofs.Load.Hosting
import MapTables.Proofs.Load.Twins
import MapTables.Proofs.Input.Octets
import MapTables.Proofs.Markup.Divided
import MapTables.Proofs.Load.Pieces
import MapTables.Proofs.Store.Ledger
import MapTables.Proofs.Load.Retries
import MapTables.Proofs.Load.Course
import MapTables.Proofs.Load.Overheard
import MapTables.Proofs.Load.FirstFault
import MapTables.Proofs.Load.Cancelled
import MapTables.Proofs.Text.Utf8
import MapTables.Proofs.Markup.Escaped
import MapTables.Proofs.Markup.Written
import MapTables.Proofs.Markup.Names
import MapTables.Proofs.Markup.Tags
import MapTables.Proofs.Markup.RoundTrip
import MapTables.Proofs.Load.Departures
import MapTables.Proofs.Load.Neighbours
import MapTables.Proofs.Load.Refusing
import MapTables.Proofs.Load.Replacing
import MapTables.Proofs.Load.Progress
import MapTables.Proofs.Assembly.Dispatch
import MapTables.Proofs.Load.Encodings
import MapTables.Proofs.Load.Marked
import MapTables.Proofs.Assembly.History
import MapTables.Proofs.Assembly.Told
import MapTables.Proofs.Assembly.Totals
import MapTables.Proofs.Assembly.Numbering
import MapTables.Proofs.Assembly.Nesting
import MapTables.Proofs.Load.Belonging
import MapTables.Proofs.Load.Halves
import MapTables.Proofs.Load.Resting
import MapTables.Proofs.Load.Batches
import MapTables.Proofs.Input.Declared
import MapTables.Proofs.Load.Sampling
import MapTables.Proofs.Assembly.Lookups
import MapTables.Proofs.Markup.Attributes
import MapTables.Proofs.Markup.Reordered
import MapTables.Proofs.Load.Reordered
import MapTables.Proofs.Input.Found
import MapTables.Proofs.Command.BaseName
import MapTables.Proofs.Folder.Prepared
import MapTables.Proofs.Time.ReadBack
