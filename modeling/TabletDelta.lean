import TabletDelta.Read.Layers
import TabletDelta.Read.Overlay
import TabletDelta.Read.Scan
import TabletDelta.Txn.Guard
import TabletDelta.Wire.Schema
import TabletDelta.Wire.Snapshot
import TabletDelta.Proofs.Run
import TabletDelta.Proofs.Txn.History
import TabletDelta.Proofs.Txn.Visibility
import TabletDelta.Proofs.Store.Latest
import TabletDelta.Proofs.Block.Writing
import TabletDelta.Proofs.ChangeList.Typed
import TabletDelta.Proofs.Read.Batch
import TabletDelta.Proofs.Read.Protocol
import TabletDelta.Proofs.Tablet.Interleaving
import TabletDelta.Proofs.Tablet.Isolation
import TabletDelta.Proofs.Read.Base
import TabletDelta.Proofs.Read.Alignment
import TabletDelta.Proofs.Read.Overlaid
import TabletDelta.Proofs.Read.Columns
import TabletDelta.Proofs.Store.InsertOnce
import TabletDelta.Proofs.Bytes
import TabletDelta.Proofs.ChangeList.Codec
import TabletDelta.Proofs.Read.Calls
import TabletDelta.Proofs.Read.Outline
import TabletDelta.Proofs.Read.Split
import TabletDelta.Proofs.Txn.Resolution
import TabletDelta.Proofs.Read.CallOrder
import TabletDelta.Proofs.Wire.Reading
import TabletDelta.Proofs.Txn.Predicate
import TabletDelta.Proofs.Txn.IdSet
import TabletDelta.Proofs.Txn.Earliest
import TabletDelta.Proofs.Wire.Schema
import TabletDelta.Proofs.Read.Readable
import TabletDelta.Proofs.Read.LockStep
import TabletDelta.Proofs.ChangeList.Building
import TabletDelta.Proofs.Txn.Confluence
import TabletDelta.Proofs.ChangeList.LongestPrefix
import TabletDelta.Proofs.Arena.Accounting
import TabletDelta.Proofs.Read.AllOrNothing
import TabletDelta.Proofs.Read.Projecting
import TabletDelta.Proofs.Read.Grouping
import TabletDelta.Proofs.Read.LayeredOrder
import TabletDelta.Proofs.ChangeList.Text
import TabletDelta.Proofs.Arena.Schedule
