import TabletDelta.Outcome
import TabletDelta.Txn.Snapshot

/-!
# The ledger of transactions

The ledger numbers transactions from 1 upwards and keeps what became of each. A transaction is in
flight until it is committed or aborted, once. The least transaction in flight is the watermark, and
below it everything is resolved, so the ledger forgets the commits there: what is not aborted below
the watermark has committed.
-/

namespace TabletDelta

/-- What has become of every transaction begun. -/
structure Ledger where
  /-- The number that the next transaction gets. -/
  next : Txid
  /-- The transactions not resolved yet. -/
  inFlight : TxidSet
  /-- The committed transactions that are not below the watermark. -/
  committed : TxidSet
  /-- All aborted transactions. -/
  aborted : TxidSet
deriving DecidableEq

namespace Ledger

/-- The number of the first transaction. No transaction has number 0. -/
def firstTxid : Txid := 1

/-- The ledger before the first transaction. -/
def empty : Ledger := ⟨firstTxid, .empty, .empty, .empty⟩

/-- The least transaction that is not resolved; the next one if all are. -/
def watermark (l : Ledger) : Txid := l.inFlight.min?.getD l.next

/-- Begins a transaction. -/
def begin (l : Ledger) : Txid × Ledger :=
  (l.next, { l with next := l.next + 1, inFlight := l.inFlight.insert l.next })

/-- Takes a transaction out of flight, and fails if it was not there. -/
def finish (l : Ledger) (t : Txid) : Outcome Ledger Unit :=
  match l.inFlight.remove t with
  | (false, inFlight) => .fail (.notInFlight t) { l with inFlight }
  | (true, inFlight) => .ok () { l with inFlight }

/-- Forgets the commits below the watermark. -/
def prune (l : Ledger) : Ledger := { l with committed := l.committed.atLeast l.watermark }

/-- Commits a transaction in flight. -/
def commit (l : Ledger) (t : Txid) : Outcome Ledger Unit :=
  match l.finish t with
  | ⟨.error e, l⟩ => .fail e l
  | ⟨.ok (), l⟩ => .ok () { l with committed := l.committed.insert t }.prune

/-- Aborts a transaction in flight. -/
def abort (l : Ledger) (t : Txid) : Outcome Ledger Unit :=
  match l.finish t with
  | ⟨.error e, l⟩ => .fail e l
  | ⟨.ok (), l⟩ => .ok () { l with aborted := l.aborted.insert t }.prune

/-- The snapshot of what is committed now. -/
def snapshot (l : Ledger) : Snapshot := ⟨l.watermark, l.committed, l.aborted⟩

/-- Whether a transaction is committed now. -/
def isCommitted (l : Ledger) (t : Txid) : Bool :=
  if t < l.watermark then !l.aborted.contains t else l.committed.contains t

/-- The number of transactions in flight. -/
def inFlightCount (l : Ledger) : Nat := l.inFlight.size

end Ledger

end TabletDelta
