import TabletDelta.Txn.Ledger

/-!
# Guarded transactions

A guard stands for one transaction that its holder has begun and has to give up in one of three
ways: by committing it, by aborting it, or by letting go of it, which aborts it unless it has been
resolved behind the guard's back. A guard is not to be used again after any of the three, and each
of them ends with the release of the guard, which is told whether its holder has finished with the
transaction.
-/

namespace TabletDelta

/-- The holder's handle of one transaction. -/
structure Guard where
  /-- The transaction held. -/
  txid : Txid
deriving DecidableEq, Repr

namespace Guard

/-- Begins a transaction under a guard. -/
def begin (l : Ledger) : Guard × Ledger :=
  let (txid, begun) := l.begin
  (⟨txid⟩, begun)

/-- What becomes of the ledger when a guard goes away. If its holder has not finished with the
transaction, it is to be aborted, and it is not reported if this fails. -/
def release (g : Guard) (finished : Bool) (l : Ledger) : Ledger :=
  if finished then l else (l.abort g.txid).state

/-- Commits the guarded transaction. -/
def commit (g : Guard) (l : Ledger) : Outcome Ledger Unit :=
  (l.commit g.txid).mapState (g.release true)

/-- Aborts the guarded transaction. -/
def abort (g : Guard) (l : Ledger) : Outcome Ledger Unit :=
  (l.abort g.txid).mapState (g.release true)

/-- Lets go of the guard. -/
def drop (g : Guard) (l : Ledger) : Ledger := g.release false l

end Guard

end TabletDelta
