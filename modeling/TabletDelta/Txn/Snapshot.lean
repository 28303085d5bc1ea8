import TabletDelta.Txn.IdSet

/-!
# Snapshots

A snapshot is a fixed decision on which transactions a reader sees. It was taken when every
transaction below its watermark had been resolved, so of those it names the aborted ones; of the
others it names the ones that had committed.
-/

namespace TabletDelta

/-- A fixed set of transactions, those whose changes a reader sees. -/
structure Snapshot where
  /-- Every transaction below this one is resolved. -/
  watermark : Txid
  /-- The transactions seen among those not below the watermark. -/
  committed : TxidSet
  /-- The aborted transactions. -/
  aborted : TxidSet
deriving DecidableEq

namespace Snapshot

/-- The snapshot that sees every transaction below the last possible number. -/
def includingAll : Snapshot := ⟨0xffffffffffffffff, .empty, .empty⟩

/-- The snapshot that sees no transaction. -/
def includingNone : Snapshot := ⟨0, .empty, .empty⟩

/-- Whether a transaction is seen. -/
def isCommitted (s : Snapshot) (t : Txid) : Bool :=
  if t < s.watermark then !s.aborted.contains t else s.committed.contains t

/-- Whether `a` is the narrower of two snapshots: its watermark is lower, or the watermarks agree
and it names fewer commits. -/
def narrower (a b : Snapshot) : Bool :=
  a.watermark < b.watermark ||
    (a.watermark == b.watermark && a.committed.size < b.committed.size)

/-- The narrower of two snapshots, the first if neither is. -/
def earliest (a b : Snapshot) : Snapshot := if b.narrower a then b else a

/-- A snapshot as text, as the set of the transactions that it sees. -/
def text (s : Snapshot) : String :=
  "Snapshot[committed=\x7bT|T < " ++ toString s.watermark.toNat ++
    (if s.aborted.isEmpty then "" else " and T not in \x7b" ++ s.aborted.text ++ "\x7d") ++
    (if s.committed.isEmpty then "" else " or (T in \x7b" ++ s.committed.text ++ "\x7d)") ++
    "\x7d]"

end Snapshot

end TabletDelta
