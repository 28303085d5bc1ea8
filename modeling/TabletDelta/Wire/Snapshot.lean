import TabletDelta.Txn.Snapshot
import TabletDelta.Wire.Basic

/-!
# The wire form of snapshots

A snapshot is its watermark, the list of its commits and the list of its aborts. The commits have to
be in strictly increasing order; the aborts may come in any order and more than once.
-/

namespace TabletDelta

namespace WireReader

/-- Reads a transaction. -/
def txid : WireReader Txid := UInt64.ofNat <$> number 8

end WireReader

/-- The wire form of a transaction. -/
def wireTxid (t : Txid) : Bytes := littleEndian 8 t.toNat

namespace TxidSet

/-- The set of the members of a strictly increasing list, or the first pair of neighbours that are
in another order. -/
def ofIncreasing (ids : List Txid) : Except WireFault TxidSet :=
  match h : firstDescent ids with
  | none => .ok ⟨ids, firstDescent_eq_none_iff.1 h⟩
  | some (previous, next) => .error (.commitOrder previous next)

end TxidSet

namespace Wire

instance : Wire Snapshot where
  encode s := wireTxid s.watermark ++ wireList wireTxid s.committed.ids ++
    wireList wireTxid s.aborted.ids
  reader := do
    let watermark ← WireReader.txid
    let commits ← WireReader.list WireReader.txid
    let aborts ← WireReader.list WireReader.txid
    match TxidSet.ofIncreasing commits with
    | .ok committed => pure ⟨watermark, committed, .ofList aborts⟩
    | .error fault => throw fault

end Wire

end TabletDelta
