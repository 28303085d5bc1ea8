/-!
# Rows, transactions and the keys of deltas

A delta is what one transaction changed in one row, so the pair of the two names it. Keys are
ordered by row first and by transaction second: a walk in key order meets the deltas of a row
together, the oldest transaction first.
-/

namespace TabletDelta

/-- The ordinal of a row in the base data that deltas refer to. -/
abbrev Row := UInt32

/-- The number of a transaction; later transactions have larger numbers. -/
abbrev Txid := UInt64

/-- The row and the transaction of a delta. -/
structure Key where
  /-- The row changed. -/
  row : Row
  /-- The transaction that changed it. -/
  txid : Txid
deriving DecidableEq, Repr

namespace Key

/-- Keys are ordered by row, and within a row by transaction. -/
instance : LT Key where
  lt a b := a.row < b.row ∨ a.row = b.row ∧ a.txid < b.txid

instance (a b : Key) : Decidable (a < b) :=
  inferInstanceAs (Decidable (a.row < b.row ∨ a.row = b.row ∧ a.txid < b.txid))

end Key

end TabletDelta
