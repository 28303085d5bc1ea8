import TabletDelta.Block

/-!
# Sources of deltas

A source of deltas is read in batches of consecutive rows. It is initialized once and then put on a
row by `seek`. Each `prepare` selects the deltas of the next rows and moves past them, and each
`apply` writes the selected cells of one column over the cells in a block, slot `i` of which stands
for the `i`-th row of the batch.

What a source reads from is not part of it: stores go on changing while they are read, so the calls
that look into one are given its present state.
-/

namespace TabletDelta

/-- The calls that read a source of deltas. The sources of type `σ` read from contents of type `ε`.
A call answers with the source as it is afterwards, also when it fails. -/
class DeltaSource (σ : Type) (ε : outParam Type) where
  /-- Binds the source to its columns, once. -/
  init : ε → σ → Outcome σ Unit
  /-- Moves the source to a row. -/
  seek : Row → σ → Outcome σ Unit
  /-- Selects the deltas of the next rows and moves past these rows. -/
  prepare : ε → Nat → σ → Outcome σ Unit
  /-- Writes the selected cells of a column. -/
  apply : Nat → σ → Target → Outcome (σ × Target) Unit

/-- A source that reads one member of a family of contents, the one named by a key. -/
structure At (κ σ : Type) where
  /-- The name of the contents read. -/
  key : κ
  /-- The source. -/
  source : σ
deriving DecidableEq

namespace At

variable {κ σ ε : Type} [DeltaSource σ ε]

instance : DeltaSource (At κ σ) (κ → ε) where
  init contents a := (DeltaSource.init (contents a.key) a.source).mapState (⟨a.key, ·⟩)
  seek row a := (DeltaSource.seek row a.source).mapState (⟨a.key, ·⟩)
  prepare contents rows a :=
    (DeltaSource.prepare (contents a.key) rows a.source).mapState (⟨a.key, ·⟩)
  apply column a target :=
    (DeltaSource.apply column a.source target).mapState fun (s, t) => (⟨a.key, s⟩, t)

end At

end TabletDelta
