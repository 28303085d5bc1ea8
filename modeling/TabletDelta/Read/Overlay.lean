import TabletDelta.Read.Source

/-!
# Base data overlaid with deltas

An overlay reads base data and deltas side by side: each batch of blocks is filled with the base
values of its rows, and then the deltas are written over them. Both sides always have to be on the
same row. When one side fails after the other may have moved, they can no longer be trusted to be,
and the overlay is poisoned: it refuses every later call.
-/

namespace TabletDelta

/-- A reader of base data, whose rows do not change. -/
class BaseSource (β : Type) where
  /-- The number of rows. -/
  rows : β → Nat
  /-- Moves the reader to a row. -/
  seek : Row → β → Outcome β Unit
  /-- Writes a column's cells of the next rows into the first slots of a block, without moving. -/
  materialize : (column rows : Nat) → β → Target → Outcome (β × Target) Unit
  /-- Moves the reader past the next rows. -/
  advance : Nat → β → Outcome β Unit

/-- A block with the place of its arena in a list of arenas. Several blocks may share an arena. -/
structure BoundBlock where
  /-- The block. -/
  block : Block
  /-- The place of its arena. -/
  arena : Nat
deriving DecidableEq

/-- Whether an overlay can be used. -/
inductive OverlayPhase where
  /-- Not initialized yet. -/
  | fresh
  /-- Both sides are on the same row. -/
  | ready
  /-- A side has failed after the other may have moved. -/
  | poisoned
deriving DecidableEq, Repr

/-- Base data read together with deltas. -/
structure Overlay (β δ : Type) where
  /-- The reader of the base data. -/
  base : β
  /-- The deltas. -/
  deltas : δ
  /-- The row that both sides are on. -/
  row : Nat := 0
  /-- Whether a batch has been produced; from then on the overlay does not go back. -/
  producedAny : Bool := false
  /-- Whether the overlay can be used. -/
  phase : OverlayPhase := .fresh

namespace Overlay

variable {β δ ε : Type} [BaseSource β] [DeltaSource δ ε]

/-- Refuses a call on an overlay that is not initialized or is poisoned. -/
def checkUsable (call : Call) (o : Overlay β δ) : Except Error Unit :=
  match o.phase with
  | .fresh => .error (.invalidState (.tooEarly call .init))
  | .poisoned => .error (.invalidState (.poisoned call o.row))
  | .ready => .ok ()

/-- Moves both sides to a row: the deltas first, and then the base. -/
def seekSides (row : Row) (o : Overlay β δ) : Outcome (Overlay β δ) Unit :=
  match DeltaSource.seek row o.deltas with
  | ⟨.error e, deltas⟩ => .fail e { o with deltas, phase := .poisoned }
  | ⟨.ok (), deltas⟩ =>
    match BaseSource.seek row o.base with
    | ⟨.error e, base⟩ => .fail e { o with base, deltas, phase := .poisoned }
    | ⟨.ok (), base⟩ => .ok () { o with base, deltas, row := row.toNat }

/-- Moves the overlay to a row of the base or to its end, but never below rows it has produced. -/
def seek (row : Row) (o : Overlay β δ) : Outcome (Overlay β δ) Unit :=
  match o.checkUsable .seek with
  | .error e => .fail e o
  | .ok () =>
    if BaseSource.rows o.base < row.toNat then
      .fail (.invalidState (.seekPastEnd row (BaseSource.rows o.base))) o
    else if o.producedAny && row.toNat < o.row then
      .fail (.invalidState (.seekBack row o.row)) o
    else o.seekSides row

/-- Initializes the deltas and moves both sides to row 0. -/
def init (contents : ε) (o : Overlay β δ) : Outcome (Overlay β δ) Unit :=
  match DeltaSource.init contents o.deltas with
  | ⟨.error e, deltas⟩ => .fail e { o with deltas }
  | ⟨.ok (), deltas⟩ =>
    let phase := match o.phase with
      | .fresh => .ready
      | phase => phase
    seek 0 { o with deltas, phase }

/-- Whether there are rows left to produce. -/
def hasNext (o : Overlay β δ) : Bool :=
  o.phase = .ready && o.row < BaseSource.rows o.base

/-- Fills the blocks with the next rows, starting at the projected column `column` for the first
one: base values first, and the deltas over them. -/
def fillColumns (rows : Nat) :
    (column : Nat) → List BoundBlock → List Arena → Overlay β δ →
      Outcome (Overlay β δ × List BoundBlock × List Arena) Unit
  | _, [], arenas, o => .ok () (o, [], arenas)
  | column, b :: blocks, arenas, o =>
    match BaseSource.materialize column rows o.base ⟨b.block, arenas.getD b.arena default⟩ with
    | ⟨.error e, (base, target)⟩ =>
      .fail e ({ o with base }, ⟨target.block, b.arena⟩ :: blocks,
        arenas.set b.arena target.arena)
    | ⟨.ok (), (base, target)⟩ =>
      match DeltaSource.apply column o.deltas target with
      | ⟨.error e, (deltas, target)⟩ =>
        .fail e ({ o with base, deltas }, ⟨target.block, b.arena⟩ :: blocks,
          arenas.set b.arena target.arena)
      | ⟨.ok (), (deltas, target)⟩ =>
        (fillColumns rows (column + 1) blocks (arenas.set b.arena target.arena)
          { o with base, deltas }).mapState fun (o, blocks, arenas) =>
            (o, ⟨target.block, b.arena⟩ :: blocks, arenas)

/-- Fills the blocks with the next rows and moves both sides past them. -/
def fillBatch (contents : ε) (rows : Nat) (blocks : List BoundBlock) (arenas : List Arena)
    (o : Overlay β δ) : Outcome (Overlay β δ × List BoundBlock × List Arena) Unit :=
  match DeltaSource.prepare contents rows o.deltas with
  | ⟨.error e, deltas⟩ => .fail e ({ o with deltas }, blocks, arenas)
  | ⟨.ok (), deltas⟩ =>
    match fillColumns rows 0 blocks arenas { o with deltas } with
    | ⟨.error e, filled⟩ => .fail e filled
    | ⟨.ok (), (o, blocks, arenas)⟩ =>
      (BaseSource.advance rows o.base).mapState fun base => ({ o with base }, blocks, arenas)

/-- The number of rows of a batch: as many as the smallest block holds, and no more than are
left. -/
def batchRows (blocks : List BoundBlock) (left : Nat) : Nat :=
  (blocks.map (·.block.rows)).foldl min left

/-- Fills block `i` with projected column `i` for the next batch of rows and answers with the number
of rows, which is 0 at the end of the base. Slots after these rows stay as they were. -/
def next (contents : ε) (blocks : List BoundBlock) (arenas : List Arena) (o : Overlay β δ) :
    Outcome (Overlay β δ × List BoundBlock × List Arena) Nat :=
  match o.checkUsable .nextBlock with
  | .error e => .fail e (o, blocks, arenas)
  | .ok () =>
    let rows := batchRows blocks (BaseSource.rows o.base - o.row)
    if blocks.isEmpty then .fail (.invalidState .noBlocks) (o, blocks, arenas)
    else if rows = 0 then .ok 0 (o, blocks, arenas)
    else
      match fillBatch contents rows blocks arenas o with
      | ⟨.error e, (o, blocks, arenas)⟩ =>
        .fail e ({ o with phase := .poisoned }, blocks, arenas)
      | ⟨.ok (), (o, blocks, arenas)⟩ =>
        .ok rows ({ o with row := o.row + rows, producedAny := true }, blocks, arenas)

end Overlay

end TabletDelta
