import TabletDelta.Read.Source
import TabletDelta.Store
import TabletDelta.Txn.Snapshot

/-!
# Scans of a store

A scan reads the deltas of one store, as far as a snapshot sees them, for the columns of a
projection. Preparing a batch walks through the store's entries for the rows of the batch and keeps
the cells assigned to projected columns in the order in which they were met: row by row, within a
row by transaction, and within a transaction in the order of its change list. Writing them in this
order leaves the last one standing.

Rows are counted by natural numbers here, since a scan may move past the last row that a store can
have deltas for; the count stops at `maxPosition`.
-/

namespace TabletDelta

/-- A cell selected for the prepared batch. -/
structure Write where
  /-- The projected column. -/
  column : Nat
  /-- The row, counted from the start of the batch. -/
  offset : Nat
  /-- The cell. -/
  value : Cell
deriving DecidableEq, Repr

/-- How far a scan has come in the order of calls. -/
inductive ScanPhase where
  /-- Not bound to the store yet. -/
  | fresh
  /-- Bound to the store, but on no row. -/
  | bound
  /-- On a row, without a batch. -/
  | positioned
  /-- On a row, behind a batch of `rows` rows with the cells selected for it. -/
  | prepared (rows : Nat) (writes : List Write)
deriving DecidableEq, Repr

/-- A walk through the deltas of a store. -/
structure Scan where
  /-- The columns read. -/
  projection : Schema
  /-- The transactions seen. -/
  snapshot : Snapshot
  /-- What has been called so far. -/
  phase : ScanPhase := .fresh
  /-- For each column of the store the projected column it feeds, if there is one. -/
  routes : List (Option Nat) := []
  /-- The row that the next batch starts at. -/
  position : Nat := 0
  /-- The end of the batch prepared last, below which the scan does not go back. -/
  reached : Option Nat := none
deriving DecidableEq

namespace Scan

/-- Positions are counted up to here. -/
def maxPosition : Nat := UInt64.size - 1

/-- A scan of the columns of a projection, as far as a snapshot sees them. It is bound to a store
only by `init`, so any projection will do here. -/
def start (projection : Schema) (snapshot : Snapshot) : Scan := { projection, snapshot }

/-- The column of the store that feeds a projected column: the one of its name, which has to be of
its type. -/
def feeder (schema : Schema) (column : Column) : Except Error Nat :=
  match schema.indexOf? column.name with
  | none => .error (.projection (.notInStore column.name))
  | some index =>
    match schema.column index with
    | .error e => .error e
    | .ok stored =>
      if stored.type = column.type then .ok index
      else .error (.projection (.otherType column.name stored.type column.type))

/-- Routes columns of the store to projected columns, of which `index` is the first one given, in
place of the routes that they had. -/
def routeColumns (schema : Schema) :
    (index : Nat) → List Column → List (Option Nat) → Except Error (List (Option Nat))
  | _, [], routes => .ok routes
  | index, column :: columns, routes =>
    match feeder schema column with
    | .error e => .error e
    | .ok stored => routeColumns schema (index + 1) columns (routes.set stored (some index))

/-- Binds the scan to a store of a schema: every projected column has to be there, with its type. -/
def init (schema : Schema) (s : Scan) : Outcome Scan Unit :=
  if s.phase = .fresh then
    match routeColumns schema 0 s.projection.columns (List.replicate schema.size none) with
    | .error e => .fail e s
    | .ok routes => .ok () { s with phase := .bound, routes }
  else .fail (.invalidState .alreadyInitialized) s

/-- Moves the scan to a row, which must not be below the end of a batch it has prepared. -/
def seek (row : Row) (s : Scan) : Outcome Scan Unit :=
  if s.phase = .fresh then .fail (.invalidState (.tooEarly .seek .init)) s
  else
    match s.reached with
    | some reached =>
      if row.toNat < reached then .fail (.invalidState (.seekBehindBatch row reached)) s
      else .ok () { s with phase := .positioned, position := row.toNat }
    | none => .ok () { s with phase := .positioned, position := row.toNat }

/-- The projected column that a column of the store feeds. -/
def route (s : Scan) (column : Nat) : Option Nat := s.routes[column]?.join

/-- The cells that an entry assigns to projected columns. -/
def select (schema : Schema) (s : Scan) (e : Entry) : Except CorruptionFault (List Write) :=
  (ChangeList.assignments schema e.changes).map fun assigned =>
    assigned.filterMap fun a =>
      (s.route a.column).map fun column => ⟨column, e.key.row.toNat - s.position, a.value⟩

/-- The cells that the entries seen by the snapshot assign to projected columns. -/
def selectAll (schema : Schema) (s : Scan) (entries : List Entry) :
    Except CorruptionFault (List Write) :=
  ((entries.filter fun e => s.snapshot.isCommitted e.key.txid).mapM (s.select schema)).map
    List.flatten

/-- Selects the deltas of the next rows from the store as it is now and moves past these rows. If an
entry cannot be read, the scan stays on its row and has no batch. -/
def prepare (store : Store) (rows : Nat) (s : Scan) : Outcome Scan Unit :=
  match s.phase with
  | .fresh | .bound => .fail (.invalidState (.tooEarly .prepareBatch .seek)) s
  | .positioned | .prepared _ _ =>
    let stop := min (s.position + rows) maxPosition
    -- The store is looked at now: entries that came after `init` or an earlier batch count too.
    match s.selectAll store.schema (store.range s.position stop) with
    | .ok writes =>
      .ok () { s with phase := .prepared rows writes, position := stop, reached := some stop }
    | .error fault => .fail (.corruption fault) { s with phase := .positioned }

/-- Writes the selected cells of a projected column to a block of its type that has a slot for every
row of the batch. -/
def apply (column : Nat) (s : Scan) (target : Target) : Outcome Target Unit :=
  match s.phase with
  | .prepared rows writes =>
    match s.projection.column column with
    | .error e => .fail e target
    | .ok c =>
      if c.type ≠ target.block.type then
        .fail (.typeMismatch (.target c.name c.type target.block.type)) target
      else if target.block.rows < rows then
        .fail (.invalidState (.shortBlock target.block.rows rows)) target
      else
        target.writeAll ((writes.filter (·.column = column)).map fun w => (w.offset, w.value))
  | _ => .fail (.invalidState (.tooEarly .applyUpdates .prepareBatch)) target

/-- The number of rows of the prepared batch. -/
def preparedRows (s : Scan) : Nat :=
  match s.phase with
  | .prepared rows _ => rows
  | _ => 0

instance : DeltaSource Scan Store where
  init store s := s.init store.schema
  seek row s := s.seek row
  prepare store rows s := s.prepare store rows
  apply column s target := (s.apply column target).mapState fun written => (s, written)

end Scan

end TabletDelta
