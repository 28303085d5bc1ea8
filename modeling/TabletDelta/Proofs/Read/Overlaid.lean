import TabletDelta.Proofs.Read.Alignment

/-!
# What an overlay produces

An overlay of reliable base data and a scan produces, for each row, the last delta that the scan's
snapshot sees, or else the base value (`overlaid`). How the rows are cut into batches makes no
difference: the value of a slot depends on its row and column only. `fillColumns_fills` shows this
for the blocks of one call, and `scan_overlays` for all calls of a run, with the number of rows that
each of them produces.
-/

namespace TabletDelta

/-- The cell of a projected column in a row, where deltas lie over base data: the last value that
the deltas seen give it, or else the value in the base. -/
def overlaid (schema projection : Schema) (deltas : List Entry) (sees : Txid → Bool)
    (base : List Block) (column row : Nat) : Option Cell :=
  ((schema.source? projection column).bind (latest schema deltas sees row)).or
    (base[column]?.bind fun values => values.cells[row]?)

namespace Overlay

/-- The cells of a batch by column and slot: those of the rows from `row` on in the first `n` slots,
and none for the other slots. -/
def batchValue (schema projection : Schema) (deltas : List Entry) (sees : Txid → Bool)
    (base : List Block) (row n column slot : Nat) : Option Cell :=
  if slot < n then overlaid schema projection deltas sees base column (row + slot) else none

/-- Each block of a list, for the columns from `column` on, was overwritten with its column's
values. -/
structure Filled (value : Nat → Nat → Option Cell) (column : Nat)
    (before after : List BoundBlock) : Prop where
  /-- No block is added or dropped. -/
  length_eq : after.length = before.length
  /-- Each block holds the values of its column, and what it held before where there are none. -/
  overwritten : ∀ (j : Nat) (b : BoundBlock), before[j]? = some b → ∃ b' : BoundBlock,
    after[j]? = some b' ∧ b'.arena = b.arena ∧ b.block.Overwritten b'.block (value (column + j))

/-- Some arena has a limit. -/
def Limited (arenas : List Arena) : Prop := ∃ a ∈ arenas, a.config.limit ≠ none

/-- Blocks are filled one by one. -/
theorem Filled.cons {value : Nat → Nat → Option Cell} {column : Nat} {b b' : BoundBlock}
    {bs bs' : List BoundBlock} (harena : b'.arena = b.arena)
    (hblock : b.block.Overwritten b'.block (value column)) (h : Filled value (column + 1) bs bs') :
    Filled value column (b :: bs) (b' :: bs') := by
  refine ⟨congrArg (· + 1) h.length_eq, fun j c hc => ?_⟩
  cases j with
  | zero =>
    rw [List.getElem?_cons_zero, Option.some_inj] at hc
    subst hc
    exact ⟨b', rfl, harena, hblock⟩
  | succ j =>
    rw [List.getElem?_cons_succ] at hc
    have hj := h.overwritten j c hc
    rwa [Nat.add_right_comm, Nat.add_assoc] at hj

/-- The arena of a block has a limit only if some arena has one. -/
theorem limited_of_getD {arenas : List Arena} {i : Nat}
    (h : (arenas.getD i default).config.limit ≠ none) : Limited arenas := by
  rw [List.getD_eq_getElem?_getD] at h
  cases harena : arenas[i]? with
  | none =>
    rw [harena] at h
    exact absurd rfl h
  | some a =>
    rw [harena] at h
    exact ⟨a, List.mem_of_getElem? harena, h⟩

/-- Putting an arena back with the limit that it had limits none. -/
theorem limited_of_set {arenas : List Arena} {i : Nat} {a : Arena}
    (ha : a.config = (arenas.getD i default).config) (h : Limited (arenas.set i a)) :
    Limited arenas := by
  obtain ⟨c, hc, hlimit⟩ := h
  rcases List.mem_or_eq_of_mem_set hc with hmem | rfl
  · exact ⟨c, hmem, hlimit⟩
  · rw [ha] at hlimit
    exact limited_of_getD hlimit

variable {β : Type} [BaseSource β] {cursor : β → Nat} {data : β → List Block}
  {schema : Schema} {deltas : List Entry} {row n : Nat} {writes : List Write}

/-! ## One call -/

/-- A block fits a column of base data and projection if it is of the type of both and has a slot
for each row of the batch. -/
structure Fits (projection : Schema) (base : List Block) (n column : Nat) (b : Block) : Prop where
  /-- The projected column is there, with the block's type. -/
  projected : ∃ c, projection.columns[column]? = some c ∧ b.type = c.type
  /-- The column of the base is there, with the block's type. -/
  based : ∃ values, base[column]? = some values ∧ b.type = values.type
  /-- There is a slot for each row. -/
  rows_le : n ≤ b.rows

/-- A column is filled by copying its base values and writing its deltas over them. Both succeed
unless the arena is exhausted, and together they leave the overlaid values. -/
theorem column_filled (hbase : BaseSource.Reliable cursor data) {b : β} {s : Scan}
    (hserves : s.Serves schema deltas row n writes) (hcursor : cursor b = row)
    (hend : row + n ≤ BaseSource.rows b) (column : Nat) (target : Target)
    (hfits : Fits s.projection (data b) n column target.block) :
    (BaseSource.materialize column n b target).result = .ok () ∧
        (s.apply column (BaseSource.materialize column n b target).state.2).result = .ok () ∧
        target.block.Overwritten
          (s.apply column (BaseSource.materialize column n b target).state.2).state.block
          (batchValue schema s.projection deltas s.snapshot.isCommitted (data b) row n column) ∨
      target.arena.config.limit ≠ none ∧ ∃ requested limit,
        (BaseSource.materialize column n b target).result =
            .error (.arenaExhausted requested limit) ∨
          (BaseSource.materialize column n b target).result = .ok () ∧
            (s.apply column (BaseSource.materialize column n b target).state.2).result =
              .error (.arenaExhausted requested limit) := by
  obtain ⟨c, hc, hctype⟩ := hfits.projected
  obtain ⟨values, hvalues, hvtype⟩ := hfits.based
  subst hcursor
  have hconfig := hbase.materialize_config column n b target
  have hcopies := hbase.materialize_overwrites column n b target values hvalues hend
  rcases hbase.materialize_result column n b target values hvalues hvtype hfits.rows_le hend with
    hcopied | ⟨hlimit, requested, limit, hcopied⟩
  · have hcopies := hcopies hcopied
    generalize BaseSource.materialize column n b target = copied at hconfig hcopies hcopied
    have htype : copied.state.2.block.type = c.type := hcopies.type_eq.trans hctype
    have hrows : n ≤ copied.state.2.block.rows := hcopies.rows_eq ▸ hfits.rows_le
    rcases hserves.apply_result hc htype hrows with
      hwritten | ⟨-, hlimit, requested, limit, hwritten⟩
    · refine .inl ⟨hcopied, hwritten, ?_⟩
      obtain ⟨source, hsource, -, hwrites⟩ := hserves.apply_overwrites hwritten
      -- Of the two writes to a slot, the delta comes second.
      refine (hcopies.trans hwrites).congr fun slot _ => ?_
      unfold batchValue overlaid
      rw [hsource, hvalues]
      by_cases hslot : slot < n
      · rw [if_pos hslot, if_pos hslot, if_pos hslot]
        rfl
      · rw [if_neg hslot, if_neg hslot, if_neg hslot]
        rfl
    · rw [hconfig] at hlimit
      exact .inr ⟨hlimit, requested, limit, .inr ⟨hcopied, hwritten⟩⟩
  · exact .inr ⟨hlimit, requested, limit, .inl hcopied⟩

/-- Blocks that fit are all filled, unless an arena is exhausted. -/
theorem fillColumns_fills (hbase : BaseSource.Reliable cursor data) (column : Nat)
    (blocks : List BoundBlock) (arenas : List Arena) (o : Overlay β Scan)
    (hserves : o.deltas.Serves schema deltas row n writes) (hcursor : cursor o.base = row)
    (hend : row + n ≤ BaseSource.rows o.base)
    (hfits : ∀ (j : Nat) (b : BoundBlock), blocks[j]? = some b →
      Fits o.deltas.projection (data o.base) n (column + j) b.block) :
    (fillColumns n column blocks arenas o).result = .ok () ∧
        data (fillColumns n column blocks arenas o).state.1.base = data o.base ∧
        Filled (batchValue schema o.deltas.projection deltas o.deltas.snapshot.isCommitted
          (data o.base) row n) column blocks (fillColumns n column blocks arenas o).state.2.1 ∨
      Limited arenas ∧ ∃ requested limit,
        (fillColumns n column blocks arenas o).result =
          .error (.arenaExhausted requested limit) := by
  induction blocks generalizing column arenas o with
  | nil => exact .inl ⟨rfl, rfl, rfl, fun j b hb => by cases hb⟩
  | cons b blocks ih =>
    rw [fillColumns_cons]
    have hfirst : Fits o.deltas.projection (data o.base) n column b.block := hfits 0 b rfl
    have hfilled := column_filled hbase hserves hcursor hend column
      ⟨b.block, arenas.getD b.arena default⟩ hfirst
    have hrows := hbase.materialize_rows column n o.base ⟨b.block, arenas.getD b.arena default⟩
    have hmoved := hbase.materialize_cursor column n o.base ⟨b.block, arenas.getD b.arena default⟩
    have hdata := hbase.materialize_data column n o.base ⟨b.block, arenas.getD b.arena default⟩
    have hconfig := hbase.materialize_config column n o.base ⟨b.block, arenas.getD b.arena default⟩
    generalize BaseSource.materialize column n o.base ⟨b.block, arenas.getD b.arena default⟩ =
      copied at hfilled hrows hmoved hdata hconfig
    dsimp only
    rcases hfilled with ⟨hcopied, hwritten, hover⟩ | ⟨hlimit, requested, limit, hfailed⟩
    · rw [hcopied, hwritten]
      have hkept := (o.deltas.apply_written column copied.state.2).config_eq.trans hconfig
      -- The rest starts from the base after copying, on the same row and with the same data.
      have hothers : ∀ (j : Nat) (c : BoundBlock), blocks[j]? = some c →
          Fits o.deltas.projection (data copied.state.1) n (column + 1 + j) c.block := by
        intro j c hc
        rw [hdata, Nat.add_assoc, Nat.add_comm 1 j]
        exact hfits (j + 1) c hc
      rcases ih (column + 1) (arenas.set b.arena (o.deltas.apply column copied.state.2).state.arena)
        { o with base := copied.state.1 } hserves ((hmoved hcopied).trans hcursor)
        (hend.trans_eq hrows.symm) hothers with
        ⟨hok, hkeeps, hfills⟩ | ⟨hlimited, requested, limit, hfailed⟩
      · refine .inl ⟨hok, hkeeps.trans hdata, ?_⟩
        rw [hdata] at hfills
        exact .cons rfl hover hfills
      · exact .inr ⟨limited_of_set hkept hlimited, requested, limit, hfailed⟩
    · refine .inr ⟨limited_of_getD hlimit, requested, limit, ?_⟩
      rcases hfailed with hcopied | ⟨hcopied, hwritten⟩
      · rw [hcopied]
        rfl
      · rw [hcopied, hwritten]
        rfl

/-! ## Runs -/

/-- The row of an overlay after a call: a seek that succeeds sets it, and a batch adds to it. -/
def rowAfterCall (row : Nat) : Event Op Reply → Nat
  | ⟨.seek dest, .moved (.ok ())⟩ => dest.toNat
  | ⟨_, .produced (.ok n) _ _⟩ => row + n
  | _ => row

/-- The row of an overlay after calls that follow its initialization. -/
def rowAfter (events : History) : Nat := events.foldl rowAfterCall 0

/-- A ready overlay of the data of a base and the deltas of a scan. -/
structure Serving (cursor : β → Nat) (data : β → List Block) (schema projection : Schema)
    (snapshot : Snapshot) (base : β) (row : Nat) (o : Overlay β Scan) : Prop where
  /-- Both sides are on the same row. -/
  aligned : o.Aligned cursor schema
  /-- The overlay can be used. -/
  ready : o.phase = .ready
  /-- The overlay is on the row. -/
  row_eq : o.row = row
  /-- The base still has its rows. -/
  rows_eq : BaseSource.rows o.base = BaseSource.rows base
  /-- The base still has its data. -/
  data_eq : data o.base = data base
  /-- The scan reads the projection. -/
  projection_eq : o.deltas.projection = projection
  /-- The scan sees what the snapshot sees. -/
  snapshot_eq : o.deltas.snapshot = snapshot

/-- Base data covers a projection if each projected column has a column of its type in its place. -/
def Covers (base : List Block) (projection : Schema) : Prop :=
  ∀ (j : Nat) (c : Column), projection.columns[j]? = some c →
    ∃ values, base[j]? = some values ∧ values.type = c.type

/-- The call can be expected to succeed: its store is reachable, and the blocks that it gives are of
the types of the projected columns, and its arenas have no limit, or at least were not exhausted. -/
def Expected (schema projection : Schema) (e : Event Op Reply) : Prop :=
  (∀ store ∈ e.call.store?, store.Reachable schema) ∧
    (∀ (j : Nat) (b : BoundBlock), e.call.given.1[j]? = some b →
      ∃ c, projection.columns[j]? = some c ∧ b.block.type = c.type) ∧
    ((∀ a ∈ e.call.given.2, a.config.limit = none) ∨
      ∀ requested limit, e.answer.error? ≠ some (.arenaExhausted requested limit))

variable {projection : Schema} {snapshot : Snapshot} {base : β} {o : Overlay β Scan}

/-- Moving both sides of an overlay of reliable data succeeds. -/
theorem seekSides_serves (hbase : BaseSource.Reliable cursor data) (dest : Row)
    (hready : o.phase = .ready) (hsound : o.deltas.Sound schema) (hfresh : o.deltas.phase ≠ .fresh)
    (hrow : ∀ r, o.deltas.reached = some r → r ≤ dest.toNat)
    (hunread : o.producedAny = false → o.deltas.reached = none)
    (hle : dest.toNat ≤ BaseSource.rows o.base) :
    (o.seekSides dest).result = .ok () ∧
      Serving cursor data schema o.deltas.projection o.deltas.snapshot o.base dest.toNat
        (o.seekSides dest).state := by
  have haligned :=
    (seekSides_aligned hbase.toCursor dest hready hsound hfresh hrow hunread hle).1
  have hrows := hbase.seek_rows dest o.base
  have hdata := hbase.seek_data dest o.base
  have hok := hbase.seek_ok dest o.base hle
  rw [seekSides_eq hfresh hrow] at haligned ⊢
  cases hseek : BaseSource.seek dest o.base with
  | mk result moved =>
    rw [hseek] at hrows hdata hok haligned
    dsimp only at hok
    subst hok
    exact ⟨rfl, haligned, hready, rfl, hrows, hdata, rfl, rfl⟩

/-- A seek leaves an overlay on the row that it is sent to, or where it is. -/
theorem Serving.seek (h : Serving cursor data schema projection snapshot base row o)
    (hbase : BaseSource.Reliable cursor data) (dest : Row) :
    Serving cursor data schema projection snapshot base
      (rowAfterCall row ⟨.seek dest, .moved (o.seek dest).result⟩) (o.seek dest).state := by
  rcases h.aligned.seek_cases dest with ⟨fault, hrefused⟩ | ⟨hready, hle, hrow, hsides⟩
  · rw [hrefused]
    exact h
  · obtain ⟨hok, hserving⟩ := seekSides_serves hbase dest hready h.aligned.sound
      (h.aligned.not_fresh hready) hrow (h.aligned.synced hready).unread hle
    rw [hsides, hok]
    exact ⟨hserving.aligned, hserving.ready, hserving.row_eq, hserving.rows_eq.trans h.rows_eq,
      hserving.data_eq.trans h.data_eq, hserving.projection_eq.trans h.projection_eq,
      hserving.snapshot_eq.trans h.snapshot_eq⟩

/-- A new overlay of a base and a new scan. -/
def start (base : β) (projection : Schema) (snapshot : Snapshot) : Overlay β Scan :=
  { base, deltas := .start projection snapshot }

/-- A new overlay whose projection is accepted is initialized, on row 0. -/
theorem serving_init (hbase : BaseSource.Reliable cursor data) (base : β) {store : Store}
    (hschema : store.schema = schema) {bound : Scan}
    (haccepted : (Scan.start projection snapshot).init schema = .ok () bound) :
    ((start base projection snapshot).init store).result = .ok () ∧
      Serving cursor data schema projection snapshot base 0
        ((start base projection snapshot).init store).state := by
  obtain ⟨-, hafter, hbound⟩ := Scan.init_eq_ok haccepted
  have hsound : bound.Sound schema := by
    refine ⟨fun _ => hbound, fun h => ?_, fun r hr => ?_⟩
    · rw [hafter] at h
      cases h
    · rw [hafter] at hr
      cases hr
  have hfresh : bound.phase ≠ .fresh := by
    rw [hafter]
    exact ScanPhase.noConfusion
  have hreached : bound.reached = none := by rw [hafter]; rfl
  rw [← hschema] at haccepted
  rw [init_eq (o := start base projection snapshot) rfl rfl haccepted]
  obtain ⟨hok, hserving⟩ := seekSides_serves
    (o := { start base projection snapshot with deltas := bound, phase := .ready }) hbase 0 rfl
    hsound hfresh (fun r hr => by rw [hreached] at hr; cases hr) (fun _ => hreached) (Nat.zero_le _)
  refine ⟨hok, hserving.aligned, hserving.ready, hserving.row_eq, hserving.rows_eq,
    hserving.data_eq, hserving.projection_eq.trans ?_, hserving.snapshot_eq.trans ?_⟩
  · rw [hafter]
    rfl
  · rw [hafter]
    rfl

/-- Blocks of the types of the projected columns, with a slot for each row of a batch, are filled
with the next rows of a serving overlay, unless an arena is exhausted. -/
theorem Serving.fill (h : Serving cursor data schema projection snapshot base row o)
    (hbase : BaseSource.Reliable cursor data) (hcovers : Covers (data base) projection)
    {store : Store} (hstore : store.Holds schema deltas) {blocks : List BoundBlock}
    (htypes : ∀ (j : Nat) (b : BoundBlock), blocks[j]? = some b →
      ∃ c, projection.columns[j]? = some c ∧ b.block.type = c.type)
    (hslots : ∀ b ∈ blocks, n ≤ b.block.rows) (hend : row + n ≤ BaseSource.rows base)
    (arenas : List Arena) {filled : Outcome (Overlay β Scan × List BoundBlock × List Arena) Unit}
    (hfilled : fillColumns n 0 blocks arenas { o with deltas := o.deltas.behind schema store n } =
      filled) :
    filled.result = .ok () ∧ data filled.state.1.base = data base ∧
        Filled (batchValue schema projection deltas snapshot.isCommitted (data base) row n) 0
          blocks filled.state.2.1 ∨
      Limited arenas ∧ ∃ requested limit,
        filled.result = .error (.arenaExhausted requested limit) := by
  have hsynced := h.aligned.synced h.ready
  have hbound := h.aligned.sound.bound (h.aligned.not_fresh h.ready)
  have hserves := Scan.behind_serves hbound hstore n
  rw [hsynced.deltas_eq, h.row_eq] at hserves
  have hfits : ∀ (j : Nat) (b : BoundBlock), blocks[j]? = some b →
      Fits o.deltas.projection (data o.base) n (0 + j) b.block := by
    intro j b hb
    obtain ⟨c, hc, htype⟩ := htypes j b hb
    obtain ⟨values, hvalues, hvtype⟩ := hcovers j c hc
    rw [Nat.zero_add, h.projection_eq, h.data_eq]
    exact ⟨⟨c, hc, htype⟩, ⟨values, hvalues, htype.trans hvtype.symm⟩,
      hslots b (List.mem_of_getElem? hb)⟩
  have hfills := fillColumns_fills hbase 0 blocks arenas
    { o with deltas := o.deltas.behind schema store n } hserves
    (hsynced.base_eq.trans h.row_eq) (hend.trans_eq h.rows_eq.symm) hfits
  have hprojection : (o.deltas.behind schema store n).projection = projection := h.projection_eq
  have hsnapshot : (o.deltas.behind schema store n).snapshot = snapshot := h.snapshot_eq
  rwa [hfilled, hprojection, hsnapshot, h.data_eq] at hfills

/-- A call for blocks of the types of the projected columns fills them with the next rows, as many
as the least of them holds and no more than are left, unless an arena is exhausted. -/
theorem Serving.next (h : Serving cursor data schema projection snapshot base row o)
    (hbase : BaseSource.Reliable cursor data)
    (hcovers : Covers (data base) projection) {store : Store}
    {blocks : List BoundBlock} {arenas : List Arena}
    (hexpected : Expected schema projection (eventOf step (.next store blocks arenas) o))
    (hblocks : blocks ≠ []) (hn : batchRows blocks (BaseSource.rows base - row) = n) :
    (o.next store blocks arenas).result = .ok n ∧
      Filled (batchValue schema projection store.entries snapshot.isCommitted (data base) row n) 0
        blocks (o.next store blocks arenas).state.2.1 ∧
      Serving cursor data schema projection snapshot base (row + n)
        (o.next store blocks arenas).state.1 := by
  obtain ⟨hstore, htypes, hroom⟩ := hexpected
  have hstore := (hstore store rfl).holds
  have hroom : ¬ Limited arenas ∨ ∀ requested limit,
      (o.next store blocks arenas).result ≠ .error (.arenaExhausted requested limit) := by
    rcases hroom with hunlimited | hroom
    · refine .inl ?_
      rintro ⟨a, ha, hlimit⟩
      exact hlimit (hunlimited a ha)
    · refine .inr fun requested limit hfailed => hroom requested limit ?_
      show (Reply.produced (o.next store blocks arenas).result _ _).error? = _
      rw [hfailed]
      rfl
  have haligned := (h.aligned.next hbase.toCursor hstore blocks arenas).1
  have hsynced := h.aligned.synced h.ready
  have hleft : n ≤ BaseSource.rows base - row := hn ▸ batchRows_le blocks _
  have hslots : ∀ b ∈ blocks, n ≤ b.block.rows := fun b hb => hn ▸ batchRows_le_rows hb _
  have hrow := hsynced.row_le
  rw [h.row_eq, h.rows_eq] at hrow
  rw [← h.rows_eq, ← h.row_eq] at hn
  by_cases hpos : n = 0
  · rw [next_nothing h.ready store hblocks (hn.trans hpos), hpos]
    refine ⟨rfl, ⟨rfl, fun j b hb => ⟨b, hb, rfl, ?_⟩⟩, h⟩
    refine (Block.Overwritten.refl b.block).congr fun slot _ => ?_
    unfold batchValue
    rw [if_neg (Nat.not_lt_zero slot)]
  · rw [next_eq h.aligned h.ready hstore hblocks hn hpos] at hroom haligned ⊢
    obtain ⟨moved, hstate, hrows, hcursor⟩ := fillColumns_base hbase.toCursor n 0 blocks arenas
      { o with deltas := o.deltas.behind schema store n }
    generalize hfilled :
      fillColumns n 0 blocks arenas { o with deltas := o.deltas.behind schema store n } =
        filled at hroom haligned hstate hcursor ⊢
    dsimp only at hroom haligned hrows hcursor ⊢
    rcases h.fill hbase hcovers hstore htypes hslots (by omega) arenas hfilled with
      ⟨hok, hdata, hfills⟩ | ⟨hlimited, requested, limit, hfailed⟩
    · have hbaseState : filled.state.1.base = moved := congrArg Overlay.base hstate
      have hplace : cursor moved = row := (hcursor hok).trans (hsynced.base_eq.trans h.row_eq)
      rw [h.rows_eq, ← hbaseState] at hrows
      rw [← hbaseState] at hplace
      -- The base is on the row of the batch and has its rows, so it can be moved past them.
      have hmoved := hbase.advance_ok n filled.state.1.base (by rw [hplace, hrows]; omega)
      have hadvanceRows := hbase.advance_rows n filled.state.1.base
      have hadvanceData := hbase.advance_data n filled.state.1.base
      rw [hok] at haligned ⊢
      dsimp only at haligned ⊢
      rw [hmoved] at haligned ⊢
      refine ⟨rfl, hfills, haligned, ?_, ?_, hadvanceRows.trans hrows, hadvanceData.trans hdata,
        ?_, ?_⟩
      · rw [hstate]
        exact h.ready
      · rw [hstate]
        exact congrArg (· + n) h.row_eq
      · rw [hstate]
        exact h.projection_eq
      · rw [hstate]
        exact h.snapshot_eq
    · -- An arena can only be exhausted if it has a limit, and then it was not.
      rcases hroom with hunlimited | hroom
      · exact absurd hlimited hunlimited
      · have hnot := hroom requested limit
        rw [hfailed] at hnot
        exact absurd rfl hnot

/-- An expected call leaves an overlay serving, on the row that its answer says. -/
theorem Serving.step (h : Serving cursor data schema projection snapshot base row o)
    (hbase : BaseSource.Reliable cursor data)
    (hcovers : Covers (data base) projection) (op : Op)
    (hexpected : Expected schema projection (eventOf step op o)) :
    Serving cursor data schema projection snapshot base (rowAfterCall row (eventOf step op o))
      (step op o).2 := by
  cases op with
  | init store =>
    -- The scan has been initialized, and refuses before anything has moved.
    unfold eventOf Overlay.step
    dsimp only
    rw [init_error (Scan.init_refused (h.aligned.not_fresh h.ready))]
    exact h
  | seek dest => exact h.seek hbase dest
  | next store blocks arenas =>
    by_cases hblocks : blocks = []
    · unfold eventOf Overlay.step
      dsimp only
      rw [hblocks, next_noBlocks h.ready]
      exact h
    · obtain ⟨hok, -, hserving⟩ := h.next hbase hcovers hexpected hblocks rfl
      unfold eventOf Overlay.step
      dsimp only
      rw [hok]
      exact hserving

/-- The row after one more call. -/
theorem rowAfter_snoc (events : History) (e : Event Op Reply) :
    rowAfter (events ++ [e]) = rowAfterCall (rowAfter events) e :=
  List.foldl_concat ..

/-- An overlay goes on serving in every run of expected calls. -/
theorem serving_of_run (hbase : BaseSource.Reliable cursor data)
    (hcovers : Covers (data base) projection)
    {events : History} {o' : Overlay β Scan} (hrun : Run step o events o')
    (h : Serving cursor data schema projection snapshot base 0 o)
    (hexpected : ∀ e ∈ events, Expected schema projection e) :
    Serving cursor data schema projection snapshot base (rowAfter events) o' :=
  hrun.invariant_of_forall
    (fun past o => Serving cursor data schema projection snapshot base (rowAfter past) o)
    (fun past o op hserving hcall => by
      rw [rowAfter_snoc]
      exact hserving.step hbase hcovers op hcall)
    h hexpected

/-- Each row of base data has a value in each of its columns. -/
theorem overlaid_isSome (hbase : BaseSource.Reliable cursor data)
    (hcovers : Covers (data base) projection)
    {sees : Txid → Bool} {column : Nat} (hcolumn : column < projection.columns.length)
    (hrow : row < BaseSource.rows base) :
    (overlaid schema projection deltas sees (data base) column row).isSome := by
  obtain ⟨values, hvalues, -⟩ := hcovers column _ (List.getElem?_eq_getElem hcolumn)
  have hcells : row < values.cells.length := by
    have hrows := hbase.data_rows base values (List.mem_of_getElem? hvalues)
    unfold Block.rows at hrows
    rw [hrows]
    exact hrow
  unfold overlaid
  rw [hvalues, Option.bind_some, List.getElem?_eq_getElem hcells, Option.isSome_or,
    Option.isSome_some, Bool.or_true]

/-- An overlay scan is the overlay of the deltas on the base data, however it is cut into batches.
Take reliable base data with the projected columns, and a new scan of a projection that the stores
read have. The overlay of the two can be initialized. After that, take any calls with blocks of the
projected columns' types whose arenas are not exhausted, mixed with any seeks. Each call for blocks
returns as many rows as its least block holds, and no more than are left after the overlay's row.
The first slots of each block hold for each of these rows the last delta seen, or else the base
value, and the other slots what they held before. -/
theorem scan_overlays {cursor : β → Nat} {data : β → List Block}
    (hbase : BaseSource.Reliable cursor data) {schema projection : Schema} {snapshot : Snapshot}
    {base : β} (hcovers : Covers (data base) projection)
    {first : Store} (hfirst : first.Reachable schema) {bound : Scan}
    (haccepted : (Scan.start projection snapshot).init schema = .ok () bound) {reply : Reply}
    {events : History} {o : Overlay β Scan}
    (hrun : Run step (start base projection snapshot) (⟨.init first, reply⟩ :: events) o)
    (hexpected : ∀ e ∈ events, Expected schema projection e) :
    reply = .moved (.ok ()) ∧ ∀ before store blocks arenas answer after,
      events = before ++ ⟨.next store blocks arenas, answer⟩ :: after →
        ∀ smallest, (blocks.map (·.block.rows)).min? = some smallest →
          rowAfter before ≤ BaseSource.rows base ∧
            ∃ n, n = min smallest (BaseSource.rows base - rowAfter before) ∧
              (∃ blocks' arenas', answer = .produced (.ok n) blocks' arenas' ∧
                Filled (batchValue schema projection store.entries snapshot.isCommitted (data base)
                  (rowAfter before) n) 0 blocks blocks') ∧
              ∀ column < blocks.length, ∀ slot < n,
                (overlaid schema projection store.entries snapshot.isCommitted (data base) column
                  (rowAfter before + slot)).isSome := by
  obtain ⟨hreply, hrest⟩ := Run.cons_iff.1 hrun
  obtain ⟨hok, hinitialized⟩ := serving_init hbase base hfirst.holds.schema_eq haccepted
  have hfirstReply : reply = .moved ((start base projection snapshot).init first).result := hreply
  refine ⟨hfirstReply.trans (congrArg Reply.moved hok), ?_⟩
  rintro before store blocks arenas answer after rfl smallest hsmallest
  obtain ⟨m, hbefore, hanswer, -⟩ := Run.split hrest
  have hserving := serving_of_run hbase hcovers hbefore hinitialized fun e he =>
    hexpected e (List.mem_append_left _ he)
  have hcall := hexpected ⟨.next store blocks arenas, answer⟩
    (List.mem_append_right _ List.mem_cons_self)
  have hevent : ⟨.next store blocks arenas, answer⟩ = eventOf step (.next store blocks arenas) m :=
    congrArg (Event.mk _) hanswer
  rw [hevent] at hcall
  have hblocks : blocks ≠ [] := by
    rintro rfl
    cases hsmallest
  -- The overlay before the call serves the row that the calls so far have led to.
  have hrows := batchRows_eq_min hsmallest (BaseSource.rows base - rowAfter before)
  obtain ⟨hproduced, hfilled, -⟩ := hserving.next hbase hcovers hcall hblocks hrows
  have hrow := (hserving.aligned.synced hserving.ready).row_le
  rw [hserving.row_eq, hserving.rows_eq] at hrow
  refine ⟨hrow, _, rfl, ⟨_, (m.next store blocks arenas).state.2.2, ?_, hfilled⟩,
    fun column hcolumn slot hslot => ?_⟩
  · rw [← hproduced]
    exact hanswer
  · obtain ⟨c, hc, -⟩ := hcall.2.1 column _ (List.getElem?_eq_getElem hcolumn)
    have hprojected := (List.getElem?_eq_some_iff.1 hc).1
    exact overlaid_isSome hbase hcovers hprojected (by omega)

/-- Two calls with a block of two slots. -/
def twoBatches : List Op :=
  [.next oneDelta [⟨.blank .uint32 2, 0⟩] [default],
    .next oneDelta [⟨.blank .uint32 2, 0⟩] [default]]

/-- The initialization of three numbers overlaid with one delta, and two calls for blocks. -/
def twoEvents : History :=
  (execute step (.init oneDelta :: twoBatches) (start threeNumbers .numbers .includingAll)).1

/-- Three numbers come in two batches, the delta in the first one. In the second one there is one
row left, and the second slot stays blank. -/
theorem scan_overlays_twoBatches :
    (twoEvents.map fun e => e.answer.left.1.map (·.block.cells)) =
        [[], [[.uint32 1, .uint32 7]], [[.uint32 3, .uint32 0]]] ∧
      ∃ blocks arenas,
        twoEvents.getLast?.map Event.answer = some (.produced (.ok 1) blocks arenas) ∧
        Filled (batchValue .numbers .numbers oneDelta.entries Snapshot.includingAll.isCommitted
          threeNumbers.columns 2 1) 0 [⟨.blank .uint32 2, 0⟩] blocks := by
  have hexpected : ∀ e ∈ twoEvents.tail, Expected .numbers .numbers e := by
    intro e he
    have hmem : e.call ∈ twoBatches := by
      rw [← Run.calls_execute twoBatches
        (step (.init oneDelta) (start threeNumbers .numbers .includingAll)).2]
      exact List.mem_map_of_mem he
    have hcall : e.call = .next oneDelta [⟨.blank .uint32 2, 0⟩] [default] := by
      simpa [twoBatches] using hmem
    unfold Expected
    rw [hcall]
    refine ⟨fun store hstore => ?_, fun j b hb => ?_, .inl fun a ha => ?_⟩
    · rw [← Option.some.inj hstore]
      exact reachable_oneDelta
    · obtain ⟨hj, hb⟩ := List.getElem?_eq_some_iff.1 hb
      obtain rfl : j = 0 := Nat.lt_one_iff.1 hj
      exact ⟨⟨"n", .uint32⟩, rfl, by rw [← hb]; rfl⟩
    · rw [List.mem_singleton.1 ha]
      rfl
  have haccepted : (Scan.start .numbers .includingAll).init .numbers =
      .ok () { Scan.start .numbers .includingAll with phase := .bound, routes := [some 0] } := by
    rfl
  have hcovers : Covers threeNumbers.columns .numbers := by
    intro j c hc
    obtain ⟨hj, hc⟩ := List.getElem?_eq_some_iff.1 hc
    obtain rfl : j = 0 := Nat.lt_one_iff.1 hj
    exact ⟨_, rfl, by rw [← hc]; rfl⟩
  have hrun : Run step (start threeNumbers .numbers .includingAll)
      (⟨.init oneDelta, (step (.init oneDelta) (start threeNumbers .numbers .includingAll)).1⟩ ::
        twoEvents.tail)
      (execute step (.init oneDelta :: twoBatches) (start threeNumbers .numbers .includingAll)).2 :=
    .of_execute (.init oneDelta :: twoBatches) (start threeNumbers .numbers .includingAll)
  obtain ⟨-, hcalls⟩ := scan_overlays Table.reliable hcovers reachable_oneDelta haccepted hrun
    hexpected
  refine ⟨by decide +kernel, ?_⟩
  obtain ⟨-, n, hn, ⟨blocks, arenas, hanswer, hfilled⟩, -⟩ :=
    hcalls ((twoEvents.drop 1).take 1) _ _ _ _ [] rfl 2 rfl
  have hrow : rowAfter ((twoEvents.drop 1).take 1) = 2 := by decide +kernel
  have hone : n = 1 := by
    rw [hn, hrow]
    rfl
  rw [hrow, hone] at hfilled
  rw [hone] at hanswer
  exact ⟨blocks, arenas, congrArg some hanswer, hfilled⟩

end Overlay

end TabletDelta
