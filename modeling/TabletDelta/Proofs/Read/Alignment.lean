import TabletDelta.Proofs.Read.Base
import TabletDelta.Proofs.Read.Protocol

/-!
# Both sides stay on one row

An overlay of a base and a scan as a machine. While it is ready, the cursor of the base and the
position of the scan are the overlay's own row (`Overlay.Aligned`). A seek that the overlay accepts
is never refused by the scan (`seekSides_eq`): batches that the scan has behind it are the overlay's
own, so they end where the overlay is. What can go wrong otherwise goes wrong on the side of the
base, and poisons the overlay if anything may have moved (`never_misaligned`).
-/

namespace TabletDelta.Overlay

/-- A call on an overlay. -/
inductive Op where
  /-- Initializes the overlay. -/
  | init (store : Store)
  /-- Moves the overlay to a row. -/
  | seek (row : Row)
  /-- Fills blocks with the next rows. -/
  | next (store : Store) (blocks : List BoundBlock) (arenas : List Arena)
deriving DecidableEq

/-- The answer to a call. -/
inductive Reply where
  /-- Whether initializing or moving the overlay succeeded. -/
  | moved (result : Except Error Unit)
  /-- The number of rows produced, or an error, and what was left of the blocks and the arenas. -/
  | produced (result : Except Error Nat) (blocks : List BoundBlock) (arenas : List Arena)
deriving DecidableEq

/-- The store that a call reads. -/
def Op.store? : Op → Option Store
  | .init store | .next store _ _ => some store
  | .seek _ => none

/-- The blocks and arenas that a call is given. -/
def Op.given : Op → List BoundBlock × List Arena
  | .next _ blocks arenas => (blocks, arenas)
  | .init _ | .seek _ => ([], [])

/-- The blocks and arenas that a call has left. -/
def Reply.left : Reply → List BoundBlock × List Arena
  | .produced _ blocks arenas => (blocks, arenas)
  | .moved _ => ([], [])

/-- The error that a call has answered with. -/
def Reply.error? : Reply → Option Error
  | .moved (.error e) | .produced (.error e) _ _ => some e
  | .moved (.ok ()) | .produced (.ok _) _ _ => none

variable {β : Type} [BaseSource β]

/-- An overlay of a base and a scan as a machine. -/
def step : Op → Overlay β Scan → Reply × Overlay β Scan
  | .init store, o => (.moved (o.init store).result, (o.init store).state)
  | .seek row, o => (.moved (o.seek row).result, (o.seek row).state)
  | .next store blocks arenas, o =>
    (.produced (o.next store blocks arenas).result (o.next store blocks arenas).state.2.1
      (o.next store blocks arenas).state.2.2, (o.next store blocks arenas).state.1)

/-- What has been called on an overlay, and answered. -/
abbrev History := List (Event Op Reply)

/-- Both sides are on the overlay's row, and the scan can be moved ahead from there. -/
structure Synced (cursor : β → Nat) (o : Overlay β Scan) : Prop where
  /-- The base is on the row. -/
  base_eq : cursor o.base = o.row
  /-- The scan is on the row. -/
  deltas_eq : o.deltas.position = o.row
  /-- The row is in the base, or its end. -/
  row_le : o.row ≤ BaseSource.rows o.base
  /-- The scan has been put on a row. -/
  not_bound : o.deltas.phase ≠ .bound
  /-- As long as the overlay has produced nothing, the scan has no batches behind it. -/
  unread : o.producedAny = false → o.deltas.reached = none

/-- The state of an overlay that does not serve misaligned rows. -/
structure Aligned (cursor : β → Nat) (schema : Schema) (o : Overlay β Scan) : Prop where
  /-- The scan is sound. -/
  sound : o.deltas.Sound schema
  /-- A fresh overlay has not moved. -/
  fresh : o.phase = .fresh → o.row = 0 ∧ o.producedAny = false
  /-- The scan of any other overlay has been initialized. -/
  initialized : o.phase ≠ .fresh → o.deltas.phase ≠ .fresh
  /-- Both sides of a ready overlay are on its row. -/
  synced : o.phase = .ready → o.Synced cursor

variable {cursor : β → Nat} {schema : Schema} {o : Overlay β Scan}

/-- Both sides of a poisoned overlay may be anywhere; all that has to hold is about its scan. -/
theorem aligned_of_poisoned (hphase : o.phase = .poisoned) (hsound : o.deltas.Sound schema)
    (hfresh : o.deltas.phase ≠ .fresh) : o.Aligned cursor schema := by
  refine ⟨hsound, fun h => ?_, fun _ => hfresh, fun h => ?_⟩
  · rw [hphase] at h
    cases h
  · rw [hphase] at h
    cases h

/-- The scan of a ready overlay has been initialized. -/
theorem Aligned.not_fresh (h : o.Aligned cursor schema) (hready : o.phase = .ready) :
    o.deltas.phase ≠ .fresh := by
  refine h.initialized ?_
  rw [hready]
  exact OverlayPhase.noConfusion

/-! ## Seeking -/

/-- Where the scan is not refused, moving both sides is left to the base. -/
theorem seekSides_eq {row : Row} (hfresh : o.deltas.phase ≠ .fresh)
    (hrow : ∀ r, o.deltas.reached = some r → r ≤ row.toNat) :
    o.seekSides row =
      match BaseSource.seek row o.base with
      | ⟨.error e, base⟩ =>
        .fail e { o with
          base
          deltas := { o.deltas with phase := .positioned, position := row.toNat }
          phase := .poisoned }
      | ⟨.ok (), base⟩ =>
        .ok () { o with
          base
          deltas := { o.deltas with phase := .positioned, position := row.toNat }
          row := row.toNat } := by
  have hseek : DeltaSource.seek row o.deltas =
      .ok () { o.deltas with phase := .positioned, position := row.toNat } :=
    Scan.seek_eq_ok hfresh hrow
  unfold seekSides
  rw [hseek]
  rfl

/-- Moving both sides of a ready overlay aligns them, or poisons it. -/
theorem seekSides_aligned (hbase : BaseSource.Cursor cursor) (row : Row)
    (hready : o.phase = .ready) (hsound : o.deltas.Sound schema) (hfresh : o.deltas.phase ≠ .fresh)
    (hrow : ∀ r, o.deltas.reached = some r → r ≤ row.toNat)
    (hunread : o.producedAny = false → o.deltas.reached = none)
    (hle : row.toNat ≤ BaseSource.rows o.base) :
    (o.seekSides row).state.Aligned cursor schema ∧
      ∀ e, (o.seekSides row).result = .error e → (o.seekSides row).state.phase = .poisoned := by
  have hplaced := hsound.of_effect (.place row hfresh hrow)
  have hrows := hbase.seek_rows row o.base
  have hcursor := hbase.seek_cursor row o.base
  rw [seekSides_eq hfresh hrow]
  cases hseek : BaseSource.seek row o.base with
  | mk result base =>
    rw [hseek] at hrows hcursor
    cases result with
    | error e => exact ⟨aligned_of_poisoned rfl hplaced ScanPhase.noConfusion, fun _ _ => rfl⟩
    | ok u =>
      refine ⟨⟨hplaced, ?_, fun _ => ScanPhase.noConfusion, fun _ => ?_⟩, fun e he => ?_⟩
      · intro h
        change o.phase = .fresh at h
        rw [hready] at h
        cases h
      · exact ⟨hcursor rfl, rfl, hle.trans_eq hrows.symm, ScanPhase.noConfusion, hunread⟩
      · cases he

/-- A seek is refused, or moves both sides to a row that the scan is not behind. -/
theorem Aligned.seek_cases (h : o.Aligned cursor schema) (row : Row) :
    (∃ fault, o.seek row = .fail (.invalidState fault) o) ∨
      o.phase = .ready ∧ row.toNat ≤ BaseSource.rows o.base ∧
        (∀ r, o.deltas.reached = some r → r ≤ row.toNat) ∧ o.seek row = o.seekSides row := by
  unfold Overlay.seek checkUsable
  cases hphase : o.phase with
  | fresh | poisoned => exact .inl ⟨_, rfl⟩
  | ready =>
    have hsynced := h.synced hphase
    dsimp only
    split
    · exact .inl ⟨_, rfl⟩
    · next hle =>
      split
      · exact .inl ⟨_, rfl⟩
      · next hback =>
        refine .inr ⟨rfl, Nat.not_lt.1 hle, fun r hr => ?_, rfl⟩
        -- Batches behind the scan end at the overlay's row, and there are none before the first.
        have hreached := h.sound.reached_le r hr
        rw [hsynced.deltas_eq] at hreached
        cases hproduced : o.producedAny with
        | false =>
          rw [hsynced.unread hproduced] at hr
          cases hr
        | true =>
          rw [hproduced, Bool.true_and, decide_eq_true_eq] at hback
          omega

/-- A seek keeps an overlay aligned, and when it fails it has changed nothing or poisons. -/
theorem Aligned.seek (h : o.Aligned cursor schema) (hbase : BaseSource.Cursor cursor) (row : Row) :
    (o.seek row).state.Aligned cursor schema ∧
      ∀ e, (o.seek row).result = .error e →
        (o.seek row).state = o ∨ (o.seek row).state.phase = .poisoned := by
  rcases h.seek_cases row with ⟨fault, hrefused⟩ | ⟨hready, hle, hrow, hsides⟩
  · rw [hrefused]
    exact ⟨h, fun _ _ => .inl rfl⟩
  · rw [hsides]
    obtain ⟨haligned, herror⟩ := seekSides_aligned hbase row hready h.sound (h.not_fresh hready)
      hrow (h.synced hready).unread hle
    exact ⟨haligned, fun e he => .inr (herror e he)⟩

/-! ## Initializing -/

/-- Where its scan refuses to be initialized, so does the overlay, and nothing changes. -/
theorem init_error {store : Store} {e : Error}
    (h : o.deltas.init store.schema = .fail e o.deltas) : o.init store = .fail e o := by
  have hinit : DeltaSource.init store o.deltas = .fail e o.deltas := h
  unfold Overlay.init
  rw [hinit]
  rfl

/-- Once its scan is initialized, a fresh overlay is moved to row 0. -/
theorem init_eq {store : Store} {after : Scan} (hphase : o.phase = .fresh)
    (hproduced : o.producedAny = false) (h : o.deltas.init store.schema = .ok () after) :
    o.init store = seekSides 0 { o with deltas := after, phase := .ready } := by
  have hinit : DeltaSource.init store o.deltas = .ok () after := h
  have hzero : (0 : Row).toNat = 0 := rfl
  unfold Overlay.init
  rw [hinit, hphase]
  dsimp only [Outcome.ok]
  unfold Overlay.seek checkUsable
  dsimp only
  rw [hzero, if_neg (Nat.not_lt_zero _), hproduced]
  rfl

/-- Initializing keeps an overlay aligned, and when it fails it has changed nothing or poisons. -/
theorem Aligned.init (h : o.Aligned cursor schema) (hbase : BaseSource.Cursor cursor)
    {store : Store} (hschema : store.schema = schema) :
    (o.init store).state.Aligned cursor schema ∧
      ∀ e, (o.init store).result = .error e →
        (o.init store).state = o ∨ (o.init store).state.phase = .poisoned := by
  rcases Scan.init_cases store.schema o.deltas with
    ⟨hfresh, -, routes, hdeltas, hbound⟩ | ⟨-, -, fault, hdeltas⟩ | ⟨-, hdeltas⟩
  · -- Only a fresh overlay has a scan that can still be initialized.
    have hphase : o.phase = .fresh := by
      by_contra hne
      exact h.initialized hne hfresh
    have hreached := h.sound.reached_fresh hfresh
    have hsound := h.sound.of_effect (.bind hfresh (hschema ▸ hbound))
    rw [init_eq hphase (h.fresh hphase).2 hdeltas]
    obtain ⟨haligned, herror⟩ := seekSides_aligned
      (o := { o with deltas := { o.deltas with phase := .bound, routes }, phase := .ready })
      hbase 0 rfl hsound ScanPhase.noConfusion (fun r hr => by cases hreached.symm.trans hr)
      (fun _ => hreached) (Nat.zero_le _)
    exact ⟨haligned, fun e he => .inr (herror e he)⟩
  · rw [init_error hdeltas]
    exact ⟨h, fun _ _ => .inl rfl⟩
  · rw [init_error hdeltas]
    exact ⟨h, fun _ _ => .inl rfl⟩

/-! ## Filling blocks -/

/-- Filling a column first copies the base values and then writes the deltas, up to a failure. -/
theorem fillColumns_cons (n column : Nat) (b : BoundBlock) (blocks : List BoundBlock)
    (arenas : List Arena) (o : Overlay β Scan) :
    fillColumns n column (b :: blocks) arenas o =
      let copied := BaseSource.materialize column n o.base ⟨b.block, arenas.getD b.arena default⟩
      let written := o.deltas.apply column copied.state.2
      match copied.result with
      | .error e =>
        .fail e ({ o with base := copied.state.1 }, ⟨copied.state.2.block, b.arena⟩ :: blocks,
          arenas.set b.arena copied.state.2.arena)
      | .ok () =>
        match written.result with
        | .error e =>
          .fail e ({ o with base := copied.state.1 }, ⟨written.state.block, b.arena⟩ :: blocks,
            arenas.set b.arena written.state.arena)
        | .ok () =>
          (fillColumns n (column + 1) blocks (arenas.set b.arena written.state.arena)
            { o with base := copied.state.1 }).mapState fun (o, blocks, arenas) =>
              (o, ⟨written.state.block, b.arena⟩ :: blocks, arenas) := by
  conv => lhs; unfold fillColumns
  cases BaseSource.materialize column n o.base ⟨b.block, arenas.getD b.arena default⟩ with
  | mk result state =>
    cases result with
    | error e => rfl
    | ok u =>
      have happly : DeltaSource.apply column o.deltas state.2 =
          (o.deltas.apply column state.2).mapState fun written => (o.deltas, written) := rfl
      dsimp only
      rw [happly]
      cases o.deltas.apply column state.2 with
      | mk result written => cases result <;> rfl

/-- Filling blocks changes nothing of an overlay but its base, whose rows stay and whose cursor does
not move unless it fails. -/
theorem fillColumns_base (hbase : BaseSource.Cursor cursor) (n column : Nat)
    (blocks : List BoundBlock) (arenas : List Arena) (o : Overlay β Scan) :
    ∃ base, (fillColumns n column blocks arenas o).state.1 = { o with base } ∧
      BaseSource.rows base = BaseSource.rows o.base ∧
      ((fillColumns n column blocks arenas o).result = .ok () → cursor base = cursor o.base) := by
  induction blocks generalizing column arenas o with
  | nil => exact ⟨o.base, rfl, rfl, fun _ => rfl⟩
  | cons b blocks ih =>
    rw [fillColumns_cons]
    have hrows := hbase.materialize_rows column n o.base ⟨b.block, arenas.getD b.arena default⟩
    have hcursor := hbase.materialize_cursor column n o.base ⟨b.block, arenas.getD b.arena default⟩
    generalize BaseSource.materialize column n o.base ⟨b.block, arenas.getD b.arena default⟩ =
      copied at hrows hcursor
    dsimp only
    cases hcopied : copied.result with
    | error e => exact ⟨copied.state.1, rfl, hrows, fun he => by cases he⟩
    | ok u =>
      cases hwritten : (o.deltas.apply column copied.state.2).result with
      | error e => exact ⟨copied.state.1, rfl, hrows, fun he => by cases he⟩
      | ok u =>
        obtain ⟨base, hstate, hbaseRows, hbaseCursor⟩ := ih (column + 1)
          (arenas.set b.arena (o.deltas.apply column copied.state.2).state.arena)
          { o with base := copied.state.1 }
        exact ⟨base, hstate, hbaseRows.trans hrows,
          fun hok => (hbaseCursor hok).trans (hcursor hcopied)⟩

/-! ## Producing batches -/

/-- The number of rows of a batch is the least of the rows left and the rows of the blocks. -/
theorem min?_batchRows (blocks : List BoundBlock) (left : Nat) :
    (left :: blocks.map (·.block.rows)).min? = some (batchRows blocks left) :=
  List.min?_cons'

/-- A batch has as many rows as the least of its blocks holds, and no more than are left. -/
theorem batchRows_eq_min {blocks : List BoundBlock} {smallest : Nat}
    (h : (blocks.map (·.block.rows)).min? = some smallest) (left : Nat) :
    batchRows blocks left = min smallest left := by
  have hmin := min?_batchRows blocks left
  rw [List.min?_cons, h, Option.some_inj] at hmin
  rw [← hmin, Nat.min_comm]
  rfl

/-- A batch has no more rows than are left. -/
theorem batchRows_le (blocks : List BoundBlock) (left : Nat) : batchRows blocks left ≤ left :=
  (List.min?_eq_some_iff.1 (min?_batchRows blocks left)).2 left List.mem_cons_self

/-- A batch has no more rows than any of its blocks. -/
theorem batchRows_le_rows {blocks : List BoundBlock} {b : BoundBlock} (h : b ∈ blocks)
    (left : Nat) : batchRows blocks left ≤ b.block.rows :=
  (List.min?_eq_some_iff.1 (min?_batchRows blocks left)).2 _
    (List.mem_cons_of_mem left (List.mem_map_of_mem h))

/-- A call for blocks is refused unless the overlay is ready. -/
theorem next_refused (h : o.phase ≠ .ready) (store : Store) (blocks : List BoundBlock)
    (arenas : List Arena) :
    ∃ fault, o.next store blocks arenas = .fail (.invalidState fault) (o, blocks, arenas) := by
  unfold Overlay.next checkUsable
  cases hphase : o.phase with
  | ready => exact absurd hphase h
  | fresh | poisoned => exact ⟨_, rfl⟩

/-- A call for no blocks is refused. -/
theorem next_noBlocks (h : o.phase = .ready) (store : Store) (arenas : List Arena) :
    o.next store [] arenas = .fail (.invalidState .noBlocks) (o, [], arenas) := by
  unfold Overlay.next checkUsable
  rw [h]
  rfl

/-- Where there is nothing to fill, a call for blocks leaves everything as it is. -/
theorem next_nothing (h : o.phase = .ready) (store : Store) {blocks : List BoundBlock}
    (hblocks : blocks ≠ []) (hn : batchRows blocks (BaseSource.rows o.base - o.row) = 0)
    (arenas : List Arena) : o.next store blocks arenas = .ok 0 (o, blocks, arenas) := by
  unfold Overlay.next checkUsable
  rw [h]
  dsimp only
  rw [if_neg (by simpa using hblocks), if_pos hn]

/-- A call for blocks on a ready overlay, where there is something to fill. The scan has a batch for
it, and what can fail is filling the blocks and moving the base. -/
theorem next_eq (h : o.Aligned cursor schema) (hready : o.phase = .ready) {store : Store}
    {deltas : List Entry} (hstore : store.Holds schema deltas) {blocks : List BoundBlock}
    (hblocks : blocks ≠ []) {n : Nat} (hn : batchRows blocks (BaseSource.rows o.base - o.row) = n)
    (hpos : n ≠ 0) (arenas : List Arena) :
    o.next store blocks arenas =
      let filled := fillColumns n 0 blocks arenas
        { o with deltas := o.deltas.behind schema store n }
      match filled.result with
      | .error e => .fail e ({ filled.state.1 with phase := .poisoned }, filled.state.2)
      | .ok () =>
        let moved := BaseSource.advance n filled.state.1.base
        match moved.result with
        | .error e =>
          .fail e ({ filled.state.1 with base := moved.state, phase := .poisoned }, filled.state.2)
        | .ok () =>
          .ok n ({ filled.state.1 with
            base := moved.state
            row := filled.state.1.row + n
            producedAny := true }, filled.state.2) := by
  have hsynced := h.synced hready
  have hfresh := h.not_fresh hready
  have hprepare : DeltaSource.prepare store n o.deltas = .ok () (o.deltas.behind schema store n) :=
    Scan.prepare_eq_ok hstore hfresh hsynced.not_bound n
  have hempty : blocks.isEmpty = false := by
    cases blocks with
    | nil => exact absurd rfl hblocks
    | cons b blocks => rfl
  have husable : o.checkUsable .nextBlock = .ok () := by
    unfold checkUsable
    rw [hready]
  unfold Overlay.next
  rw [husable]
  dsimp only
  rw [hn, hempty, if_neg Bool.false_ne_true, if_neg hpos]
  unfold fillBatch
  rw [hprepare]
  dsimp only [Outcome.ok]
  cases fillColumns n 0 blocks arenas { o with deltas := o.deltas.behind schema store n } with
  | mk result state =>
    cases result with
    | error e => rfl
    | ok u =>
      dsimp only
      cases BaseSource.advance n state.1.base with
      | mk result base => cases result <;> rfl

/-- An overlay both of whose sides have moved past a batch is aligned again. -/
theorem Aligned.moved (h : o.Aligned cursor schema) (hready : o.phase = .ready)
    (hmax : BaseSource.rows o.base ≤ Scan.maxPosition) {n : Nat}
    (hle : n ≤ BaseSource.rows o.base - o.row) (store : Store) {base : β}
    (hrows : BaseSource.rows base = BaseSource.rows o.base)
    (hcursor : cursor base = cursor o.base + n) :
    Aligned cursor schema { o with
      base
      deltas := o.deltas.behind schema store n
      row := o.row + n
      producedAny := true } := by
  have hsynced := h.synced hready
  have hrow := hsynced.row_le
  refine ⟨h.sound.behind (h.not_fresh hready) store n, fun hp => ?_,
    fun _ => ScanPhase.noConfusion, fun _ => ⟨?_, ?_, ?_, ScanPhase.noConfusion, fun hp => ?_⟩⟩
  · change o.phase = .fresh at hp
    rw [hready] at hp
    cases hp
  · exact hcursor.trans (congrArg (· + n) hsynced.base_eq)
  · -- There were that many rows left, so the scan's row is not cut off.
    show min (o.deltas.position + n) Scan.maxPosition = o.row + n
    rw [hsynced.deltas_eq]
    omega
  · show o.row + n ≤ BaseSource.rows base
    omega
  · cases hp

/-- A call for blocks with something to fill keeps an overlay aligned, and poisons it when it
fails. -/
theorem Aligned.next_filled (h : o.Aligned cursor schema) (hbase : BaseSource.Cursor cursor)
    (hready : o.phase = .ready) {store : Store} {deltas : List Entry}
    (hstore : store.Holds schema deltas) {blocks : List BoundBlock} (hblocks : blocks ≠ [])
    (hpos : batchRows blocks (BaseSource.rows o.base - o.row) ≠ 0) (arenas : List Arena) :
    (o.next store blocks arenas).state.1.Aligned cursor schema ∧
      ∀ e, (o.next store blocks arenas).result = .error e →
        (o.next store blocks arenas).state.1.phase = .poisoned := by
  rw [next_eq h hready hstore hblocks rfl hpos]
  have hle := batchRows_le blocks (BaseSource.rows o.base - o.row)
  generalize batchRows blocks (BaseSource.rows o.base - o.row) = n at hpos hle
  have hsound := h.sound.behind (h.not_fresh hready) store n
  obtain ⟨base, hstate, hrows, hcursor⟩ := fillColumns_base hbase n 0 blocks arenas
    { o with deltas := o.deltas.behind schema store n }
  generalize fillColumns n 0 blocks arenas { o with deltas := o.deltas.behind schema store n } =
    filled at hstate hcursor
  dsimp only
  -- The scan is behind the batch from here on, so every failure poisons.
  cases hfilled : filled.result with
  | error e =>
    rw [hstate]
    exact ⟨aligned_of_poisoned rfl hsound ScanPhase.noConfusion, fun _ _ => rfl⟩
  | ok u =>
    rw [hstate]
    have hadvanceRows := hbase.advance_rows n base
    have hadvanceCursor := hbase.advance_cursor n base
    dsimp only
    cases hmoved : (BaseSource.advance n base).result with
    | error e => exact ⟨aligned_of_poisoned rfl hsound ScanPhase.noConfusion, fun _ _ => rfl⟩
    | ok u =>
      have hplace := (hadvanceCursor hmoved).trans (congrArg (· + n) (hcursor hfilled))
      refine ⟨?_, fun e he => by cases he⟩
      exact h.moved hready (hbase.rows_le o.base) hle store (hadvanceRows.trans hrows) hplace

/-- A call for blocks keeps an overlay aligned, and when it fails it has changed nothing or
poisons. -/
theorem Aligned.next (h : o.Aligned cursor schema) (hbase : BaseSource.Cursor cursor)
    {store : Store} {deltas : List Entry} (hstore : store.Holds schema deltas)
    (blocks : List BoundBlock) (arenas : List Arena) :
    (o.next store blocks arenas).state.1.Aligned cursor schema ∧
      ∀ e, (o.next store blocks arenas).result = .error e →
        (o.next store blocks arenas).state = (o, blocks, arenas) ∨
          (o.next store blocks arenas).state.1.phase = .poisoned := by
  by_cases hready : o.phase = .ready
  · by_cases hblocks : blocks = []
    · rw [hblocks, next_noBlocks hready]
      exact ⟨h, fun _ _ => .inl rfl⟩
    · by_cases hn : batchRows blocks (BaseSource.rows o.base - o.row) = 0
      · rw [next_nothing hready store hblocks hn]
        exact ⟨h, fun _ _ => .inl rfl⟩
      · obtain ⟨haligned, herror⟩ := h.next_filled hbase hready hstore hblocks hn arenas
        exact ⟨haligned, fun e he => .inr (herror e he)⟩
  · obtain ⟨fault, hrefused⟩ := next_refused hready store blocks arenas
    rw [hrefused]
    exact ⟨h, fun _ _ => .inl rfl⟩

/-! ## Runs -/

/-- Moving an overlay answers with the error that it has failed with. -/
theorem Reply.eq_error_of_moved {result : Except Error Unit} {e : Error}
    (h : (Reply.moved result).error? = some e) : result = .error e := by
  cases result with
  | ok u => cases h
  | error e' => exact congrArg Except.error (Option.some.inj h)

/-- A call for blocks answers with the error that it has failed with. -/
theorem Reply.eq_error_of_produced {result : Except Error Nat} {blocks : List BoundBlock}
    {arenas : List Arena} {e : Error}
    (h : (Reply.produced result blocks arenas).error? = some e) : result = .error e := by
  cases result with
  | ok n => cases h
  | error e' => exact congrArg Except.error (Option.some.inj h)

/-- A call keeps an overlay aligned, and when it fails it has changed nothing or poisons. -/
theorem Aligned.step (h : o.Aligned cursor schema) (hbase : BaseSource.Cursor cursor) (op : Op)
    (hstore : ∀ store ∈ op.store?, store.Reachable schema) :
    (step op o).2.Aligned cursor schema ∧ ∀ e, (step op o).1.error? = some e →
      (step op o).2 = o ∧ (step op o).1.left = op.given ∨ (step op o).2.phase = .poisoned := by
  cases op with
  | init store =>
    have hschema := (hstore store rfl).holds.schema_eq
    obtain ⟨haligned, herror⟩ := h.init hbase hschema
    refine ⟨haligned, fun e he => ?_⟩
    rcases herror e (Reply.eq_error_of_moved he) with hsame | hpoisoned
    · exact .inl ⟨hsame, rfl⟩
    · exact .inr hpoisoned
  | seek row =>
    obtain ⟨haligned, herror⟩ := h.seek hbase row
    refine ⟨haligned, fun e he => ?_⟩
    rcases herror e (Reply.eq_error_of_moved he) with hsame | hpoisoned
    · exact .inl ⟨hsame, rfl⟩
    · exact .inr hpoisoned
  | next store blocks arenas =>
    obtain ⟨haligned, herror⟩ := h.next hbase (hstore store rfl).holds blocks arenas
    refine ⟨haligned, fun e he => ?_⟩
    rcases herror e (Reply.eq_error_of_produced he) with hsame | hpoisoned
    · exact .inl ⟨congrArg Prod.fst hsame, congrArg Prod.snd hsame⟩
    · exact .inr hpoisoned

/-- A poisoned overlay refuses every call and changes nothing. -/
theorem Aligned.poisoned (h : o.Aligned cursor schema) (hphase : o.phase = .poisoned) (op : Op) :
    (Overlay.step op o).2 = o ∧ (Overlay.step op o).1.left = op.given ∧
      ∃ fault, (Overlay.step op o).1.error? = some (.invalidState fault) := by
  cases op with
  | init store =>
    have hfresh := h.initialized (by rw [hphase]; exact OverlayPhase.noConfusion)
    unfold Overlay.step
    dsimp only
    rw [init_error (Scan.init_refused hfresh)]
    exact ⟨rfl, rfl, _, rfl⟩
  | seek row =>
    unfold Overlay.step Overlay.seek checkUsable
    dsimp only
    rw [hphase]
    exact ⟨rfl, rfl, _, rfl⟩
  | next store blocks arenas =>
    have hready : o.phase ≠ .ready := by
      rw [hphase]
      exact OverlayPhase.noConfusion
    obtain ⟨fault, hrefused⟩ := next_refused hready store blocks arenas
    unfold Overlay.step
    dsimp only
    rw [hrefused]
    exact ⟨rfl, rfl, fault, rfl⟩

/-- A new overlay of a sound scan is aligned. -/
theorem aligned_start {scan : Scan} (base : β) (h : scan.Sound schema) :
    Aligned cursor schema { base, deltas := scan } :=
  ⟨h, fun _ => ⟨rfl, rfl⟩, fun h => absurd rfl h, fun h => by cases h⟩

/-- An overlay stays aligned in every run that reads reachable stores. -/
theorem aligned_of_run (hbase : BaseSource.Cursor cursor) {events : History} {o' : Overlay β Scan}
    (hrun : Run step o events o') (h : o.Aligned cursor schema)
    (hstores : ∀ e ∈ events, ∀ store ∈ e.call.store?, store.Reachable schema) :
    o'.Aligned cursor schema :=
  hrun.invariant_of_forall (fun _ o => o.Aligned cursor schema)
    (fun _ _ op haligned hstore => (haligned.step hbase op hstore).1) h hstores

/-- An overlay never serves misaligned rows. Take any base that moves as it says when it succeeds,
and may fail at any call, any scan, whatever has been called on it before, and any calls on the
overlay of the two. While the overlay is ready, the base, the scan and the overlay are on the same
row, and it is not past the end. A call that fails has changed nothing, or leaves the overlay
poisoned. A poisoned overlay has no next rows, and refuses all later calls without any effect. -/
theorem never_misaligned {cursor : β → Nat} (hbase : BaseSource.Cursor cursor)
    {schema projection : Schema} {snapshot : Snapshot} {scan : Scan}
    {calls : List (Event (Store × Scan.Op) Scan.Reply)}
    (hscan : Run (fun call => Scan.step call.1 call.2) (.start projection snapshot) calls scan)
    (hcalls : ∀ e ∈ calls, e.call.1.Reachable schema) {base : β} {events : History}
    {o : Overlay β Scan} (hrun : Run step { base, deltas := scan } events o)
    (hstores : ∀ e ∈ events, ∀ store ∈ e.call.store?, store.Reachable schema) :
    (o.phase = .ready → cursor o.base = o.row ∧ o.deltas.position = o.row ∧
      o.row ≤ BaseSource.rows o.base) ∧
    (∀ op, (∀ store ∈ op.store?, store.Reachable schema) → ∀ e, (step op o).1.error? = some e →
      (step op o).2 = o ∧ (step op o).1.left = op.given ∨ (step op o).2.phase = .poisoned) ∧
    (o.phase = .poisoned → o.hasNext = false ∧ ∀ later o', Run step o later o' →
      o' = o ∧ ∀ e ∈ later, e.answer.left = e.call.given ∧
        ∃ fault, e.answer.error? = some (.invalidState fault)) := by
  have hsound : scan.Sound schema :=
    Scan.sound_of_run hscan fun e he => (hcalls e he).holds.schema_eq
  have haligned := aligned_of_run hbase hrun (aligned_start base hsound) hstores
  refine ⟨?_, ?_, ?_⟩
  · intro hready
    have hsynced := haligned.synced hready
    exact ⟨hsynced.base_eq, hsynced.deltas_eq, hsynced.row_le⟩
  · exact fun op hstore => (haligned.step hbase op hstore).2
  · intro hpoisoned
    refine ⟨?_, fun later o' hlater => ?_⟩
    · unfold hasNext
      rw [hpoisoned]
      rfl
    · -- By induction on the later calls, none of which does anything.
      refine hlater.invariant (fun past o' => o' = o ∧ ∀ e ∈ past,
        e.answer.left = e.call.given ∧ ∃ fault, e.answer.error? = some (.invalidState fault)) ?_
        ⟨rfl, fun e he => absurd he List.not_mem_nil⟩
      rintro past o' op ⟨rfl, hpast⟩
      obtain ⟨hstate, hleft, hfault⟩ := haligned.poisoned hpoisoned op
      refine ⟨hstate, fun e he => ?_⟩
      rcases List.mem_append.1 he with he | he
      · exact hpast e he
      · rw [List.mem_singleton.1 he]
        exact ⟨hleft, hfault⟩

/-- Three numbers as base data. -/
def threeNumbers : Table :=
  ⟨[⟨.uint32, [.uint32 1, .uint32 2, .uint32 3], by decide⟩], 3, by decide, by decide, 0⟩

/-- A store with a new number for row 1. -/
def oneDelta : Store :=
  (execute Store.step [⟨⟨1, 1⟩, [0, 0, 0, 0, 7, 0, 0, 0]⟩] (.empty .numbers {})).2

/-- The store is reached by its update. -/
theorem reachable_oneDelta : oneDelta.Reachable .numbers := ⟨{}, _, .of_execute _ _⟩

/-- A new overlay of the numbers and the store. -/
def threeOverlaid : Overlay Table Scan :=
  { base := threeNumbers, deltas := .start .numbers .includingAll }

/-- The overlay is initialized and fills two rows, and is then given a block of another type. -/
def wrongBlock : List Op :=
  [.init oneDelta, .next oneDelta [⟨.blank .uint32 2, 0⟩] [default],
    .next oneDelta [⟨.blank .bool 2, 0⟩] [default]]

/-- The block of another type poisons the overlay, which from then on refuses to be moved back. -/
theorem never_misaligned_wrongBlock :
    (execute step wrongBlock threeOverlaid).2.phase = .poisoned ∧
      (execute step wrongBlock threeOverlaid).2.hasNext = false ∧
      (step (.seek 0) (execute step wrongBlock threeOverlaid).2).2 =
        (execute step wrongBlock threeOverlaid).2 := by
  have hpoisoned : (execute step wrongBlock threeOverlaid).2.phase = .poisoned := by decide +kernel
  have hstores : ∀ e ∈ (execute step wrongBlock threeOverlaid).1, ∀ store ∈ e.call.store?,
      store.Reachable .numbers := by
    intro e he store hstore
    have hcall : e.call ∈ wrongBlock := by
      rw [← Run.calls_execute wrongBlock threeOverlaid]
      exact List.mem_map_of_mem he
    have hall : ∀ op ∈ wrongBlock, op.store? = some oneDelta := by
      simp [wrongBlock, Op.store?]
    rw [Option.mem_def, hall e.call hcall, Option.some_inj] at hstore
    exact hstore ▸ reachable_oneDelta
  obtain ⟨-, -, hlater⟩ := never_misaligned Table.reliable.toCursor (.nil _) (by simp)
    (.of_execute wrongBlock threeOverlaid) hstores
  obtain ⟨hnext, hlater⟩ := hlater hpoisoned
  exact ⟨hpoisoned, hnext, (hlater _ _ (.single (.seek 0) _)).1⟩

end TabletDelta.Overlay
