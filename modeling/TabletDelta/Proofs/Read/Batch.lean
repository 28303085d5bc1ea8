import TabletDelta.Proofs.Block.Writing
import TabletDelta.Proofs.Read.Binding
import TabletDelta.Proofs.Store.Latest

/-!
# Batches of a scan

What a bound scan selects from a store for a batch, and what it then writes to a block. On a store
whose entries can be read preparing never fails (`prepare_eq_ok`), and of what is selected for a
column the last write to a slot is the latest value of the slot's row (`behind_serves`). Written to
a block, this leaves each row its latest value, and a row without one what the block held
(`Serves.apply_overwrites`).
-/

namespace TabletDelta

/-- A write fits a batch of `rows` rows if it is for one of the rows and of the type of its
projected column. -/
def Write.Fits (projection : Schema) (rows : Nat) (w : Write) : Prop :=
  w.offset < rows ∧ ∃ c, projection.columns[w.column]? = some c ∧ w.value.type = c.type

namespace Scan

/-- The cells that an entry gives to projected columns, by slot of the batch. -/
def picks (schema : Schema) (s : Scan) (e : Entry) : List Write :=
  match ChangeList.assignments schema e.changes with
  | .ok as =>
    as.filterMap fun a =>
      (s.route a.column).map fun column => ⟨column, e.key.row.toNat - s.position, a.value⟩
  | .error _ => []

/-- The row that a batch ends before. -/
def stop (rows : Nat) (s : Scan) : Nat := min (s.position + rows) maxPosition

/-- What a scan selects for a batch from a store that can be read. -/
def selection (schema : Schema) (store : Store) (rows : Nat) (s : Scan) : List Write :=
  ((store.range s.position (s.stop rows)).filter fun e =>
    s.snapshot.isCommitted e.key.txid).flatMap (s.picks schema)

/-- The selected writes that go to a projected column, by slot of the batch. -/
def columnWrites (writes : List Write) (column : Nat) : List (Nat × Cell) :=
  (writes.filter (·.column = column)).map fun w => (w.offset, w.value)

/-- A scan serves a batch of rows from `start` on if for each projected column the last write to a
slot is the latest value of the slot's row, as far as the scan's snapshot sees the deltas. -/
structure Serves (schema : Schema) (deltas : List Entry) (start rows : Nat) (writes : List Write)
    (s : Scan) : Prop where
  /-- The scan is bound. -/
  bound : s.Bound schema
  /-- The batch is prepared. -/
  phase_eq : s.phase = .prepared rows writes
  /-- Each write is for a row of the batch and of its column's type. -/
  fits : ∀ w ∈ writes, w.offset < rows ∧
    ∃ c, s.projection.columns[w.column]? = some c ∧ w.value.type = c.type
  /-- The last write to a slot is the latest value of its row. -/
  lastWrite_eq : ∀ column j, schema.source? s.projection column = some j → ∀ i,
    lastWrite (columnWrites writes column) i =
      if i < rows then latest schema deltas s.snapshot.isCommitted (start + i) j else none

variable {schema : Schema} {store : Store} {deltas : List Entry} {s : Scan}

/-! ## Selecting -/

/-- An entry that can be read is selected from. -/
theorem select_eq_ok {e : Entry} {as : List Assignment}
    (h : ChangeList.assignments schema e.changes = .ok as) :
    s.select schema e = .ok (s.picks schema e) := by
  unfold select picks
  rw [h]
  rfl

/-- From entries that can be read, the cells of those seen are selected, in order. -/
theorem selectAll_eq_ok {entries : List Entry}
    (h : ∀ e ∈ entries, ∃ as, ChangeList.assignments schema e.changes = .ok as) :
    s.selectAll schema entries =
      .ok ((entries.filter fun e => s.snapshot.isCommitted e.key.txid).flatMap
        (s.picks schema)) := by
  have hpicks : (entries.filter fun e => s.snapshot.isCommitted e.key.txid).mapM
      (s.select schema) = .ok ((entries.filter fun e => s.snapshot.isCommitted e.key.txid).map
        (s.picks schema)) := by
    rw [mapM_eq_ok_iff, List.map_map]
    refine List.map_congr_left fun e he => ?_
    obtain ⟨as, has⟩ := h e (List.mem_of_mem_filter he)
    exact select_eq_ok has
  unfold selectAll
  rw [hpicks, List.flatMap_def]
  rfl

/-- What an entry gives to a projected column are its values for the column's source, all in the
slot of its row. -/
theorem columnWrites_picks (h : s.Bound schema) {column j : Nat}
    (hsource : schema.source? s.projection column = some j) (e : Entry) :
    columnWrites (s.picks schema e) column =
      (e.values schema j).map fun value => (e.key.row.toNat - s.position, value) := by
  unfold columnWrites picks Entry.values
  cases ChangeList.assignments schema e.changes with
  | error fault => rfl
  | ok as =>
    dsimp only
    rw [List.filter_filterMap, List.map_filterMap, List.map_filterMap]
    refine List.filterMap_congr fun a _ => ?_
    -- The assignment goes to the column exactly if it is for the column's source.
    have hroute : s.route a.column = some column ↔ a.column = j := by
      rw [h.route_eq_some_iff, hsource, Option.some_inj, eq_comm]
    cases hroute' : s.route a.column with
    | none =>
      have hne : a.column ≠ j := by
        rw [← hroute.ne, hroute']
        exact (Option.some_ne_none column).symm
      simp [hne]
    | some other =>
      rw [hroute', Option.some_inj] at hroute
      by_cases hj : a.column = j
      · simp [hj, hroute.2 hj]
      · simp [hj, mt hroute.1 hj]

/-- The writes selected for a projected column are the values that the entries seen give to its
source. -/
theorem columnWrites_selection (h : s.Bound schema) {column j : Nat}
    (hsource : schema.source? s.projection column = some j) (store : Store) (rows : Nat) :
    columnWrites (s.selection schema store rows) column =
      ((store.range s.position (s.stop rows)).filter fun e =>
        s.snapshot.isCommitted e.key.txid).flatMap fun e =>
          (e.values schema j).map fun value => (e.key.row.toNat - s.position, value) := by
  unfold selection columnWrites
  rw [List.filter_flatMap, List.map_flatMap]
  exact List.flatMap_congr fun e _ => columnWrites_picks h hsource e

/-- Where the values of each entry are written to the entry's slot, the last one in a slot is the
last value of the entries with this slot. -/
theorem lastWrite_flatMap (slot : Entry → Nat) (values : Entry → List Cell) (entries : List Entry)
    (i : Nat) :
    lastWrite (entries.flatMap fun e => (values e).map fun value => (slot e, value)) i =
      ((entries.filter fun e => slot e = i).flatMap values).getLast? := by
  unfold lastWrite
  congr 1
  induction entries with
  | nil => rfl
  | cons e entries ih =>
    rw [List.flatMap_cons, List.filterMap_append, ih, List.filter_cons, List.filterMap_map]
    by_cases hslot : slot e = i
    · simp [hslot]
    · simp [hslot]

/-- What a scan selects from an entry fits the projection. -/
theorem fits_of_mem_picks (h : s.Bound schema) {e : Entry} {w : Write} (hw : w ∈ s.picks schema e) :
    w.offset = e.key.row.toNat - s.position ∧
      ∃ c, s.projection.columns[w.column]? = some c ∧ w.value.type = c.type := by
  unfold picks at hw
  cases has : ChangeList.assignments schema e.changes with
  | error fault =>
    rw [has] at hw
    exact absurd hw List.not_mem_nil
  | ok as =>
    rw [has] at hw
    obtain ⟨a, ha, hpick⟩ := List.mem_filterMap.1 hw
    obtain ⟨column, hroute, hw⟩ := Option.map_eq_some_iff.1 hpick
    subst hw
    exact ⟨rfl, h.type_of_route (ChangeList.fits_of_assignments has a ha) hroute⟩

/-! ## Preparing -/

/-- Of what is selected from a store for a batch, the last write to a slot of a projected column is
the latest value of the slot's row. Rows beyond the batch get no writes. -/
theorem lastWrite_selected (h : s.Bound schema) (hstore : store.Holds schema deltas)
    {column j : Nat} (hsource : schema.source? s.projection column = some j) (rows i : Nat) :
    lastWrite (columnWrites (s.selection schema store rows) column) i =
      if i < rows then latest schema deltas s.snapshot.isCommitted (s.position + i) j
      else none := by
  -- All conditions on an entry come together: the slot, the snapshot, and the range of rows.
  rw [columnWrites_selection h hsource, lastWrite_flatMap, Store.range_eq_filter hstore.sorted,
    List.filter_filter, List.filter_filter]
  unfold stop
  have hrow : ∀ e : Entry, e.key.row.toNat < maxPosition := by
    intro e
    have hlt := e.key.row.toNat_lt
    have hmax : 2 ^ 32 ≤ maxPosition := by decide
    omega
  by_cases hi : i < rows
  · rw [if_pos hi]
    have hkeys := eq_of_sorted hstore.sorted
    have hmem : ∀ e, e ∈ candidates schema store.entries s.snapshot.isCommitted (s.position + i) j ↔
        e ∈ candidates schema deltas s.snapshot.isCommitted (s.position + i) j := by
      intro e
      rw [mem_candidates, mem_candidates, hstore.mem_entries]
    rw [← latest_congr hkeys hmem, ← getLast?_values_eq_latest hstore.sorted]
    congr 2
    refine List.filter_congr fun e _ => ?_
    have he := hrow e
    -- Slots and rows correspond within the range only: all rows before it would get slot 0.
    have hslot : (e.key.row.toNat - s.position = i ∧ s.position ≤ e.key.row.toNat ∧
        e.key.row.toNat < min (s.position + rows) maxPosition) ↔
          e.key.row.toNat = s.position + i := by
      rw [Nat.lt_min]
      omega
    rw [Bool.eq_iff_iff]
    simp only [Bool.and_eq_true, decide_eq_true_eq]
    rw [and_right_comm, hslot]
  · rw [if_neg hi]
    have hnone : store.entries.filter (fun e => (decide (e.key.row.toNat - s.position = i) &&
        s.snapshot.isCommitted e.key.txid) && (decide (s.position ≤ e.key.row.toNat) &&
          decide (e.key.row.toNat < min (s.position + rows) maxPosition))) = [] := by
      refine List.filter_eq_nil_iff.2 fun e _ hall => ?_
      simp only [Bool.and_eq_true, decide_eq_true_eq] at hall
      omega
    rw [hnone]
    rfl

/-- The writes selected are for rows of the batch and of their columns' types. -/
theorem fits_of_mem_selection (h : s.Bound schema) (hstore : store.Holds schema deltas) {rows : Nat}
    {w : Write} (hw : w ∈ s.selection schema store rows) : w.Fits s.projection rows := by
  obtain ⟨e, he, hw⟩ := List.mem_flatMap.1 hw
  obtain ⟨hoffset, htype⟩ := fits_of_mem_picks h hw
  have he := List.mem_of_mem_filter he
  rw [Store.range_eq_filter hstore.sorted, List.mem_filter] at he
  simp only [Bool.and_eq_true, decide_eq_true_eq] at he
  have hstop : s.stop rows ≤ s.position + rows := Nat.min_le_left ..
  exact ⟨by omega, htype⟩

/-- The scan behind a batch prepared from a store. -/
def behind (schema : Schema) (store : Store) (rows : Nat) (s : Scan) : Scan :=
  { s with
    phase := .prepared rows (s.selection schema store rows)
    position := s.stop rows
    reached := some (s.stop rows) }

/-- Preparing a batch from a store that can be read succeeds on any row. -/
theorem prepare_eq_ok (hstore : store.Holds schema deltas) (hfresh : s.phase ≠ .fresh)
    (hbound : s.phase ≠ .bound) (rows : Nat) :
    s.prepare store rows = .ok () (s.behind schema store rows) := by
  have hreadable : ∀ e ∈ store.range s.position (s.stop rows),
      ∃ as, ChangeList.assignments schema e.changes = .ok as := by
    intro e he
    rw [Store.range_eq_filter hstore.sorted] at he
    exact hstore.readable e (List.mem_of_mem_filter he)
  have hselect := selectAll_eq_ok (s := s) hreadable
  unfold stop at hselect
  unfold prepare
  dsimp only
  rw [hstore.schema_eq, hselect]
  cases hphase : s.phase with
  | fresh => exact absurd hphase hfresh
  | bound => exact absurd hphase hbound
  | positioned | prepared _ _ => rfl

/-- Off any row, no batch is prepared. -/
theorem prepare_tooEarly (store : Store) (h : s.phase = .fresh ∨ s.phase = .bound) (rows : Nat) :
    s.prepare store rows = .fail (.invalidState (.tooEarly .prepareBatch .seek)) s := by
  unfold prepare
  rcases h with h | h <;> rw [h]

/-- The scan behind a batch serves its rows. -/
theorem behind_serves (h : s.Bound schema) (hstore : store.Holds schema deltas) (rows : Nat) :
    (s.behind schema store rows).Serves schema deltas s.position rows
      (s.selection schema store rows) where
  bound := ⟨h.routes_eq, h.found⟩
  phase_eq := rfl
  fits _ hw := fits_of_mem_selection h hstore hw
  lastWrite_eq _ _ hsource i := lastWrite_selected h hstore hsource rows i

/-! ## Writing -/

variable {start rows column : Nat} {writes : List Write} {target : Target}

/-- Writing a column that succeeds is for a projected column, to a block of its type with a slot for
every row of the batch, and leaves each row its latest value; a row without one keeps what the block
held. -/
theorem Serves.apply_overwrites (h : s.Serves schema deltas start rows writes)
    (happly : (s.apply column target).result = .ok ()) :
    ∃ j, schema.source? s.projection column = some j ∧ rows ≤ target.block.rows ∧
      target.block.Overwritten (s.apply column target).state.block fun i =>
        if i < rows then latest schema deltas s.snapshot.isCommitted (start + i) j else none := by
  unfold apply at happly ⊢
  rw [h.phase_eq] at happly ⊢
  unfold Schema.column at happly ⊢
  cases hc : s.projection.columns[column]? with
  | none =>
    rw [hc] at happly
    cases happly
  | some c =>
    obtain ⟨j, -, hsource, -⟩ := h.bound.source?_eq_some hc
    simp only [hc] at happly ⊢
    split at happly
    · cases happly
    · next htype =>
      split at happly
      · cases happly
      · next hrows =>
        rw [if_neg htype, if_neg hrows]
        refine ⟨j, hsource, Nat.not_lt.1 hrows, ?_⟩
        refine (Target.writeAll_overwrites happly).congr fun i _ => ?_
        exact h.lastWrite_eq column j hsource i

/-- Where the writes of a batch fit, writing a projected column to a block of its type with a slot
for every row of the batch only fails for want of memory for strings. -/
theorem apply_result (hphase : s.phase = .prepared rows writes)
    (hfits : ∀ w ∈ writes, w.Fits s.projection rows) {c : Column}
    (hc : s.projection.columns[column]? = some c) (htype : target.block.type = c.type)
    (hrows : rows ≤ target.block.rows) :
    (s.apply column target).result = .ok () ∨
      target.block.type = .string ∧ target.arena.config.limit ≠ none ∧
        ∃ requested limit,
          (s.apply column target).result = .error (.arenaExhausted requested limit) := by
  have heq : s.apply column target = target.writeAll (columnWrites writes column) := by
    unfold apply Schema.column
    rw [hphase]
    simp only [hc]
    rw [if_neg (by simp [htype]), if_neg (Nat.not_lt.2 hrows)]
    rfl
  rw [heq]
  refine Target.writeAll_result fun w hw => ?_
  obtain ⟨v, hv, rfl⟩ := List.mem_map.1 hw
  obtain ⟨hmem, hcolumn⟩ := List.mem_filter.1 hv
  obtain ⟨hoffset, c', hc', hvalue⟩ := hfits v hmem
  rw [decide_eq_true_eq] at hcolumn
  rw [hcolumn, hc, Option.some_inj] at hc'
  exact ⟨Nat.lt_of_lt_of_le hoffset hrows, by rw [hvalue, ← hc', htype]⟩

/-- Writing a projected column of a batch that serves its rows only fails for want of memory for
strings. -/
theorem Serves.apply_result (h : s.Serves schema deltas start rows writes) {c : Column}
    (hc : s.projection.columns[column]? = some c) (htype : target.block.type = c.type)
    (hrows : rows ≤ target.block.rows) :
    (s.apply column target).result = .ok () ∨
      target.block.type = .string ∧ target.arena.config.limit ≠ none ∧
        ∃ requested limit,
          (s.apply column target).result = .error (.arenaExhausted requested limit) :=
  Scan.apply_result h.phase_eq h.fits hc htype hrows

/-- Writing a column leaves the shape of the block and what the arena is set up with alone. -/
theorem apply_written (s : Scan) (column : Nat) (target : Target) :
    target.Written (s.apply column target).state := by
  unfold apply
  split
  · split
    · exact .refl target
    · split
      · exact .refl target
      · split
        · exact .refl target
        · exact Target.writeAll_written ..
  · exact .refl target

end Scan

end TabletDelta
