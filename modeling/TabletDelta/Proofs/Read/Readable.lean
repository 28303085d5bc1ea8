import TabletDelta.Proofs.ChangeList.Codec
import TabletDelta.Proofs.Read.CallOrder

/-!
# What a store accepts, every scan can read

A store checks the bytes of a change list once, against its own schema, when they come in. A scan
reads them again whenever it prepares a batch, and then uses what it reads without another check:
the index of a column to look up a route, the route to choose a projected column, the row to choose
a slot, and the type of a cell to write it. All of this is in range, because the scan is bound to
the schema that the bytes were checked against (`Meets`). So the cells of a batch fit it, which no
call changes (`Staged`), and all that can stand in the way of writing them is memory for strings
(`accepted_readable`).
-/

namespace TabletDelta

namespace Scan

/-- What a scan meets in an entry of a batch of `rows` rows stays within what the scan has. -/
structure Meets (schema : Schema) (rows : Nat) (s : Scan) (e : Entry) : Prop where
  /-- The row is not before the batch. -/
  row_ge : s.position ≤ e.key.row.toNat
  /-- The row is not behind the batch. -/
  row_lt : e.key.row.toNat < s.position + rows
  /-- The change list can be read, and each assignment is for a column that the scan has looked at
  when it was bound. If the column is projected, then the projected column is there, and the cell is
  of its type. A string stands in the bytes of the change list. -/
  assigned : ∃ as, ChangeList.assignments schema e.changes = .ok as ∧ ∀ a ∈ as,
    a.column < s.routes.length ∧
      (∀ column, s.route a.column = some column →
        ∃ c, s.projection.columns[column]? = some c ∧ a.value.type = c.type) ∧
      ∀ string, a.value = .string string → string <:+: e.changes

/-- A scan is staged for a schema if it is sound and all writes of its batch fit. -/
structure Staged (schema : Schema) (s : Scan) : Prop where
  /-- The scan is sound. -/
  sound : s.Sound schema
  /-- Each write is for a row of the batch and of its column's type. -/
  fits : ∀ rows writes, s.phase = .prepared rows writes → ∀ w ∈ writes, w.Fits s.projection rows

variable {schema projection : Schema} {store : Store} {deltas : List Entry} {s : Scan}

/-! ## Preparing -/

/-- A bound scan meets only what it has in the entries of a store that can be read. -/
theorem Bound.meets (h : s.Bound schema) (hstore : store.Holds schema deltas) {rows : Nat}
    {e : Entry} (he : e ∈ store.range s.position (s.stop rows)) : s.Meets schema rows e := by
  rw [Store.range_eq_filter hstore.sorted, List.mem_filter] at he
  obtain ⟨hmem, hrow⟩ := he
  simp only [Bool.and_eq_true, decide_eq_true_eq] at hrow
  have hstop : s.stop rows ≤ s.position + rows := Nat.min_le_left ..
  obtain ⟨as, has⟩ := hstore.readable e hmem
  refine ⟨hrow.1, Nat.lt_of_lt_of_le hrow.2 hstop, as, has, fun a ha => ?_⟩
  have hfits := ChangeList.fits_of_assignments has a ha
  have hcolumn : a.column < s.routes.length := by
    -- There is a route for each column of the schema.
    obtain ⟨stored, hstored, -⟩ := hfits
    rw [h.routes_eq, List.length_map]
    exact (List.getElem?_eq_some_iff.1 hstored).1
  exact ⟨hcolumn, fun column hroute => h.type_of_route hfits hroute,
    fun string hvalue => ChangeList.infix_of_assignments has ha hvalue⟩

/-! ## Staging -/

/-- A new scan has nothing staged. -/
theorem staged_start (projection : Schema) (snapshot : Snapshot) :
    (start projection snapshot).Staged schema :=
  ⟨sound_start projection snapshot, fun _ _ h => ScanPhase.noConfusion h⟩

/-- A move on a readable store keeps a scan staged. -/
theorem Staged.move (h : s.Staged schema) (hstore : store.Holds schema deltas) (m : Move) :
    (DeltaSource.move store m s).state.Staged schema := by
  have heffect : Effect schema s (DeltaSource.move store m s).state := by
    rw [move_state]
    exact step_effect hstore.schema_eq (opOf m)
  refine ⟨h.sound.of_effect heffect, fun rows writes hphase => ?_⟩
  rcases batch_of_move hstore hphase with ⟨-, hsame⟩ | ⟨-, hfresh, hbehind⟩
  · rw [hsame] at hphase ⊢
    exact h.fits rows writes hphase
  · rw [hbehind] at hphase ⊢
    cases hphase
    exact fun w hw => fits_of_mem_selection (h.sound.bound hfresh) hstore hw

/-- A call on a readable store keeps a scan staged. -/
theorem Staged.step (h : s.Staged schema) (hstore : store.Holds schema deltas) (op : Op) :
    (step store op s).2.Staged schema := by
  cases op with
  | init => exact h.move hstore .init
  | seek row => exact h.move hstore (.seek row)
  | prepare rows => exact h.move hstore (.prepare rows)
  | apply column target => exact h

/-- A scan stays staged whatever is called on it, on reachable stores of one schema. -/
theorem staged_of_run {snapshot : Snapshot} {calls : Calls}
    (hrun : Run (fun call => Scan.step call.1 call.2) (.start projection snapshot) calls s)
    (hstores : ∀ e ∈ calls, e.call.1.Reachable schema) : s.Staged schema :=
  hrun.invariant_of_forall (fun _ s => s.Staged schema)
    (fun _ _ call hstaged hstore => hstaged.step hstore.holds call.2)
    (staged_start projection snapshot) hstores

/-- **What a store accepts, every scan can read.** Take a scan after any calls, on any stores of one
schema that can be reached, of any projection and with any snapshot.

* Once it has been put on a row, a batch of any number of rows can be prepared from any such store.
  Whatever the scan meets on the way stays within what it has, and the cells that it keeps fit the
  batch.
* As long as it has a batch, all cells of the batch fit. Writing a projected column to a block of
  its type with a slot for each row succeeds, or else the column is one of strings and the memory
  for them is exhausted.
-/
theorem accepted_readable {snapshot : Snapshot} {calls : Calls}
    (hrun : Run (fun call => Scan.step call.1 call.2) (.start projection snapshot) calls s)
    (hstores : ∀ e ∈ calls, e.call.1.Reachable schema) :
    (Seeked calls → ∀ store : Store, store.Reachable schema → ∀ rows,
      (∀ e ∈ store.range s.position (s.stop rows), s.Meets schema rows e) ∧
        ∃ writes, s.prepare store rows =
            .ok () { s with
              phase := .prepared rows writes
              position := s.stop rows
              reached := some (s.stop rows) } ∧
          ∀ w ∈ writes, w.Fits projection rows) ∧
    ∀ rows writes, s.phase = .prepared rows writes →
      (∀ w ∈ writes, w.Fits projection rows) ∧
        ∀ column c (target : Target), projection.columns[column]? = some c →
          c.type = target.block.type → rows ≤ target.block.rows →
            (s.apply column target).result = .ok () ∨
              c.type = .string ∧ ∃ requested limit,
                (s.apply column target).result = .error (.arenaExhausted requested limit) := by
  have haccount := account_of_run hrun hstores
  have hstaged := staged_of_run hrun hstores
  have hprojection := haccount.projection_eq
  refine ⟨fun hseeked store hstore rows => ?prepared, fun rows writes hphase => ?written⟩
  case prepared =>
    obtain ⟨hfresh, hunbound⟩ := not_or.1 (mt haccount.early_iff.1 (not_not.2 hseeked))
    have hbound := haccount.sound.bound hfresh
    refine ⟨fun e he => hbound.meets hstore.holds he, s.selection schema store rows,
      prepare_eq_ok hstore.holds hfresh hunbound rows, fun w hw => ?_⟩
    rw [← hprojection]
    exact fits_of_mem_selection hbound hstore.holds hw
  case written =>
    have hfits := hstaged.fits rows writes hphase
    rw [← hprojection]
    refine ⟨hfits, fun column c target hc htype hrows => ?_⟩
    rcases apply_result hphase hfits hc htype.symm hrows with
      hwritten | ⟨hstring, -, requested, limit, hexhausted⟩
    · exact .inl hwritten
    · exact .inr ⟨htype.trans hstring, requested, limit, hexhausted⟩

/-- A store with one entry, in the last row of all: five assignments to three columns. -/
def crowdedStore : Store :=
  (execute Store.step
    [⟨⟨4294967295, 1⟩, ChangeList.mixedAssignments.flatMap Assignment.bytes⟩]
    (.empty ChangeList.mixedSchema {})).2

/-- Two of the columns, in another order. -/
def crowdedProjection : Schema where
  columns := [⟨"name", .string⟩, ⟨"balance", .int64⟩]
  keyCount := 0
  keyCount_le := by decide
  nodup := by decide

/-- Calls to prepare a batch of three rows, of which there are only two. -/
def crowdedCalls : List (Store × Op) :=
  [(crowdedStore, .init), (crowdedStore, .seek 4294967294), (crowdedStore, .prepare 3)]

/-- A scan of the two columns after these calls. -/
def crowdedRun : Calls × Scan :=
  execute (fun call => Scan.step call.1 call.2) crowdedCalls
    (.start crowdedProjection .includingAll)

/-- A block of three rows with an arena that has one byte. -/
def crampedTarget (type : ColumnType) : Target := ⟨.blank type 3, .ofConfig { limit := some 1 }⟩

/-- The last row has a slot in the batch. The numbers can be written, for which no memory is needed,
and the strings cannot. -/
theorem accepted_readable_crowded :
    (∀ e ∈ crowdedRun.1, e.call.1.Reachable ChangeList.mixedSchema) ∧ Seeked crowdedRun.1 ∧
      (crowdedRun.2.prepare crowdedStore 3).result = .ok () ∧
      crowdedRun.2.phase = .prepared 3 [⟨0, 1, .string [104, 105]⟩, ⟨1, 1, .int64 (-2)⟩,
        ⟨1, 1, .int64 3⟩, ⟨0, 1, .string []⟩] ∧
      (crowdedRun.2.apply 1 (crampedTarget .int64)).result = .ok () ∧
      (crowdedRun.2.apply 0 (crampedTarget .string)).result = .error (.arenaExhausted 2 1) := by
  have hstore : crowdedStore.Reachable ChangeList.mixedSchema := ⟨{}, _, .of_execute _ _⟩
  have hstores : ∀ e ∈ crowdedRun.1, e.call.1.Reachable ChangeList.mixedSchema := by
    intro e he
    have hcalls : crowdedRun.1.map Event.call = crowdedCalls := Run.calls_execute ..
    have hcall : e.call ∈ crowdedCalls := hcalls ▸ List.mem_map_of_mem he
    have hall : ∀ call ∈ crowdedCalls, call.1 = crowdedStore := by simp [crowdedCalls]
    rw [hall e.call hcall]
    exact hstore
  have hlandings : landings crowdedRun.1 = [.onRow 4294967294, .behind ⟨4294967294, 3⟩] := by
    decide +kernel
  have hseeked : Seeked crowdedRun.1 := ⟨4294967294, hlandings ▸ List.mem_cons_self⟩
  have hphase : crowdedRun.2.phase = .prepared 3 [⟨0, 1, .string [104, 105]⟩,
      ⟨1, 1, .int64 (-2)⟩, ⟨1, 1, .int64 3⟩, ⟨0, 1, .string []⟩] := by
    decide +kernel
  have hrun : Run (fun call => Scan.step call.1 call.2) (.start crowdedProjection .includingAll)
      crowdedRun.1 crowdedRun.2 := .of_execute _ _
  obtain ⟨hprepared, hwritten⟩ := accepted_readable hrun hstores
  obtain ⟨-, writes, hprepare, -⟩ := hprepared hseeked crowdedStore hstore 3
  refine ⟨hstores, hseeked, congrArg Outcome.result hprepare, hphase, ?_, by decide +kernel⟩
  refine ((hwritten 3 _ hphase).2 1 ⟨"balance", .int64⟩ (crampedTarget .int64) rfl rfl
    (by decide)).resolve_right ?_
  rintro ⟨hstring, -⟩
  cases hstring

end Scan

end TabletDelta
