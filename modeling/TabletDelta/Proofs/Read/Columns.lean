import TabletDelta.Proofs.Read.Protocol

/-!
# The columns of a batch

What a scan writes for a projected column is a matter of this column alone. The writes selected for
it are found from the store's entries without a look at the rest of the projection
(`columnWrites_selection`), and a batch that was prepared stays as it is, whatever is called on the
scan or added to the store, until the scan is moved (`HasBatch.eq_behind`). So the batched read of a
column leaves the latest value of each row, and two scans that have it in different projections
leave the same (`column_reads_latest`).
-/

namespace TabletDelta

namespace Scan

/-- The call moves the scan: it puts it on a row or behind a new batch. -/
def Moves : Event (Store × Op) Reply → Prop
  | ⟨(_, .seek _), .moved (.ok ())⟩ => True
  | ⟨(_, .prepare _), .prepared _ (.ok ())⟩ => True
  | _ => False

/-- The scan has prepared a batch of `rows` rows, from `start` on, out of a store, and still has it:
whatever was called on it before, and on whatever stores of the schema, no call since then has moved
it. -/
def HasBatch (schema projection : Schema) (snapshot : Snapshot) (store : Store) (start rows : Nat)
    (s : Scan) : Prop :=
  ∃ before since, Run (fun call => step call.1 call.2) (.start projection snapshot)
      (before ++ ⟨(store, .prepare rows), .prepared start (.ok ())⟩ :: since) s ∧
    (∀ e ∈ before ++ ⟨(store, .prepare rows), .prepared start (.ok ())⟩ :: since,
      e.call.1.Reachable schema) ∧
    ∀ e ∈ since, ¬ Moves e

variable {schema projection : Schema} {snapshot : Snapshot} {store : Store} {s s' : Scan}
  {start rows : Nat}

/-! ## The writes of a column -/

/-- Of a batch, writing a column only looks at the column and the writes for it. -/
theorem apply_congr {writes writes' : List Write} {column column' : Nat} {c : Column}
    (hphase : s.phase = .prepared rows writes) (hphase' : s'.phase = .prepared rows writes')
    (hc : s.projection.columns[column]? = some c) (hc' : s'.projection.columns[column']? = some c)
    (hwrites : columnWrites writes column = columnWrites writes' column') (target : Target) :
    s.apply column target = s'.apply column' target := by
  unfold columnWrites at hwrites
  unfold apply Schema.column
  rw [hphase, hphase']
  simp only [hc, hc', hwrites]

/-! ## Calls since a batch was prepared -/

/-- A call that does not move a scan with a batch changes nothing. -/
theorem step_unmoved {writes : List Write}
    (hphase : s.phase = .prepared rows writes) {call : Store × Op}
    (hstore : call.1.Reachable schema)
    (hunmoved : ¬ Moves (eventOf (fun call => step call.1 call.2) call s)) :
    (step call.1 call.2 s).2 = s := by
  obtain ⟨store, op⟩ := call
  have hfresh : s.phase ≠ .fresh := by
    rw [hphase]
    exact ScanPhase.noConfusion
  cases op with
  | init =>
    show (s.init store.schema).state = s
    rw [init_refused hfresh]
    rfl
  | seek row =>
    rcases seek_cases s row with ⟨e, hseek⟩ | ⟨-, -, hseek⟩
    · show (s.seek row).state = s
      rw [hseek]
      rfl
    · refine absurd ?_ hunmoved
      show Moves ⟨(store, .seek row), .moved (s.seek row).result⟩
      rw [hseek]
      trivial
  | prepare n =>
    -- The entries of a reachable store can be read, so the scan would be behind another batch.
    have hpositioned : s.phase ≠ .bound := by
      rw [hphase]
      exact ScanPhase.noConfusion
    refine absurd ?_ hunmoved
    show Moves ⟨(store, .prepare n), .prepared s.position (s.prepare store n).result⟩
    rw [prepare_eq_ok hstore.holds hfresh hpositioned]
    trivial
  | apply column target => rfl

/-- Calls change neither what a scan reads nor what it sees. -/
theorem frame_of_run {calls : List (Event (Store × Op) Reply)}
    (hrun : Run (fun call => step call.1 call.2) s calls s') :
    s'.projection = s.projection ∧ s'.snapshot = s.snapshot := by
  refine hrun.preserves (fun t => t.projection = s.projection ∧ t.snapshot = s.snapshot) ?_
    ⟨rfl, rfl⟩
  rintro t call ⟨hprojection, hsnapshot⟩
  obtain ⟨hprojection', hsnapshot'⟩ := (step_effect (s := t) rfl call.2).frame
  exact ⟨hprojection'.trans hprojection, hsnapshot'.trans hsnapshot⟩

/-- A scan that still has its batch is as the call that prepared the batch has left it. -/
theorem HasBatch.eq_behind (h : HasBatch schema projection snapshot store start rows s) :
    ∃ first : Scan, first.Bound schema ∧ first.projection = projection ∧
      first.snapshot = snapshot ∧ first.position = start ∧ s = first.behind schema store rows := by
  obtain ⟨before, since, hrun, hstores, hunmoved⟩ := h
  obtain ⟨first, hbefore, hanswer, hsince⟩ := hrun.split
  have hstore : store.Reachable schema :=
    hstores ⟨(store, .prepare rows), .prepared start (.ok ())⟩
      (List.mem_append_right before List.mem_cons_self)
  have hsound : first.Sound schema :=
    sound_of_run hbefore fun e he => (hstores e (List.mem_append_left _ he)).holds.schema_eq
  obtain ⟨hprojection, hsnapshot⟩ := frame_of_run hbefore
  obtain ⟨hstart, hok⟩ := Reply.prepared.inj hanswer
  -- The call has succeeded, so the scan was on a row.
  have hlate : ¬ (first.phase = .fresh ∨ first.phase = .bound) := by
    intro hearly
    change .ok () = (first.prepare store rows).result at hok
    rw [prepare_tooEarly store hearly rows] at hok
    cases hok
  obtain ⟨hfresh, hpositioned⟩ := not_or.1 hlate
  have hbound := hsound.bound hfresh
  have hbehind : (step store (.prepare rows) first).2 = first.behind schema store rows :=
    congrArg Outcome.state (prepare_eq_ok hstore.holds hfresh hpositioned rows)
  refine ⟨first, hbound, hprojection, hsnapshot, hstart.symm, ?_⟩
  -- By induction on the calls since then, none of which changes anything.
  have hkept := hsince.invariant_of_forall (Q := fun e => e.call.1.Reachable schema ∧ ¬ Moves e)
    (fun _ t => t = first.behind schema store rows)
    (by
      rintro past t call ht ⟨hreachable, hstill⟩
      have hphase : t.phase = .prepared rows (first.selection schema store rows) :=
        congrArg Scan.phase ht
      exact (step_unmoved hphase hreachable hstill).trans ht)
    hbehind
    (fun e he => ⟨hstores e (List.mem_append_right _ (List.mem_cons_of_mem _ he)), hunmoved e he⟩)
  exact hkept

/-- The batched read of a column is the reference read. Take any scan that has prepared a batch,
whatever was called on it before and has been called or added to the store since. It stands behind
the batch. A column that it writes to a block leaves in the slot of each row of the batch the last
value that the deltas seen give to the column's source, by transaction and then by the place in the
change list, as the store was when the batch was prepared; the slots of rows without one, and those
beyond the batch, keep what they held. And any other scan that has the same batch prepared does the
same for the same column, in whatever projection. -/
theorem column_reads_latest (h : HasBatch schema projection snapshot store start rows s) :
    s.position = min (start + rows) maxPosition ∧ s.preparedRows = rows ∧
      (∀ column target, (s.apply column target).result = .ok () →
        ∃ source, schema.source? projection column = some source ∧ rows ≤ target.block.rows ∧
          target.block.Overwritten (s.apply column target).state.block fun slot =>
            if slot < rows then
              latest schema store.entries snapshot.isCommitted (start + slot) source
            else none) ∧
      ∀ (projection' : Schema) (s' : Scan),
        HasBatch schema projection' snapshot store start rows s' →
          ∀ (column column' : Nat) (c : Column), projection.columns[column]? = some c →
            projection'.columns[column']? = some c →
              ∀ target, s.apply column target = s'.apply column' target := by
  obtain ⟨first, hbound, rfl, rfl, rfl, rfl⟩ := h.eq_behind
  have hstore : store.Reachable schema := by
    obtain ⟨before, since, -, hstores, -⟩ := h
    exact hstores ⟨(store, .prepare rows), _⟩ (List.mem_append_right before List.mem_cons_self)
  refine ⟨rfl, rfl, ?_, ?_⟩
  · intro column target hok
    exact (behind_serves hbound hstore.holds rows).apply_overwrites hok
  · intro projection' s' h' column column' c hc hc' target
    obtain ⟨other, hbound', rfl, hsnapshot, hposition, rfl⟩ := h'.eq_behind
    -- Both columns have the source of their common name.
    obtain ⟨j, -, hsource, -⟩ := hbound.source?_eq_some hc
    have hsource' : schema.source? other.projection column' = some j := by
      rw [← hsource]
      unfold Schema.source?
      rw [hc, hc']
    have hwrites : columnWrites (first.selection schema store rows) column =
        columnWrites (other.selection schema store rows) column' := by
      rw [columnWrites_selection hbound hsource, columnWrites_selection hbound' hsource']
      unfold stop
      rw [hsnapshot, hposition]
    have hphase : (first.behind schema store rows).phase =
        .prepared rows (first.selection schema store rows) := rfl
    have hphase' : (other.behind schema store rows).phase =
        .prepared rows (other.selection schema store rows) := rfl
    exact apply_congr hphase hphase' hc hc' hwrites target

/-- The schema of a number and a truth value. -/
def numberAndFlag : Schema := ⟨[⟨"n", .uint32⟩, ⟨"f", .bool⟩], 0, by decide, by decide⟩

/-- The same columns in the other order. -/
def flagAndNumber : Schema := ⟨[⟨"f", .bool⟩, ⟨"n", .uint32⟩], 0, by decide, by decide⟩

/-- Transaction 5 gives the last row there can be two numbers in turn, and 9 changes the flag. -/
def lastRowUpdates : List Entry :=
  [⟨⟨0xffffffff, 9⟩, [1, 0, 0, 0, 1]⟩,
    ⟨⟨0xffffffff, 5⟩, [0, 0, 0, 0, 3, 0, 0, 0, 0, 0, 0, 0, 7, 0, 0, 0]⟩]

/-- The store after these updates. -/
def lastRowStore : Store := (execute Store.step lastRowUpdates (.empty numberAndFlag {})).2

/-- The store after another transaction has changed the number. -/
def changedStore : Store :=
  (execute Store.step (lastRowUpdates ++ [⟨⟨0xffffffff, 8⟩, [0, 0, 0, 0, 4, 0, 0, 0]⟩])
    (.empty numberAndFlag {})).2

/-- Both stores are reached by their updates. -/
theorem reachable_lastRow :
    lastRowStore.Reachable numberAndFlag ∧ changedStore.Reachable numberAndFlag :=
  ⟨⟨{}, _, .of_execute _ _⟩, ⟨{}, _, .of_execute _ _⟩⟩

/-- Two rows are prepared from the last row on, and the flags written once the number has been
changed in the store. -/
def lastRowCalls : List (Store × Op) :=
  [(lastRowStore, .init), (lastRowStore, .seek 0xffffffff), (lastRowStore, .prepare 2),
    (changedStore, .apply 0 ⟨.blank .bool 2, default⟩)]

/-- A scan of a projection that sees all transactions, with these calls made on it. -/
def lastRowRun (projection : Schema) : List (Event (Store × Op) Reply) × Scan :=
  execute (fun call => step call.1 call.2) lastRowCalls (.start projection .includingAll)

/-- In either projection, the batch starts at the last row there can be and is still there. -/
theorem hasBatch_lastRow {projection : Schema}
    (h : projection ∈ [numberAndFlag, flagAndNumber]) :
    HasBatch numberAndFlag projection .includingAll lastRowStore 0xffffffff 2
      (lastRowRun projection).2 := by
  have hevents : ∀ projection ∈ [numberAndFlag, flagAndNumber],
      (lastRowRun projection).1 = (lastRowRun projection).1.take 2 ++
        ⟨(lastRowStore, .prepare 2), .prepared 0xffffffff (.ok ())⟩ ::
          (lastRowRun projection).1.drop 3 := by decide +kernel
  have hcalls : (lastRowRun projection).1.map Event.call = lastRowCalls := by
    unfold lastRowRun
    exact Run.calls_execute lastRowCalls (Scan.start projection .includingAll)
  refine ⟨(lastRowRun projection).1.take 2, (lastRowRun projection).1.drop 3, ?_, ?_, ?_⟩
  · rw [← hevents projection h]
    exact Run.of_execute lastRowCalls (Scan.start projection .includingAll)
  · rw [← hevents projection h]
    intro e he
    have hcall : e.call ∈ lastRowCalls := hcalls ▸ List.mem_map_of_mem he
    have hstores : ∀ call ∈ lastRowCalls, call.1 = lastRowStore ∨ call.1 = changedStore := by
      simp [lastRowCalls]
    rcases hstores e.call hcall with hstore | hstore
    · exact hstore ▸ reachable_lastRow.1
    · exact hstore ▸ reachable_lastRow.2
  · rintro ⟨call, answer⟩ he
    have hcall : call ∈ lastRowCalls.drop 3 := by
      rw [← hcalls, ← List.map_drop]
      exact List.mem_map_of_mem he
    obtain rfl : call = (changedStore, .apply 0 ⟨.blank .bool 2, default⟩) :=
      List.mem_singleton.1 hcall
    exact not_false

/-- The number of the last row is the last one that transaction 5 has given it, and the slot after
it keeps what it held. It comes out the same in either projection. -/
theorem column_reads_latest_lastRow :
    (lastRowRun flagAndNumber).2.position = 4294967297 ∧
      ((lastRowRun flagAndNumber).2.apply 1 ⟨.blank .uint32 2, default⟩).state.block.cells =
        [.uint32 7, .uint32 0] ∧
      latest numberAndFlag lastRowStore.entries Snapshot.includingAll.isCommitted 0xffffffff 0 =
        some (.uint32 7) ∧
      ∀ target, (lastRowRun flagAndNumber).2.apply 1 target =
        (lastRowRun numberAndFlag).2.apply 0 target := by
  have hmem : flagAndNumber ∈ [numberAndFlag, flagAndNumber] := by decide
  obtain ⟨hposition, -, hlatest, hsame⟩ := column_reads_latest (hasBatch_lastRow hmem)
  have hok : ((lastRowRun flagAndNumber).2.apply 1 ⟨.blank .uint32 2, default⟩).result =
      .ok () := by decide +kernel
  obtain ⟨source, hsource, -, hover⟩ := hlatest 1 _ hok
  obtain rfl : source = 0 := by
    have hzero : numberAndFlag.source? flagAndNumber 1 = some 0 := by decide
    rw [hzero, Option.some_inj] at hsource
    exact hsource.symm
  have hseven : latest numberAndFlag lastRowStore.entries Snapshot.includingAll.isCommitted
      0xffffffff 0 = some (.uint32 7) := by decide +kernel
  have hnone : latest numberAndFlag lastRowStore.entries Snapshot.includingAll.isCommitted
      (0xffffffff + 1) 0 = none := by decide +kernel
  refine ⟨hposition, List.ext_getElem? fun slot => ?_, hseven, ?_⟩
  · rw [hover.cells_eq]
    match slot with
    | 0 => rw [if_pos (by decide), Nat.add_zero, hseven]; rfl
    | 1 => rw [if_pos (by decide), hnone]; rfl
    | slot + 2 => rfl
  · exact hsame numberAndFlag _ (hasBatch_lastRow (by decide)) 1 0 ⟨"n", .uint32⟩ rfl rfl

end Scan

end TabletDelta
