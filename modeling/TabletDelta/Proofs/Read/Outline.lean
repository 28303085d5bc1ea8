import TabletDelta.Proofs.Read.Calls
import TabletDelta.Proofs.Read.Protocol

/-!
# Scans in outline

What a scan sees makes no difference to the order of its calls. `Scan.outline` takes it away, the
snapshot and the cells of the batch, and what is left moves in the same way whatever readable store
is read (`move_outline`). So scans of one outline stay in lock step, on different stores and with
different snapshots. Also what is checked before a column is written is a matter of the outline
(`apply_cases`).

What the cells of a batch do to a block is said by `Shows`: the scan has one outline and one
snapshot, and its batch gives each row its latest value among the entries of a store.
-/

namespace TabletDelta

/-- The phase without the cells of a batch. -/
def ScanPhase.outline : ScanPhase → ScanPhase
  | .prepared rows _ => .prepared rows []
  | phase => phase

namespace Scan

/-- The scan without what it sees: neither its snapshot nor the cells of its batch. -/
def outline (s : Scan) : Scan := { s with snapshot := .includingNone, phase := s.phase.outline }

/-- A store without entries, which shows how a scan in outline moves. -/
def bareStore (schema : Schema) : Store := .empty schema {}

variable {schema : Schema} {store : Store} {deltas : List Entry} {s : Scan}

/-- A scan is fresh exactly if it is so in outline. -/
theorem outline_fresh_iff : s.outline.phase = .fresh ↔ s.phase = .fresh := by
  unfold outline
  cases s.phase <;> simp [ScanPhase.outline]

/-- A scan is bound, but on no row, exactly if it is so in outline. -/
theorem outline_bound_iff : s.outline.phase = .bound ↔ s.phase = .bound := by
  unfold outline
  cases s.phase <;> simp [ScanPhase.outline]

/-- A scan has prepared as many rows as it has in outline. -/
theorem preparedRows_outline (s : Scan) : s.outline.preparedRows = s.preparedRows := by
  unfold preparedRows outline
  cases s.phase <;> rfl

/-- The bare store has no deltas. -/
theorem bareStore_holds (schema : Schema) : (bareStore schema).Holds schema [] :=
  Store.holds_of_run (.nil (Store.empty schema {}))

/-! ## Moving -/

/-- A scan is bound as it is in outline. -/
theorem init_outline (s : Scan) : s.outline.init schema = (s.init schema).mapState outline := by
  unfold init
  by_cases hfresh : s.phase = .fresh
  · rw [if_pos hfresh, if_pos (outline_fresh_iff.2 hfresh)]
    have hprojection : s.outline.projection = s.projection := rfl
    rw [hprojection]
    cases routeColumns schema 0 s.projection.columns (List.replicate schema.size none) <;> rfl
  · rw [if_neg hfresh, if_neg (mt outline_fresh_iff.1 hfresh)]
    rfl

/-- A scan is put on a row as it is in outline. -/
theorem seek_outline (s : Scan) (row : Row) :
    s.outline.seek row = (s.seek row).mapState outline := by
  unfold seek
  by_cases hfresh : s.phase = .fresh
  · rw [if_pos hfresh, if_pos (outline_fresh_iff.2 hfresh)]
    rfl
  · rw [if_neg hfresh, if_neg (mt outline_fresh_iff.1 hfresh)]
    have hreached : s.outline.reached = s.reached := rfl
    rw [hreached]
    cases s.reached with
    | none => rfl
    | some reached =>
      dsimp only
      split <;> rfl

/-- A scan that reads a store without a fault prepares a batch as it does in outline. -/
theorem prepare_outline (hstore : store.Holds schema deltas) (s : Scan) (rows : Nat) :
    s.outline.prepare (bareStore schema) rows = (s.prepare store rows).mapState outline := by
  by_cases hearly : s.phase = .fresh ∨ s.phase = .bound
  · have hearly' := hearly.imp outline_fresh_iff.2 outline_bound_iff.2
    rw [prepare_tooEarly store hearly, prepare_tooEarly (bareStore schema) hearly']
    rfl
  · obtain ⟨hfresh, hbound⟩ := not_or.1 hearly
    rw [prepare_eq_ok hstore hfresh hbound,
      prepare_eq_ok (bareStore_holds schema) (mt outline_fresh_iff.1 hfresh)
        (mt outline_bound_iff.1 hbound)]
    rfl

/-- A scan that reads a store without a fault moves as it does in outline. -/
theorem move_outline (hstore : store.Holds schema deltas) (m : Move) (s : Scan) :
    DeltaSource.move (bareStore schema) m s.outline =
      (DeltaSource.move store m s).mapState outline := by
  cases m with
  | init =>
    show s.outline.init schema = (s.init store.schema).mapState outline
    rw [hstore.schema_eq, init_outline]
  | seek row => exact seek_outline s row
  | prepare rows => exact prepare_outline hstore s rows

/-- A move that is refused leaves a scan that reads a store without a fault as it was. -/
theorem move_refused (hstore : store.Holds schema deltas) {m : Move} {e : Error}
    (h : (DeltaSource.move store m s).result = .error e) :
    DeltaSource.move store m s = .fail e s := by
  cases m with
  | init =>
    change (s.init store.schema).result = .error e at h
    show s.init store.schema = .fail e s
    rcases init_cases store.schema s with
      ⟨-, -, routes, hinit, -⟩ | ⟨-, -, fault, hinit⟩ | ⟨-, hinit⟩ <;> rw [hinit] at h ⊢ <;> cases h
    · rfl
    · rfl
  | seek row =>
    change (s.seek row).result = .error e at h
    show s.seek row = .fail e s
    rcases seek_cases s row with ⟨fault, hseek⟩ | ⟨-, -, hseek⟩ <;> rw [hseek] at h ⊢ <;> cases h
    rfl
  | prepare rows =>
    change (s.prepare store rows).result = .error e at h
    show s.prepare store rows = .fail e s
    by_cases hearly : s.phase = .fresh ∨ s.phase = .bound
    · rw [prepare_tooEarly store hearly] at h ⊢
      cases h
      rfl
    · obtain ⟨hfresh, hbound⟩ := not_or.1 hearly
      rw [prepare_eq_ok hstore hfresh hbound] at h
      cases h

/-- The call on a scan that makes a move. -/
def opOf : Move → Op
  | .init => .init
  | .seek row => .seek row
  | .prepare rows => .prepare rows

/-- A move is a call on the scan. -/
theorem move_state (store : Store) (m : Move) (s : Scan) :
    (DeltaSource.move store m s).state = (step store (opOf m) s).2 := by
  cases m <;> rfl

/-- A batch that is there after a move was there already, or has just been prepared from what the
store has for its rows. -/
theorem batch_of_move (hstore : store.Holds schema deltas) {m : Move} {rows : Nat}
    {writes : List Write} (h : (DeltaSource.move store m s).state.phase = .prepared rows writes) :
    (∀ n, m ≠ .prepare n) ∧ (DeltaSource.move store m s).state = s ∨
      m = .prepare rows ∧ s.phase ≠ .fresh ∧
        (DeltaSource.move store m s).state = s.behind schema store rows := by
  cases m with
  | init =>
    change (s.init store.schema).state.phase = .prepared rows writes at h
    refine .inl ⟨nofun, ?_⟩
    show (s.init store.schema).state = s
    rcases init_cases store.schema s with
      ⟨-, -, routes, hinit, -⟩ | ⟨-, -, fault, hinit⟩ | ⟨-, hinit⟩
    · -- A scan that has just been bound has no batch.
      rw [hinit] at h
      cases h
    · rw [hinit]
      rfl
    · rw [hinit]
      rfl
  | seek row =>
    change (s.seek row).state.phase = .prepared rows writes at h
    refine .inl ⟨nofun, ?_⟩
    show (s.seek row).state = s
    rcases seek_cases s row with ⟨e, hseek⟩ | ⟨-, -, hseek⟩
    · rw [hseek]
      rfl
    · rw [hseek] at h
      cases h
  | prepare n =>
    change (s.prepare store n).state.phase = .prepared rows writes at h
    refine .inr ?_
    show Move.prepare n = .prepare rows ∧ _ ∧ (s.prepare store n).state = _
    by_cases hearly : s.phase = .fresh ∨ s.phase = .bound
    · rw [prepare_tooEarly store hearly] at h
      change s.phase = _ at h
      rw [h] at hearly
      rcases hearly with h | h <;> cases h
    · obtain ⟨hfresh, hbound⟩ := not_or.1 hearly
      rw [prepare_eq_ok hstore hfresh hbound] at h ⊢
      cases h
      exact ⟨rfl, hfresh, rfl⟩

/-! ## Writing -/

/-- Before a column is written, the scan is checked as it is in outline; what is left is to write
the cells selected for the column. -/
theorem apply_cases (s : Scan) (column : Nat) (target : Target) :
    (∃ e, (s.outline.apply column target).result = .error e ∧
        s.apply column target = .fail e target) ∨
      (s.outline.apply column target).result = .ok () ∧ ∃ rows writes c,
        s.phase = .prepared rows writes ∧ s.projection.columns[column]? = some c ∧
          target.block.type = c.type ∧ rows ≤ target.block.rows := by
  unfold apply Schema.column
  have hprojection : s.outline.projection = s.projection := rfl
  rw [hprojection]
  cases hphase : s.phase with
  | fresh | bound | positioned =>
    refine .inl ⟨.invalidState (.tooEarly .applyUpdates .prepareBatch), ?_, rfl⟩
    have houtline : s.outline.phase = s.phase.outline := rfl
    rw [houtline, hphase]
    rfl
  | prepared rows writes =>
    have houtline : s.outline.phase = .prepared rows [] := by
      show s.phase.outline = _
      rw [hphase]
      rfl
    simp only [houtline]
    cases hc : s.projection.columns[column]? with
    | none => exact .inl ⟨_, rfl, rfl⟩
    | some c =>
      dsimp only
      by_cases htype : c.type ≠ target.block.type
      · rw [if_pos htype, if_pos htype]
        exact .inl ⟨_, rfl, rfl⟩
      · rw [if_neg htype, if_neg htype]
        by_cases hrows : target.block.rows < rows
        · rw [if_pos hrows, if_pos hrows]
          exact .inl ⟨_, rfl, rfl⟩
        · rw [if_neg hrows]
          exact .inr ⟨rfl, rows, writes, c, rfl, rfl, (not_not.1 htype).symm, Nat.not_lt.1 hrows⟩

/-- What is checked of a block before a column is written is its type and its number of slots. -/
theorem apply_outline_congr (s : Scan) (column : Nat) {target target' : Target}
    (htype : target.block.type = target'.block.type)
    (hrows : target.block.rows = target'.block.rows) :
    (s.outline.apply column target).result = (s.outline.apply column target').result := by
  unfold apply
  cases hphase : s.outline.phase with
  | fresh | bound | positioned => rfl
  | prepared rows writes =>
    have hwrites : writes = [] := by
      have houtline : s.phase.outline = .prepared rows writes := hphase
      cases h : s.phase with
      | prepared _ _ =>
        rw [h] at houtline
        cases houtline
        rfl
      | fresh | bound | positioned =>
        rw [h] at houtline
        cases houtline
    dsimp only
    cases s.outline.projection.column column with
    | error e => rfl
    | ok c =>
      dsimp only
      rw [hwrites, htype, hrows]
      split
      · rfl
      · split <;> rfl

/-! ## Showing a store -/

/-- What deltas leave in the slots of a batch, which starts at the row `start`, for a projected
column: the latest value of the slot's row, as far as a snapshot sees the deltas. -/
def batchCell (schema : Schema) (deltas : List Entry) (snapshot : Snapshot) (start : Nat)
    (outline : Scan) (column slot : Nat) : Option Cell :=
  (schema.source? outline.projection column).bind fun source =>
    if slot < outline.preparedRows then
      latest schema deltas snapshot.isCommitted (start + slot) source
    else none

/-- A scan of an outline shows the deltas of a store, as far as a snapshot sees them: if it has a
batch, the batch starts at the row `start` and serves these deltas. -/
structure Shows (schema : Schema) (deltas : List Entry) (snapshot : Snapshot) (start : Nat)
    (outline s : Scan) : Prop where
  /-- The outline is that of the scan. -/
  outline_eq : s.outline = outline
  /-- The snapshot is that of the scan. -/
  snapshot_eq : s.snapshot = snapshot
  /-- The scan is sound. -/
  sound : s.Sound schema
  /-- A batch serves the deltas. -/
  serves : ∀ rows writes, s.phase = .prepared rows writes →
    s.Serves schema deltas start rows writes

/-- The row that the batch starts at after a move. -/
def startAfter : Move → Scan → Nat → Nat
  | .prepare _, outline, _ => outline.position
  | _, _, start => start

variable {snapshot : Snapshot} {start : Nat} {outline : Scan}

/-- In a batch, deltas count by being there and not by their order. -/
theorem batchCell_congr {other : List Entry}
    (hkeys : ∀ e ∈ deltas, ∀ f ∈ deltas, e.key = f.key → e = f)
    (hsame : ∀ e, e ∈ deltas ↔ e ∈ other) (column slot : Nat) :
    batchCell schema deltas snapshot start outline column slot =
      batchCell schema other snapshot start outline column slot := by
  unfold batchCell
  cases schema.source? outline.projection column with
  | none => rfl
  | some source =>
    have hcandidates : ∀ e,
        e ∈ candidates schema deltas snapshot.isCommitted (start + slot) source ↔
          e ∈ candidates schema other snapshot.isCommitted (start + slot) source := by
      intro e
      rw [mem_candidates, mem_candidates, hsame]
    rw [Option.bind_some, Option.bind_some, latest_congr hkeys hcandidates]

/-- In a batch, what later deltas have for a slot counts before what the others have. -/
theorem batchCell_append {older newer : List Entry}
    (hkeys : ∀ e ∈ older ++ newer, ∀ f ∈ older ++ newer, e.key = f.key → e = f)
    (hlater : ∀ e ∈ older, ∀ f ∈ newer, e.key.row = f.key.row → e.key.txid < f.key.txid)
    (column slot : Nat) :
    batchCell schema (older ++ newer) snapshot start outline column slot =
      (batchCell schema newer snapshot start outline column slot).or
        (batchCell schema older snapshot start outline column slot) := by
  unfold batchCell
  cases schema.source? outline.projection column with
  | none => rfl
  | some source =>
    simp only [Option.bind_some]
    split
    · exact latest_append hkeys hlater
    · rfl

/-- A new scan shows any deltas. -/
theorem shows_start (projection : Schema) (snapshot : Snapshot) (deltas : List Entry) :
    Shows schema deltas snapshot 0 (Scan.start projection snapshot).outline
      (.start projection snapshot) :=
  ⟨rfl, rfl, sound_start projection snapshot, fun _ _ h => ScanPhase.noConfusion h⟩

/-- A scan moves as its outline does, and goes on showing the store. -/
theorem Shows.move (h : Shows schema deltas snapshot start outline s)
    (hstore : store.Holds schema deltas) (m : Move) :
    (DeltaSource.move store m s).result = (DeltaSource.move (bareStore schema) m outline).result ∧
      Shows schema deltas snapshot (startAfter m outline start)
        (DeltaSource.move (bareStore schema) m outline).state
        (DeltaSource.move store m s).state := by
  obtain ⟨rfl, rfl, hsound, hserves⟩ := h
  have houtline := move_outline hstore m s
  have heffect : Effect schema s (DeltaSource.move store m s).state := by
    rw [move_state]
    exact step_effect hstore.schema_eq (opOf m)
  refine ⟨(congrArg Outcome.result houtline).symm, (congrArg Outcome.state houtline).symm,
    heffect.frame.2, hsound.of_effect heffect, fun rows writes hphase => ?_⟩
  rcases batch_of_move hstore hphase with ⟨hmove, hsame⟩ | ⟨rfl, hfresh, hbehind⟩
  · have hstart : startAfter m s.outline start = start := by
      cases m with
      | init | seek row => rfl
      | prepare n => exact absurd rfl (hmove n)
    rw [hsame] at hphase ⊢
    rw [hstart]
    exact hserves rows writes hphase
  · rw [hbehind] at hphase ⊢
    cases hphase
    exact behind_serves (hsound.bound hfresh) hstore rows

/-- How a source writes columns to blocks as long as no arena has a limit: it refuses what a scan in
outline refuses, and otherwise leaves the given cells in the slots of the block. -/
def WritesAs {σ ε : Type} [DeltaSource σ ε] (outline : Scan) (cells : Nat → Nat → Option Cell)
    (source : σ) : Prop :=
  ∀ (column : Nat) (target : Target), target.arena.config.limit = none →
    (∃ e, (outline.apply column target).result = .error e ∧
        DeltaSource.apply column source target = .fail e (source, target)) ∨
      (outline.apply column target).result = .ok () ∧ ∃ after : Target,
        after.arena.config.limit = none ∧ target.block.Overwritten after.block (cells column) ∧
          DeltaSource.apply column source target = .ok () (source, after)

/-- A scan that shows deltas writes a column if its outline would, and leaves in the slots of the
block what the deltas have for them. -/
theorem Shows.writesAs (h : Shows schema deltas snapshot start outline s) :
    WritesAs outline (batchCell schema deltas snapshot start outline) s := by
  obtain ⟨rfl, rfl, -, hserves⟩ := h
  intro column target hlimit
  rcases apply_cases s column target with
    ⟨e, herror, hfail⟩ | ⟨hok, rows, writes, c, hphase, hc, htype, hrows⟩
  · exact .inl ⟨e, herror, congrArg (Outcome.mapState _) hfail⟩
  · have hbatch := hserves rows writes hphase
    -- Past the checks only memory could be missing, and there is no limit to it.
    have hwritten : (s.apply column target).result = .ok () := by
      rcases hbatch.apply_result hc htype hrows with hwritten | ⟨-, hlimited, -⟩
      · exact hwritten
      · exact absurd hlimit hlimited
    obtain ⟨source, hsource, -, hover⟩ := hbatch.apply_overwrites hwritten
    refine .inr ⟨hok, (s.apply column target).state, ?_, hover.congr fun slot _ => ?_, ?_⟩
    · rw [(s.apply_written column target).config_eq, hlimit]
    · have hpreparedRows : s.outline.preparedRows = rows := by
        rw [preparedRows_outline, preparedRows, hphase]
      unfold batchCell
      rw [hpreparedRows]
      show _ = (schema.source? s.projection column).bind _
      rw [hsource]
      rfl
    · show (s.apply column target).mapState _ = _
      unfold Outcome.mapState
      rw [hwritten]
      rfl

/-- A source that reads one of several contents writes as it does by itself. -/
theorem WritesAs.at {κ σ ε : Type} [DeltaSource σ ε] {cells : Nat → Nat → Option Cell} {a : At κ σ}
    (h : WritesAs outline cells a.source) : WritesAs outline cells a := by
  intro column target hlimit
  rcases h column target hlimit with ⟨e, herror, hfail⟩ | ⟨hok, after, hafter, hover, hwritten⟩
  · exact .inl ⟨e, herror, congrArg (Outcome.mapState _) hfail⟩
  · exact .inr ⟨hok, after, hafter, hover, congrArg (Outcome.mapState _) hwritten⟩

end Scan

end TabletDelta
