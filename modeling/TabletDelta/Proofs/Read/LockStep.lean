import TabletDelta.Proofs.Read.Readable
import TabletDelta.Proofs.Read.Split

/-!
# Layered scans stay in lock step

A call on layers is passed on up to the first layer that refuses it. If a later layer could refuse
what an earlier one has accepted, the layers would go apart and read different rows from then on.
Scans cannot: whether one accepts a call is a matter of its outline, and scans of one outline keep
it in common whatever their snapshots are and whatever is in their stores (`Layers.move_ofScans`).
When a column is written, each of them either refuses it for the same reason, or leaves a block of
the same shape to the next one (`Heeds`). Only memory can be missing there, and the sources do not
move then. So layered scans answer as any one of them does alone (`layers_in_lockStep`).
-/

namespace TabletDelta

/-- Writing to a target has succeeded, or there was no memory left in its arena, which then has a
limit. -/
def Target.OkOrExhausted (t : Target) (result : Except Error Unit) : Prop :=
  result = .ok () ∨ t.arena.config.limit ≠ none ∧
    ∃ requested limit, result = .error (.arenaExhausted requested limit)

namespace Scan

/-- Two scans are abreast if they have come equally far. -/
structure Abreast (s t : Scan) : Prop where
  /-- They are in the same phase, whatever the cells of their batches are. -/
  phase_eq : s.phase.outline = t.phase.outline
  /-- They are on the same row. -/
  position_eq : s.position = t.position
  /-- Neither goes back behind the row that the other has reached. -/
  reached_eq : s.reached = t.reached
  /-- They have prepared as many rows. -/
  preparedRows_eq : s.preparedRows = t.preparedRows

/-- How a source writes columns: it refuses what a scan in outline refuses, and otherwise it keeps
what is said by `Target.Written` and can only miss memory. The source itself stays as it is. -/
def Heeds {σ ε : Type} [DeltaSource σ ε] (outline : Scan) (source : σ) : Prop :=
  ∀ (column : Nat) (target : Target),
    (∃ e, (outline.apply column target).result = .error e ∧
        DeltaSource.apply column source target = .fail e (source, target)) ∨
      (outline.apply column target).result = .ok () ∧ ∃ result after,
        DeltaSource.apply column source target = ⟨result, source, after⟩ ∧
          target.Written after ∧ target.OkOrExhausted result

variable {schema : Schema} {s t outline : Scan}

/-- Scans of one outline are abreast. -/
theorem abreast_of_outline (h : s.outline = t.outline) : s.Abreast t where
  phase_eq := congrArg phase h
  position_eq := (congrArg position h :)
  reached_eq := (congrArg reached h :)
  preparedRows_eq := by rw [← preparedRows_outline s, h, preparedRows_outline]

/-- A staged scan heeds its outline. -/
theorem Staged.heeds (h : s.Staged schema) : Heeds s.outline s := by
  intro column target
  rcases apply_cases s column target with
    ⟨e, herror, hfail⟩ | ⟨hok, rows, writes, c, hphase, hc, htype, hrows⟩
  · exact .inl ⟨e, herror, congrArg (Outcome.mapState _) hfail⟩
  · have hresult := apply_result hphase (h.fits rows writes hphase) hc htype hrows
    exact .inr ⟨hok, (s.apply column target).result, (s.apply column target).state, rfl,
      s.apply_written column target, hresult.imp_right And.right⟩

/-- A source that reads one of several contents heeds what it heeds by itself. -/
theorem Heeds.at {κ σ ε : Type} [DeltaSource σ ε] {a : At κ σ} (h : Heeds outline a.source) :
    Heeds outline a := by
  intro column target
  rcases h column target with ⟨e, herror, hfail⟩ | ⟨hok, result, after, hwrite, hafter⟩
  · exact .inl ⟨e, herror, congrArg (Outcome.mapState _) hfail⟩
  · exact .inr ⟨hok, result, after, congrArg (Outcome.mapState _) hwrite, hafter⟩

end Scan

namespace Layers

/-! ## Writing layer by layer -/

variable {κ : Type} {sources : List (At κ Scan)} {s : Scan}

/-- Where a scan in outline writes a column, layers that heed it do so one after the other, up to
the first that misses memory. -/
theorem walkAll_heeds (h : ∀ a ∈ sources, Scan.Heeds s.outline a) {column : Nat} {target : Target}
    (hok : (s.outline.apply column target).result = .ok ()) : ∃ result after,
      walkAll (DeltaSource.apply column) (sources.map .single) target =
          ⟨result, sources.map .single, after⟩ ∧
        target.Written after ∧ target.OkOrExhausted result := by
  induction sources generalizing target with
  | nil => exact ⟨.ok (), target, rfl, .refl target, .inl rfl⟩
  | cons a sources ih =>
    obtain ⟨hhead, htail⟩ := List.forall_mem_cons.1 h
    obtain ⟨-, result, left, hwrite, hleft, hresult⟩ := (hhead column target).resolve_left (by
      rintro ⟨e, herror, -⟩
      rw [hok] at herror
      cases herror)
    rcases hresult with rfl | ⟨hlimit, requested, limit, rfl⟩
    · -- The next layer is given a block of the same shape, so it passes the same checks.
      have hok' : (s.outline.apply column left).result = .ok () := by
        rw [← s.apply_outline_congr column hleft.type_eq.symm hleft.rows_eq.symm, hok]
      obtain ⟨result, after, hwalk, hafter, hresult⟩ := ih htail hok'
      refine ⟨result, after, ?_, hleft.trans hafter, ?_⟩
      · rw [List.map_cons, walkAll_cons_ok hwrite, hwalk]
        rfl
      · unfold Target.OkOrExhausted at hresult ⊢
        rwa [← hleft.config_eq]
    · exact ⟨.error (.arenaExhausted requested limit), left, walkAll_cons_error hwrite _, hleft,
        .inr ⟨hlimit, requested, limit, rfl⟩⟩

/-- A stack heeds what all its layers heed. -/
theorem stack_heeds (hne : sources ≠ []) (h : ∀ a ∈ sources, Scan.Heeds s.outline a) :
    Scan.Heeds s.outline (Layers.stack (sources.map .single)) := by
  intro column target
  rw [apply_stack]
  obtain ⟨a, rest, rfl⟩ := List.exists_cons_of_ne_nil hne
  rcases h a List.mem_cons_self column target with ⟨e, herror, hfail⟩ | ⟨hok, -⟩
  · -- What one scan refuses all of them refuse, so the first one does.
    refine .inl ⟨e, herror, ?_⟩
    rw [List.map_cons, walkAll_cons_error hfail]
    rfl
  · obtain ⟨result, after, hwalk, hafter⟩ := walkAll_heeds h hok
    refine .inr ⟨hok, result, after, ?_, hafter⟩
    rw [hwalk]
    rfl

/-! ## One scan for each store -/

variable {k : Nat} {schema : Schema} {stores : Fin k → Store} {scans : Fin k → Scan}
  {outline : Scan}

/-- Scans under the numbers of the stores that they read. -/
def numbered (scans : Fin k → Scan) : List (At (Fin k) Scan) :=
  (List.finRange k).map fun i => ⟨i, scans i⟩

/-- Scans of several stores as one source, in the order of the stores. -/
def ofScans (scans : Fin k → Scan) : Layers (At (Fin k) Scan) :=
  .stack ((numbered scans).map .single)

/-- What holds of all scans under their numbers. -/
theorem forall_mem_numbered {P : At (Fin k) Scan → Prop} (h : ∀ i, P ⟨i, scans i⟩) :
    ∀ a ∈ numbered scans, P a := by
  intro a ha
  obtain ⟨i, -, rfl⟩ := List.mem_map.1 ha
  exact h i

/-- If there is a store, there is a scan of it. -/
theorem numbered_ne_nil (i : Fin k) : numbered scans ≠ [] :=
  List.ne_nil_of_mem (List.mem_map_of_mem (List.mem_finRange i))

/-- Scans of one outline on readable stores move together, as their outline does. -/
theorem move_ofScans (hstores : ∀ i, (stores i).Holds schema (stores i).entries) (i : Fin k)
    (houtline : ∀ j, (scans j).outline = outline) (m : Move) :
    DeltaSource.move stores m (ofScans scans) =
      ⟨(DeltaSource.move (Scan.bareStore schema) m outline).result,
        ofScans fun j => (DeltaSource.move (stores j) m (scans j)).state⟩ := by
  unfold ofScans
  rw [move_stack hstores (numbered_ne_nil i) (forall_mem_numbered houtline) m]
  unfold numbered
  rw [List.map_map, List.map_map]
  congr 2
  refine List.map_congr_left fun j _ => ?_
  rw [Function.comp_apply, At.move_eq]
  rfl

/-- Staged scans of one outline together heed it. -/
theorem ofScans_heeds (hstaged : ∀ i, (scans i).Staged schema) (i : Fin k)
    (houtline : ∀ j, (scans j).outline = s.outline) : Scan.Heeds s.outline (ofScans scans) :=
  stack_heeds (numbered_ne_nil i)
    (forall_mem_numbered fun j => (houtline j ▸ (hstaged j).heeds : Scan.Heeds _ (scans j)).at)

end Layers

namespace Reading

variable {k : Nat} {schema : Schema} {stores : Fin k → Store} {scans : Fin k → Scan} {i : Fin k}
  {layered : Reading (Layers (At (Fin k) Scan))} {alone : Reading Scan}

/-- How a call on layered scans, which leaves them in the hands of their caller as `after`, is
answered, and how the same call is on one of them alone. -/
structure AnswersAs (op : Op) (layered after : Reading (Layers (At (Fin k) Scan)))
    (answer alone : Except Error Unit) : Prop where
  /-- The answers are the same, unless the one scan writes a column and the memory is missing in an
  arena with a limit. -/
  answer_eq : answer = alone ∨
    ∃ column block arena, op = .apply column block arena ∧
      (layered.arenas arena).config.limit ≠ none ∧ alone = .ok () ∧
        ∃ requested limit, answer = .error (.arenaExhausted requested limit)
  /-- A call that fails leaves all sources as they were, and the blocks and arenas as well unless
  memory is missing. -/
  refused : ∀ e, answer = .error e → after.source = layered.source ∧
    ((∀ requested limit, e ≠ .arenaExhausted requested limit) → after = layered)

/-- Layered scans are in lock step, also with one of them that is read alone, and the next call on
them is answered as it is on this one. -/
structure LockStep (schema : Schema) (i : Fin k) (layered : Reading (Layers (At (Fin k) Scan)))
    (alone : Reading Scan) : Prop where
  /-- The scan that is read alone is one of the scans, and the others are abreast of it. -/
  sources : ∃ scans : Fin k → Scan, layered.source = .ofScans scans ∧ scans i = alone.source ∧
    ∀ j, (scans j).Abreast alone.source
  /-- The next call is answered as it is alone. -/
  next : ∀ stores : Fin k → Store, (∀ j, (stores j).Reachable schema) → ∀ op,
    AnswersAs op layered (step stores op layered).2 (step stores op layered).1
      (step (stores i) op alone).1

/-- What keeps layered scans in lock step with one of them alone: all are staged and of one outline,
the two callers have blocks of the same shapes, and the arenas of the one scan have no limit. -/
structure Paced (schema : Schema) (i : Fin k) (scans : Fin k → Scan)
    (layered : Reading (Layers (At (Fin k) Scan))) (alone : Reading Scan) : Prop where
  /-- The scans are layered. -/
  source_eq : layered.source = .ofScans scans
  /-- One of them is read alone as well. -/
  alone_eq : scans i = alone.source
  /-- All are staged. -/
  staged : ∀ j, (scans j).Staged schema
  /-- All have one outline. -/
  outline_eq : ∀ j, (scans j).outline = alone.source.outline
  /-- The blocks are of the same types. -/
  type_eq : ∀ b, (layered.blocks b).type = (alone.blocks b).type
  /-- They have as many slots. -/
  rows_eq : ∀ b, (layered.blocks b).rows = (alone.blocks b).rows
  /-- No arena of the one scan has a limit. -/
  limit_eq : ∀ a, (alone.arenas a).config.limit = none

/-- New scans are paced. -/
theorem paced_start (i : Fin k) (projection : Schema) (snapshots : Fin k → Snapshot)
    (blocks : Nat → Block) (arenas : Nat → Arena) {arenas' : Nat → Arena}
    (hlimit : ∀ a, (arenas' a).config.limit = none) :
    Paced schema i (fun j => .start projection (snapshots j))
      ⟨.ofScans fun j => .start projection (snapshots j), blocks, arenas⟩
      ⟨.start projection (snapshots i), blocks, arenas'⟩ :=
  ⟨rfl, rfl, fun j => Scan.staged_start projection (snapshots j), fun _ => rfl, fun _ => rfl,
    fun _ => rfl, hlimit⟩

/-- A block of the same shape may take the place of one of several. -/
theorem shape_update (blocks : Nat → Block) (block : Nat) {b : Block}
    (htype : b.type = (blocks block).type) (hrows : b.rows = (blocks block).rows) (j : Nat) :
    (Function.update blocks block b j).type = (blocks j).type ∧
      (Function.update blocks block b j).rows = (blocks j).rows := by
  by_cases hj : j = block
  · subst hj
    rw [Function.update_self]
    exact ⟨htype, hrows⟩
  · rw [Function.update_of_ne hj]
    exact ⟨rfl, rfl⟩

/-- A move is answered alike and keeps the scans paced. -/
theorem Paced.move (h : Paced schema i scans layered alone)
    (hstores : ∀ j, (stores j).Reachable schema) (m : Move) :
    AnswersAs (.move m) layered (step stores (.move m) layered).2 (step stores (.move m) layered).1
        (step (stores i) (.move m) alone).1 ∧
      Paced schema i (fun j => (DeltaSource.move (stores j) m (scans j)).state)
        (step stores (.move m) layered).2 (step (stores i) (.move m) alone).2 := by
  have hmoved := Layers.move_ofScans (fun j => (hstores j).holds) i h.outline_eq m
  rw [← h.source_eq] at hmoved
  have hanswer : ∀ j, (DeltaSource.move (stores j) m (scans j)).result =
      (DeltaSource.move (Scan.bareStore schema) m alone.source.outline).result := by
    intro j
    rw [← h.outline_eq j, Scan.move_outline (hstores j).holds]
    rfl
  have houtline : ∀ j, (DeltaSource.move (stores j) m (scans j)).state.outline =
      (DeltaSource.move (Scan.bareStore schema) m alone.source.outline).state := by
    intro j
    rw [← h.outline_eq j, Scan.move_outline (hstores j).holds]
    rfl
  rw [step_move hmoved, step_move rfl]
  refine ⟨⟨.inl ?_, fun e he => ?_⟩, rfl, ?_, fun j => ?_, fun j => ?_, h.type_eq, h.rows_eq,
    h.limit_eq⟩
  · have halone := hanswer i
    rw [h.alone_eq] at halone
    exact halone.symm
  · -- All scans refuse the move, and stay as they were.
    have hsame : Layers.ofScans (fun j => (DeltaSource.move (stores j) m (scans j)).state) =
        layered.source := by
      rw [h.source_eq]
      refine congrArg Layers.ofScans (funext fun j => ?_)
      rw [Scan.move_refused (hstores j).holds ((hanswer j).trans he)]
      rfl
    refine ⟨hsame, fun _ => ?_⟩
    dsimp only
    rw [hsame]
  · show (DeltaSource.move (stores i) m (scans i)).state =
      (DeltaSource.move (stores i) m alone.source).state
    rw [h.alone_eq]
  · exact (h.staged j).move (hstores j).holds m
  · show _ = (DeltaSource.move (stores i) m alone.source).state.outline
    rw [houtline j, ← houtline i, h.alone_eq]

/-- Writing a column is answered alike, up to missing memory, and keeps the scans paced. -/
theorem Paced.apply (h : Paced schema i scans layered alone) (stores : Fin k → Store)
    (column block arena : Nat) :
    AnswersAs (.apply column block arena) layered
        (step stores (.apply column block arena) layered).2
        (step stores (.apply column block arena) layered).1
        (step (stores i) (.apply column block arena) alone).1 ∧
      Paced schema i scans (step stores (.apply column block arena) layered).2
        (step (stores i) (.apply column block arena) alone).2 := by
  have hlayered := Layers.ofScans_heeds h.staged i h.outline_eq
  rw [← h.source_eq] at hlayered
  have halone : Scan.Heeds alone.source.outline alone.source := by
    rw [← h.alone_eq]
    exact (h.staged i).heeds
  have hcheck : (alone.source.outline.apply column (layered.target block arena)).result =
      (alone.source.outline.apply column (alone.target block arena)).result :=
    alone.source.apply_outline_congr column (h.type_eq block) (h.rows_eq block)
  rcases hlayered column (layered.target block arena) with
    ⟨e, herror, hfail⟩ | ⟨hok, result, after, hwrite, hafter, hresult⟩
  · rcases halone column (alone.target block arena) with ⟨e', herror', hfail'⟩ | ⟨hok', -⟩
    · -- Both refuse, for the same reason, and nothing changes.
      obtain rfl : e = e' := Except.error.inj (herror.symm.trans (hcheck.trans herror'))
      rw [step_apply_refused hfail, step_apply_refused hfail']
      exact ⟨⟨.inl rfl, fun _ _ => ⟨rfl, fun _ => rfl⟩⟩, h⟩
    · rw [← hcheck, herror] at hok'
      cases hok'
  · rcases halone column (alone.target block arena) with
      ⟨e', herror', -⟩ | ⟨-, result', after', hwrite', hafter', hresult'⟩
    · rw [← hcheck, hok] at herror'
      cases herror'
    · -- The one scan writes, since its arena has no limit.
      obtain rfl : result' = .ok () :=
        hresult'.resolve_right fun hlimited => hlimited.1 (h.limit_eq arena)
      have hshape := shape_update layered.blocks block hafter.type_eq hafter.rows_eq
      have hshape' := shape_update alone.blocks block hafter'.type_eq hafter'.rows_eq
      rw [step_apply hwrite, step_apply hwrite']
      refine ⟨⟨?_, fun e he => ⟨rfl, fun hmemory => ?_⟩⟩, h.source_eq, h.alone_eq, h.staged,
        h.outline_eq, fun b => ?_, fun b => ?_,
        limit_update h.limit_eq ((congrArg _ hafter'.config_eq).trans (h.limit_eq arena))⟩
      · exact hresult.imp_right fun hlimited =>
          ⟨column, block, arena, rfl, hlimited.1, rfl, hlimited.2⟩
      · -- Past the checks nothing but memory can be missing.
        rcases hresult with rfl | ⟨-, requested, limit, rfl⟩
        · cases he
        · cases he
          exact absurd rfl (hmemory requested limit)
      · exact (hshape b).1.trans ((h.type_eq b).trans (hshape' b).1.symm)
      · exact (hshape b).2.trans ((h.rows_eq b).trans (hshape' b).2.symm)

/-- Each call on reachable stores is answered as it is on one scan alone, and keeps the scans
paced. -/
theorem Paced.step (h : Paced schema i scans layered alone)
    (hstores : ∀ j, (stores j).Reachable schema) (op : Op) :
    AnswersAs op layered (step stores op layered).2 (step stores op layered).1
        (step (stores i) op alone).1 ∧
      ∃ scans, Paced schema i scans (Reading.step stores op layered).2
        (Reading.step (stores i) op alone).2 := by
  cases op with
  | move m => exact (h.move hstores m).imp_right fun hpaced => ⟨_, hpaced⟩
  | apply column block arena =>
    exact (h.apply stores column block arena).imp_right fun hpaced => ⟨scans, hpaced⟩

/-- **Layered scans stay in lock step.** Take several stores of one schema, at least one, which are
updated between calls, and new scans of them, of any one projection and any snapshots. Layer the
scans, and read one of them, the first one say, alone as well, with arenas that have no limit.
Whatever calls have been made on both, all scans are abreast, and the next call on the layers

* is answered as it is on the one scan alone, unless it is to write a column, which the one scan
  does, and memory is missing in an arena with a limit;
* and if it fails, all sources are as they were, and so is every block unless memory is missing.
-/
theorem layers_in_lockStep (i : Fin k) (projection : Schema) (snapshots : Fin k → Snapshot)
    (blocks : Nat → Block) (arenas : Nat → Arena) {arenas' : Nat → Arena}
    (hlimit : ∀ a, (arenas' a).config.limit = none) {calls : List ((Fin k → Store) × Op)}
    (hstores : ∀ call ∈ calls, ∀ j, (call.1 j).Reachable schema) :
    LockStep schema i
      (execute (fun call => step call.1 call.2) calls
        ⟨.ofScans fun j => .start projection (snapshots j), blocks, arenas⟩).2
      (execute (fun call => step (call.1 i) call.2) calls
        ⟨.start projection (snapshots i), blocks, arenas'⟩).2 := by
  have hstart : ∃ scans, Paced schema i scans
      ⟨.ofScans fun j => .start projection (snapshots j), blocks, arenas⟩
      ⟨.start projection (snapshots i), blocks, arenas'⟩ :=
    ⟨_, paced_start i projection snapshots blocks arenas hlimit⟩
  have hkept : ∀ call ∈ calls, ∀ layered alone, (∃ scans, Paced schema i scans layered alone) →
      ∃ scans, Paced schema i scans (step call.1 call.2 layered).2
        (step (call.1 i) call.2 alone).2 := by
    rintro call hcall layered alone ⟨scans, hpaced⟩
    exact (hpaced.step (hstores call hcall) call.2).2
  obtain ⟨scans, hpaced⟩ := execute_related
    (fun layered alone => ∃ scans, Paced schema i scans layered alone) hkept hstart
  exact ⟨⟨scans, hpaced.source_eq, hpaced.alone_eq,
    fun j => Scan.abreast_of_outline (hpaced.outline_eq j)⟩,
    fun _ hstores op => (hpaced.step hstores op).1⟩

/-- Two stores, of which only the second one has an entry. -/
def unevenStores : Fin 2 → Store
  | 0 => Scan.bareStore ChangeList.mixedSchema
  | 1 => Scan.crowdedStore

/-- Calls to prepare a batch with this entry, which came after the scans had been bound. -/
def unevenCalls : List ((Fin 2 → Store) × Op) :=
  [(fun _ => Scan.bareStore ChangeList.mixedSchema, .move .init),
    (unevenStores, .move (.seek 4294967294)), (unevenStores, .move (.prepare 3))]

/-- What scans of the two stores see. -/
def unevenSnapshots : Fin 2 → Snapshot
  | 0 => .includingNone
  | 1 => .includingAll

/-- The layered scans after these calls, in the hands of a caller who has memory for one byte. -/
def unevenLayers : Reading (Layers (At (Fin 2) Scan)) :=
  (execute (fun call => step call.1 call.2) unevenCalls
    ⟨.ofScans fun j => .start Scan.crowdedProjection (unevenSnapshots j), fun _ => .blank .string 3,
      fun _ => .ofConfig { limit := some 1 }⟩).2

/-- The first scan alone after these calls. -/
def unevenAlone : Reading Scan :=
  (execute (fun call => step (call.1 0) call.2) unevenCalls
    ⟨.start Scan.crowdedProjection (unevenSnapshots 0), fun _ => .blank .string 3,
      fun _ => default⟩).2

/-- The first scan has nothing to write, and the second one has no memory to write. Neither has
moved after that, and calls that are refused change nothing at all. -/
theorem layers_in_lockStep_uneven :
    (∀ call ∈ unevenCalls, ∀ j, (call.1 j).Reachable ChangeList.mixedSchema) ∧
      (step unevenStores (.apply 0 0 0) unevenLayers).1 = .error (.arenaExhausted 2 1) ∧
      (step (unevenStores 0) (.apply 0 0 0) unevenAlone).1 = .ok () ∧
      (step unevenStores (.apply 0 0 0) unevenLayers).2.source = unevenLayers.source ∧
      step unevenStores (.move .init) unevenLayers =
        (.error (.invalidState .alreadyInitialized), unevenLayers) := by
  have hbare : (Scan.bareStore ChangeList.mixedSchema).Reachable ChangeList.mixedSchema :=
    ⟨{}, [], .nil _⟩
  have huneven : ∀ j, (unevenStores j).Reachable ChangeList.mixedSchema := by
    rw [Fin.forall_fin_two]
    exact ⟨hbare, ⟨{}, _, .of_execute _ _⟩⟩
  have hstores : ∀ call ∈ unevenCalls, ∀ j, (call.1 j).Reachable ChangeList.mixedSchema := by
    intro call hcall
    simp only [unevenCalls, List.mem_cons, List.not_mem_nil, or_false] at hcall
    rcases hcall with rfl | rfl | rfl
    · exact fun _ => hbare
    · exact huneven
    · exact huneven
  have hlockStep : LockStep ChangeList.mixedSchema 0 unevenLayers unevenAlone :=
    layers_in_lockStep 0 Scan.crowdedProjection unevenSnapshots (fun _ => .blank .string 3)
      (fun _ => .ofConfig { limit := some 1 }) (fun _ => rfl) hstores
  have hexhausted : (step unevenStores (.apply 0 0 0) unevenLayers).1 =
      .error (.arenaExhausted 2 1) := by decide +kernel
  have hagain : (step unevenStores (.move .init) unevenLayers).1 =
      .error (.invalidState .alreadyInitialized) := by decide +kernel
  refine ⟨hstores, hexhausted, by decide +kernel,
    ((hlockStep.next unevenStores huneven _).refused _ hexhausted).1, Prod.ext hagain ?_⟩
  exact ((hlockStep.next unevenStores huneven _).refused _ hagain).2 nofun

end Reading

end TabletDelta
