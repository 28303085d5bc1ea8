import TabletDelta.Proofs.Read.Batch
import TabletDelta.Proofs.Run

/-!
# The calls on a scan

A scan as a machine that is called on a store, the store as it is at the time. A call can do five
things to a scan, and `step_effect` says so once for all calls. What every call keeps is
`Scan.Sound`: a scan that has been initialized is bound to the schema of its stores, and its batches
end at or before the row that it is on, so that a seek ahead is never refused (`seek_eq_ok`).
-/

namespace TabletDelta

namespace Scan

/-- A call on a scan. -/
inductive Op where
  /-- Binds the scan. -/
  | init
  /-- Moves the scan to a row. -/
  | seek (row : Row)
  /-- Prepares a batch. -/
  | prepare (rows : Nat)
  /-- Writes a column of the batch. -/
  | apply (column : Nat) (target : Target)
deriving DecidableEq

/-- The answer to a call. -/
inductive Reply where
  /-- Whether binding or moving the scan succeeded. -/
  | moved (result : Except Error Unit)
  /-- Whether preparing a batch succeeded, and the row that the scan was on. -/
  | prepared (start : Nat) (result : Except Error Unit)
  /-- Whether writing a column succeeded, and what was left of the block and its arena. -/
  | applied (result : Except Error Unit) (target : Target)
deriving DecidableEq

/-- A scan as a machine, called on a store. -/
def step (store : Store) : Op → Scan → Reply × Scan
  | .init, s =>
    (.moved (DeltaSource.init store s).result, (DeltaSource.init store s).state)
  | .seek row, s =>
    (.moved (DeltaSource.seek row s).result, (DeltaSource.seek row s).state)
  | .prepare rows, s =>
    (.prepared s.position (DeltaSource.prepare store rows s).result,
      (DeltaSource.prepare store rows s).state)
  | .apply column target, s =>
    (.applied (DeltaSource.apply column s target).result
      (DeltaSource.apply column s target).state.2, (DeltaSource.apply column s target).state.1)

/-- The five things that a call can do to a scan: bind it, put it on a row that is not behind its
batches, take its batch away, put it behind a new batch, or nothing at all. -/
inductive Effect (schema : Schema) (s : Scan) : Scan → Prop where
  | bind {routes : List (Option Nat)} (h : s.phase = .fresh)
    (hbound : Bound schema { s with phase := .bound, routes }) :
    Effect schema s { s with phase := .bound, routes }
  | place (row : Row) (h : s.phase ≠ .fresh) (hrow : ∀ r, s.reached = some r → r ≤ row.toNat) :
    Effect schema s { s with phase := .positioned, position := row.toNat }
  | lose (h : s.phase ≠ .fresh) : Effect schema s { s with phase := .positioned }
  | pass (rows : Nat) (writes : List Write) (h : s.phase ≠ .fresh) :
    Effect schema s { s with
      phase := .prepared rows writes
      position := s.stop rows
      reached := some (s.stop rows) }
  | nothing : Effect schema s s

/-- A scan is sound for a schema if it is bound to the schema unless it is fresh, and has not gone
back behind a batch. -/
structure Sound (schema : Schema) (s : Scan) : Prop where
  /-- Once initialized, the scan is bound. -/
  bound : s.phase ≠ .fresh → s.Bound schema
  /-- A fresh scan has no batches behind it. -/
  reached_fresh : s.phase = .fresh → s.reached = none
  /-- Batches end at or before the present row. -/
  reached_le : ∀ r, s.reached = some r → r ≤ s.position

variable {schema : Schema} {store : Store} {s : Scan}

/-- A scan is initialized once only. -/
theorem init_refused (h : s.phase ≠ .fresh) :
    s.init schema = .fail (.invalidState .alreadyInitialized) s := by
  unfold init
  rw [if_neg h]

/-- A scan that has been initialized can be put on any row that is not behind its batches. -/
theorem seek_eq_ok {row : Row} (h : s.phase ≠ .fresh)
    (hrow : ∀ r, s.reached = some r → r ≤ row.toNat) :
    s.seek row = .ok () { s with phase := .positioned, position := row.toNat } := by
  unfold seek
  rw [if_neg h]
  cases hreached : s.reached with
  | none => rfl
  | some r =>
    have hle := hrow r hreached
    dsimp only
    rw [if_neg (Nat.not_lt.2 hle)]

/-- A seek puts the scan on the row unless it is refused, and then it does nothing. -/
theorem seek_cases (s : Scan) (row : Row) :
    (∃ e, s.seek row = .fail e s) ∨
      s.phase ≠ .fresh ∧ (∀ r, s.reached = some r → r ≤ row.toNat) ∧
        s.seek row = .ok () { s with phase := .positioned, position := row.toNat } := by
  by_cases hfresh : s.phase = .fresh
  · refine .inl ⟨.invalidState (.tooEarly .seek .init), ?_⟩
    unfold seek
    rw [if_pos hfresh]
  · by_cases hrow : ∀ r, s.reached = some r → r ≤ row.toNat
    · exact .inr ⟨hfresh, hrow, seek_eq_ok hfresh hrow⟩
    · -- Otherwise the row is behind a batch.
      obtain ⟨r, hreached, hlt⟩ : ∃ r, s.reached = some r ∧ row.toNat < r := by
        simpa using hrow
      refine .inl ⟨.invalidState (.seekBehindBatch row r), ?_⟩
      unfold seek
      rw [if_neg hfresh, hreached]
      dsimp only
      rw [if_pos hlt]

/-- Preparing puts the scan behind a new batch. It is refused before the scan is on a row, and a
fault in the store takes the last batch away. -/
theorem prepare_cases (store : Store) (s : Scan) (rows : Nat) :
    (∃ e, s.prepare store rows = .fail e s) ∨
      s.phase ≠ .fresh ∧
        ((∃ writes, s.prepare store rows = .ok () { s with
            phase := .prepared rows writes
            position := s.stop rows
            reached := some (s.stop rows) }) ∨
          ∃ e, s.prepare store rows = .fail e { s with phase := .positioned }) := by
  by_cases hearly : s.phase = .fresh ∨ s.phase = .bound
  · exact .inl ⟨_, prepare_tooEarly store hearly rows⟩
  · obtain ⟨hfresh, hbound⟩ := not_or.1 hearly
    refine .inr ⟨hfresh, ?_⟩
    unfold prepare
    cases hselect : s.selectAll store.schema (store.range s.position (s.stop rows)) with
    | ok writes =>
      refine .inl ⟨writes, ?_⟩
      unfold stop at hselect
      cases hphase : s.phase with
      | fresh => exact absurd hphase hfresh
      | bound => exact absurd hphase hbound
      | positioned | prepared _ _ =>
        dsimp only
        rw [hselect]
        rfl
    | error fault =>
      refine .inr ⟨.corruption fault, ?_⟩
      unfold stop at hselect
      cases hphase : s.phase with
      | fresh => exact absurd hphase hfresh
      | bound => exact absurd hphase hbound
      | positioned | prepared _ _ =>
        dsimp only
        rw [hselect]

/-- Each call does one of the five things. -/
theorem step_effect (hschema : store.schema = schema) (op : Op) :
    Effect schema s (step store op s).2 := by
  cases op with
  | init =>
    show Effect schema s (s.init store.schema).state
    rw [hschema]
    rcases init_cases schema s with
      ⟨hfresh, -, routes, h, hbound⟩ | ⟨-, -, fault, h⟩ | ⟨-, h⟩
    · rw [h]
      exact .bind hfresh hbound
    · rw [h]
      exact .nothing
    · rw [h]
      exact .nothing
  | seek row =>
    show Effect schema s (s.seek row).state
    rcases seek_cases s row with ⟨e, h⟩ | ⟨hfresh, hrow, h⟩
    · rw [h]
      exact .nothing
    · rw [h]
      exact .place row hfresh hrow
  | prepare rows =>
    show Effect schema s (s.prepare store rows).state
    rcases prepare_cases store s rows with ⟨e, h⟩ | ⟨hfresh, ⟨writes, h⟩ | ⟨e, h⟩⟩
    · rw [h]
      exact .nothing
    · rw [h]
      exact .pass rows writes hfresh
    · rw [h]
      exact .lose hfresh
  | apply column target => exact .nothing

/-- A batch stays until the next one is prepared, unless the scan is moved or a fault takes the
batch away. -/
theorem batch_kept (hs : s.phase ≠ .fresh) (op : Op)
    (hop : ∀ start, (step store op s).1 ≠ .prepared start (.ok ())) :
    (step store op s).2 = s ∨ (step store op s).2.phase = .positioned := by
  cases op with
  | init =>
    refine .inl ?_
    show (s.init store.schema).state = s
    rw [init_refused hs]
    rfl
  | seek row =>
    show (s.seek row).state = s ∨ (s.seek row).state.phase = .positioned
    rcases seek_cases s row with ⟨e, h⟩ | ⟨-, -, h⟩
    · rw [h]
      exact .inl rfl
    · rw [h]
      exact .inr rfl
  | prepare rows =>
    have hresult : (s.prepare store rows).result ≠ .ok () := fun h =>
      hop s.position (congrArg (Reply.prepared s.position) h)
    show (s.prepare store rows).state = s ∨ (s.prepare store rows).state.phase = .positioned
    rcases prepare_cases store s rows with ⟨e, h⟩ | ⟨-, ⟨writes, h⟩ | ⟨e, h⟩⟩
    · rw [h]
      exact .inl rfl
    · rw [h] at hresult
      exact absurd rfl hresult
    · rw [h]
      exact .inr rfl
  | apply column target => exact .inl rfl

/-- A call changes neither what a scan reads nor what it sees. -/
theorem Effect.frame {after : Scan} (h : Effect schema s after) :
    after.projection = s.projection ∧ after.snapshot = s.snapshot := by
  cases h <;> exact ⟨rfl, rfl⟩

/-- The row of a scan after a call: a seek that succeeds sets it, and a batch adds to it. -/
def positionAfterCall (position : Nat) : Event Op Reply → Nat
  | ⟨.seek row, .moved (.ok ())⟩ => row.toNat
  | ⟨.prepare rows, .prepared _ (.ok ())⟩ => min (position + rows) maxPosition
  | _ => position

/-- The row of a scan after calls on a new one. -/
def positionAfter (calls : List (Event Op Reply)) : Nat := calls.foldl positionAfterCall 0

/-- The row of a scan after one more call. -/
theorem positionAfter_snoc (calls : List (Event Op Reply)) (e : Event Op Reply) :
    positionAfter (calls ++ [e]) = positionAfterCall (positionAfter calls) e :=
  List.foldl_concat ..

/-- A call leaves a scan on the row that its answer says. -/
theorem step_position (op : Op) :
    (step store op s).2.position = positionAfterCall s.position (eventOf (step store) op s) := by
  cases op with
  | init =>
    show (s.init store.schema).state.position = s.position
    rcases init_cases store.schema s with ⟨-, -, routes, h, -⟩ | ⟨-, -, fault, h⟩ | ⟨-, h⟩ <;>
      rw [h] <;> rfl
  | seek row =>
    show (s.seek row).state.position = positionAfterCall s.position
      ⟨.seek row, .moved (s.seek row).result⟩
    rcases seek_cases s row with ⟨e, h⟩ | ⟨-, -, h⟩
    · rw [h]
      rfl
    · rw [h]
      rfl
  | prepare rows =>
    show (s.prepare store rows).state.position = positionAfterCall s.position
      ⟨.prepare rows, .prepared s.position (s.prepare store rows).result⟩
    rcases prepare_cases store s rows with ⟨e, h⟩ | ⟨-, ⟨writes, h⟩ | ⟨e, h⟩⟩
    · rw [h]
      rfl
    · rw [h]
      rfl
    · rw [h]
      rfl
  | apply column target => rfl

/-- A new scan is sound. -/
theorem sound_start (projection : Schema) (snapshot : Snapshot) :
    (start projection snapshot).Sound schema :=
  ⟨fun h => absurd rfl h, fun _ => rfl, fun r hr => by cases hr⟩

/-- Each call keeps a scan sound. -/
theorem Sound.of_effect {after : Scan} (hs : s.Sound schema) (h : Effect schema s after) :
    after.Sound schema := by
  cases h with
  | nothing => exact hs
  | bind hfresh hbound =>
    refine ⟨fun _ => hbound, fun h => ScanPhase.noConfusion h, fun r hr => ?_⟩
    exact hs.reached_le r hr
  | place row hfresh hrow =>
    have hbound := hs.bound hfresh
    exact ⟨fun _ => ⟨hbound.routes_eq, hbound.found⟩, fun h => ScanPhase.noConfusion h, hrow⟩
  | lose hfresh =>
    have hbound := hs.bound hfresh
    exact ⟨fun _ => ⟨hbound.routes_eq, hbound.found⟩, fun h => ScanPhase.noConfusion h,
      hs.reached_le⟩
  | pass rows writes hfresh =>
    have hbound := hs.bound hfresh
    refine ⟨fun _ => ⟨hbound.routes_eq, hbound.found⟩, fun h => ScanPhase.noConfusion h, ?_⟩
    intro r hr
    cases hr
    exact Nat.le_refl _

/-- The scan behind a batch is sound. -/
theorem Sound.behind (hs : s.Sound schema) (hfresh : s.phase ≠ .fresh) (store : Store)
    (rows : Nat) : (s.behind schema store rows).Sound schema :=
  hs.of_effect (.pass rows (s.selection schema store rows) hfresh)

/-- A scan stays sound whatever is called on it, on stores of one schema. -/
theorem sound_of_run {projection : Schema} {snapshot : Snapshot}
    {calls : List (Event (Store × Op) Reply)}
    (hrun : Run (fun call => step call.1 call.2) (start projection snapshot) calls s)
    (hstores : ∀ e ∈ calls, e.call.1.schema = schema) : s.Sound schema :=
  hrun.invariant_of_forall (fun _ s => s.Sound schema)
    (fun _ _ call hsound hschema => hsound.of_effect (step_effect hschema call.2))
    (sound_start projection snapshot) hstores

end Scan

end TabletDelta
