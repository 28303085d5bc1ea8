import TabletDelta.Proofs.Read.Outline

/-!
# The order of calls on a scan

Whether a call on a scan succeeds can be read off the calls before it. Only those count that
succeeded: whether there was an initialization, which batches were prepared, and whether a seek or a
batch came last (`landings`). `calls_in_order` says for each call what it takes, and that the
batches follow each other without ever coming back to a row. Refused calls leave no trace, so the
account that a scan keeps of its past (`Account`) has to be kept for three calls only.
-/

namespace TabletDelta

namespace Scan

/-- The calls on a scan so far, each on a store, with their answers. -/
abbrev Calls := List (Event (Store × Op) Reply)

/-- Whether a call succeeded. -/
def Reply.result : Reply → Except Error Unit
  | .moved result => result
  | .prepared _ result => result
  | .applied result _ => result

/-- A batch of rows. -/
structure Batch where
  /-- The first row. -/
  start : Nat
  /-- The number of rows. -/
  rows : Nat
deriving DecidableEq

/-- The row that a batch ends before. Rows are counted up to `maxPosition`. -/
def Batch.stop (b : Batch) : Nat := min (b.start + b.rows) maxPosition

/-- The row belongs to the batch. -/
def Batch.Covers (b : Batch) (row : Row) : Prop :=
  b.start ≤ row.toNat ∧ row.toNat < b.start + b.rows

/-- Where a call puts a scan. -/
inductive Landing where
  /-- On a row. -/
  | onRow (row : Row)
  /-- Behind a batch. -/
  | behind (b : Batch)
deriving DecidableEq

/-- The row that the next batch starts at. -/
def Landing.position : Landing → Nat
  | .onRow row => row.toNat
  | .behind b => b.stop

/-- The batch that a scan is behind. -/
def Landing.batch? : Landing → Option Batch
  | .onRow _ => none
  | .behind b => some b

/-- Where a call has put the scan: a seek or a batch that succeeded. -/
def landing? : Event (Store × Op) Reply → Option Landing
  | ⟨(_, .seek row), .moved (.ok ())⟩ => some (.onRow row)
  | ⟨(_, .prepare rows), .prepared start (.ok ())⟩ => some (.behind ⟨start, rows⟩)
  | _ => none

/-- The places a scan has been put at, in order. -/
def landings (calls : Calls) : List Landing := calls.filterMap landing?

/-- The batches that have been prepared, in order. -/
def batches (calls : Calls) : List Batch := (landings calls).filterMap Landing.batch?

/-- The call has bound the scan. -/
def Binds (e : Event (Store × Op) Reply) : Prop :=
  ∃ store, e = ⟨(store, .init), .moved (.ok ())⟩

/-- The scan has been initialized. -/
def Initialized (calls : Calls) : Prop := ∃ e ∈ calls, Binds e

/-- The scan has been put on a row. -/
def Seeked (calls : Calls) : Prop := ∃ row, .onRow row ∈ landings calls

/-- The scan writes the columns of a projection as one that is behind a batch of `rows` rows. The
column has to be there, then the block has to be of its type, and then to have a slot for each row.
A block that fails a check stays as it was. Past the checks only memory can be missing. -/
def WritesBatch (projection : Schema) (rows : Nat) (s : Scan) : Prop :=
  ∀ store column target,
    (projection.columns[column]? = none → (step store (.apply column target) s).1 =
      .applied (.error (.columnOutOfRange column projection.size)) target) ∧
    ∀ c, projection.columns[column]? = some c →
      (c.type ≠ target.block.type → (step store (.apply column target) s).1 =
        .applied (.error (.typeMismatch (.target c.name c.type target.block.type))) target) ∧
      (c.type = target.block.type →
        (target.block.rows < rows → (step store (.apply column target) s).1 =
          .applied (.error (.invalidState (.shortBlock target.block.rows rows))) target) ∧
        (rows ≤ target.block.rows →
          (step store (.apply column target) s).1.result = .ok () ∨
            target.arena.config.limit ≠ none ∧ ∃ requested limit,
              (step store (.apply column target) s).1.result =
                .error (.arenaExhausted requested limit)))

/-- What the calls made so far say about the next one. -/
structure InOrder (schema projection : Schema) (calls : Calls) (s : Scan) : Prop where
  /-- A scan is initialized once, and if the store has all projected columns, with their types. -/
  init_iff : ∀ store, store.Reachable schema →
    ((step store .init s).1.result = .ok () ↔
      ¬ Initialized calls ∧ ∀ c ∈ projection.columns, c ∈ schema.columns)
  /-- Any other call to initialize it is refused. -/
  init_again : Initialized calls → ∀ store,
    (step store .init s).1.result = .error (.invalidState .alreadyInitialized)
  /-- A column that the store does not have is reported as such. -/
  init_unfit : ¬ Initialized calls → ∀ store, store.Reachable schema →
    ∀ c ∈ projection.columns, c ∉ schema.columns →
      ∃ fault, (step store .init s).1.result = .error (.projection fault)
  /-- Once initialized, a scan can be put on a row unless it has prepared a batch beyond it. -/
  seek_iff : ∀ store row, (step store (.seek row) s).1.result = .ok () ↔
    Initialized calls ∧ ∀ b ∈ batches calls, b.stop ≤ row.toNat
  /-- Before that, it cannot be put on a row. -/
  seek_early : ¬ Initialized calls → ∀ store row, (step store (.seek row) s).1.result =
    .error (.invalidState (.tooEarly .seek .init))
  /-- A row that a batch lies beyond is refused, with the largest end of a batch. -/
  seek_behind : Initialized calls → ∀ row, ∀ b ∈ batches calls, row.toNat < b.stop →
    ∃ reached, (∀ n, reached ≤ n ↔ ∀ c ∈ batches calls, c.stop ≤ n) ∧
      ∀ store, (step store (.seek row) s).1.result =
        .error (.invalidState (.seekBehindBatch row reached))
  /-- A batch can be prepared once the scan has been put on a row. -/
  prepare_iff : ∀ store, store.Reachable schema → ∀ rows,
    ((step store (.prepare rows) s).1.result = .ok () ↔ Seeked calls)
  /-- Before that, no batch can be prepared. -/
  prepare_early : ¬ Seeked calls → ∀ store, store.Reachable schema → ∀ rows,
    (step store (.prepare rows) s).1.result =
      .error (.invalidState (.tooEarly .prepareBatch .seek))
  /-- The batch starts where the last call to put the scan anywhere has put it. -/
  position_eq : ∀ l, (landings calls).getLast? = some l → s.position = l.position
  /-- A column can be written if a batch came last. -/
  apply_batch : ∀ b, (landings calls).getLast? = some (.behind b) → WritesBatch projection b.rows s
  /-- Otherwise none can. -/
  apply_early : (∀ b, (landings calls).getLast? ≠ some (.behind b)) → ∀ store column target,
    (step store (.apply column target) s).1 =
      .applied (.error (.invalidState (.tooEarly .applyUpdates .prepareBatch))) target
  /-- A call that fails leaves the scan as it was. -/
  refused : ∀ store, store.Reachable schema → ∀ op e, (step store op s).1.result = .error e →
    (step store op s).2 = s

/-- Where the last call to put the scan anywhere has left it. -/
def Landed (schema : Schema) (s : Scan) : Option Landing → Prop
  | none => s.phase = .fresh ∨ s.phase = .bound
  | some (.onRow row) => s.phase = .positioned ∧ s.position = row.toNat
  | some (.behind b) =>
    (∃ deltas writes, s.Serves schema deltas b.start b.rows writes) ∧ s.position = b.stop

/-- A scan keeps account of the calls made on it. -/
structure Account (schema projection : Schema) (calls : Calls) (s : Scan) : Prop where
  /-- The projection stays. -/
  projection_eq : s.projection = projection
  /-- The scan is sound. -/
  sound : s.Sound schema
  /-- The scan is fresh until it is initialized. -/
  fresh_iff : s.phase = .fresh ↔ ¬ Initialized calls
  /-- The scan is where it has been put. -/
  landed : Landed schema s (landings calls).getLast?
  /-- Before the scan is behind a batch, it is put on a row. -/
  seeked : landings calls ≠ [] → Seeked calls
  /-- No batch has ended beyond the row reached. -/
  reached_le_iff : ∀ n : Nat, (∀ r, s.reached = some r → r ≤ n) ↔ ∀ b ∈ batches calls, b.stop ≤ n
  /-- The batches follow each other. -/
  increasing : (batches calls).Pairwise fun b c => b.stop ≤ c.start

variable {schema projection : Schema} {store : Store} {deltas : List Entry} {s : Scan}
  {calls : Calls}

/-! ## Single calls -/

/-- A call to initialize a scan succeeds if it is fresh and the schema has all its columns. -/
theorem init_result (hschema : store.schema = schema) :
    (step store .init s).1.result = .ok () ↔
      s.phase = .fresh ∧ ∀ c ∈ s.projection.columns, c ∈ schema.columns := by
  rw [← hschema]
  exact init_result_iff

/-- A scan can be put on a row unless it is fresh or has prepared a batch beyond it. -/
theorem seek_result {row : Row} : (step store (.seek row) s).1.result = .ok () ↔
    s.phase ≠ .fresh ∧ ∀ r, s.reached = some r → r ≤ row.toNat := by
  show (s.seek row).result = .ok () ↔ _
  constructor
  · intro h
    rcases seek_cases s row with ⟨e, hseek⟩ | ⟨hfresh, hrow, -⟩
    · rw [hseek] at h
      cases h
    · exact ⟨hfresh, hrow⟩
  · rintro ⟨hfresh, hrow⟩
    rw [seek_eq_ok hfresh hrow]
    rfl

/-- On a readable store, a batch can be prepared if the scan is on a row. -/
theorem prepare_result (hstore : store.Holds schema deltas) {rows : Nat} :
    (step store (.prepare rows) s).1.result = .ok () ↔ s.phase ≠ .fresh ∧ s.phase ≠ .bound := by
  show (s.prepare store rows).result = .ok () ↔ _
  constructor
  · intro h
    rw [← not_or]
    intro hearly
    rw [prepare_tooEarly store hearly] at h
    cases h
  · rintro ⟨hfresh, hbound⟩
    rw [prepare_eq_ok hstore hfresh hbound]
    rfl

/-- A call to initialize a scan that succeeds has bound a fresh one. -/
theorem step_bind (h : (step store .init s).1.result = .ok ()) :
    s.phase = .fresh ∧ ∃ routes,
      step store .init s = (.moved (.ok ()), { s with phase := .bound, routes }) := by
  change (s.init store.schema).result = .ok () at h
  rcases init_cases store.schema s with
    ⟨hfresh, -, routes, hinit, -⟩ | ⟨-, -, fault, hinit⟩ | ⟨-, hinit⟩
  · refine ⟨hfresh, routes, ?_⟩
    show (Reply.moved (s.init store.schema).result, (s.init store.schema).state) = _
    rw [hinit]
    rfl
  · rw [hinit] at h
    cases h
  · rw [hinit] at h
    cases h

/-- A seek that succeeds has put the scan on the row. -/
theorem step_place {row : Row} (h : (step store (.seek row) s).1.result = .ok ()) :
    s.phase ≠ .fresh ∧ step store (.seek row) s =
      (.moved (.ok ()), { s with phase := .positioned, position := row.toNat }) := by
  obtain ⟨hfresh, hrow⟩ := seek_result.1 h
  refine ⟨hfresh, ?_⟩
  show (Reply.moved (s.seek row).result, (s.seek row).state) = _
  rw [seek_eq_ok hfresh hrow]
  rfl

/-- On a readable store, a call to prepare a batch that succeeds has put the scan behind it. -/
theorem step_pass (hstore : store.Holds schema deltas) {rows : Nat}
    (h : (step store (.prepare rows) s).1.result = .ok ()) :
    s.phase ≠ .fresh ∧ s.phase ≠ .bound ∧ step store (.prepare rows) s =
      (.prepared s.position (.ok ()), s.behind schema store rows) := by
  obtain ⟨hfresh, hbound⟩ := (prepare_result hstore).1 h
  refine ⟨hfresh, hbound, ?_⟩
  show (Reply.prepared s.position (s.prepare store rows).result, (s.prepare store rows).state) = _
  rw [prepare_eq_ok hstore hfresh hbound]
  rfl

/-- A call that fails on a readable store leaves the scan as it was. -/
theorem step_refused (hstore : store.Holds schema deltas) {op : Op} {e : Error}
    (h : (step store op s).1.result = .error e) : (step store op s).2 = s := by
  have hmove (m : Move) (hm : (DeltaSource.move store m s).result = .error e) :
      (step store (opOf m) s).2 = s := by
    rw [← move_state, move_refused hstore hm]
    rfl
  cases op with
  | init => exact hmove .init h
  | seek row => exact hmove (.seek row) h
  | prepare rows => exact hmove (.prepare rows) h
  | apply column target => rfl

/-- What is checked before a column of a batch is written, in order. -/
theorem Serves.writesBatch {start rows : Nat} {writes : List Write}
    (h : s.Serves schema deltas start rows writes) : WritesBatch s.projection rows s := by
  intro store column target
  have hstep : (step store (.apply column target) s).1 =
      .applied (s.apply column target).result (s.apply column target).state := rfl
  refine ⟨fun hnone => ?_, fun c hc => ⟨fun htype => ?_, fun htype => ⟨fun hshort => ?_,
    fun hlong => ?_⟩⟩⟩
  · rw [hstep]
    unfold apply Schema.column
    rw [h.phase_eq]
    simp only [hnone]
    rfl
  · rw [hstep]
    unfold apply Schema.column
    rw [h.phase_eq]
    simp only [hc]
    rw [if_pos htype]
    rfl
  · rw [hstep]
    unfold apply Schema.column
    rw [h.phase_eq]
    simp only [hc]
    rw [if_neg (not_not.2 htype), if_pos hshort]
    rfl
  · exact (h.apply_result hc htype.symm hlong).imp_right And.right

/-! ## The account of a scan -/

/-- A call that leaves no trace: it neither binds the scan nor puts it anywhere. -/
def Quiet (e : Event (Store × Op) Reply) : Prop := landing? e = none ∧ ¬ Binds e

/-- The landings with one more call. -/
theorem landings_snoc (past : Calls) (e : Event (Store × Op) Reply) :
    landings (past ++ [e]) = landings past ++ (landing? e).toList := by
  unfold landings
  rw [List.filterMap_append]
  cases h : landing? e <;> simp [h]

/-- The batches with one more call. -/
theorem batches_snoc (past : Calls) (e : Event (Store × Op) Reply) :
    batches (past ++ [e]) = batches past ++ ((landing? e).bind Landing.batch?).toList := by
  unfold batches
  rw [landings_snoc, List.filterMap_append]
  cases h : landing? e with
  | none => rfl
  | some l => cases l <;> rfl

/-- A scan is initialized after one more call if it was before or the call has bound it. -/
theorem initialized_snoc {past : Calls} {e : Event (Store × Op) Reply} :
    Initialized (past ++ [e]) ↔ Initialized past ∨ Binds e := by
  unfold Initialized
  simp [or_and_right, exists_or]

/-- Only calls to initialize the scan bind it. -/
theorem not_binds {op : Op} {answer : Reply} (h : op ≠ .init) : ¬ Binds ⟨(store, op), answer⟩ := by
  rintro ⟨other, hbinds⟩
  cases hbinds
  exact h rfl

/-- A call that fails is quiet. -/
theorem quiet_of_refused {op : Op} {e : Error} (h : (step store op s).1.result = .error e) :
    Quiet (eventOf (fun call => step call.1 call.2) (store, op) s) := by
  cases op with
  | init =>
    refine ⟨rfl, ?_⟩
    rintro ⟨other, hbinds⟩
    have hanswer : (step store .init s).1 = .moved (.ok ()) := congrArg Event.answer hbinds
    rw [hanswer] at h
    cases h
  | seek row =>
    change (DeltaSource.seek row s).result = .error e at h
    refine ⟨?_, not_binds nofun⟩
    show landing? ⟨(store, .seek row), .moved (DeltaSource.seek row s).result⟩ = none
    rw [h]
    rfl
  | prepare rows =>
    change (DeltaSource.prepare store rows s).result = .error e at h
    refine ⟨?_, not_binds nofun⟩
    show landing? ⟨(store, .prepare rows), .prepared s.position
      (DeltaSource.prepare store rows s).result⟩ = none
    rw [h]
    rfl
  | apply column target =>
    exact ⟨rfl, not_binds nofun⟩

/-- A scan that has been put somewhere is on a row. -/
theorem Landed.phase_ne {l : Landing} (h : Landed schema s (some l)) :
    s.phase ≠ .fresh ∧ s.phase ≠ .bound := by
  cases l with
  | onRow row =>
    obtain ⟨hphase, -⟩ := h
    simp [hphase]
  | behind b =>
    obtain ⟨⟨deltas, writes, hserves⟩, -⟩ := h
    simp [hserves.phase_eq]

/-- No scan is put beyond the last row counted. -/
theorem Landed.position_le {l : Landing} (h : Landed schema s (some l)) :
    s.position ≤ maxPosition := by
  cases l with
  | onRow row =>
    obtain ⟨-, hposition⟩ := h
    have hlt := row.toNat_lt
    have hmax : 2 ^ 32 ≤ maxPosition := by decide
    omega
  | behind b =>
    obtain ⟨-, hposition⟩ := h
    rw [hposition]
    exact Nat.min_le_right ..

/-- A new scan has nothing to account for. -/
theorem account_start (projection : Schema) (snapshot : Snapshot) :
    Account schema projection [] (.start projection snapshot) where
  projection_eq := rfl
  sound := sound_start projection snapshot
  fresh_iff := iff_of_true rfl (by simp [Initialized])
  landed := .inl rfl
  seeked h := absurd rfl h
  reached_le_iff n := iff_of_true (fun r hr => by cases hr) (by simp [batches, landings])
  increasing := .nil

namespace Account

/-- A quiet call that changes nothing needs no account. -/
theorem quiet (h : Account schema projection calls s) {e : Event (Store × Op) Reply}
    (he : Quiet e) : Account schema projection (calls ++ [e]) s := by
  have hlandings : landings (calls ++ [e]) = landings calls := by
    rw [landings_snoc, he.1]
    exact List.append_nil _
  have hbatches : batches (calls ++ [e]) = batches calls := by
    rw [batches_snoc, he.1]
    exact List.append_nil _
  refine ⟨h.projection_eq, h.sound, ?_, ?_, ?_, ?_, ?_⟩
  · rw [initialized_snoc, or_iff_left he.2]
    exact h.fresh_iff
  · rw [hlandings]
    exact h.landed
  · unfold Seeked
    rw [hlandings]
    exact h.seeked
  · rw [hbatches]
    exact h.reached_le_iff
  · rw [hbatches]
    exact h.increasing

/-- A scan that is not fresh has been initialized. -/
theorem initialized (h : Account schema projection calls s) (hfresh : s.phase ≠ .fresh) :
    Initialized calls := not_not.1 (mt h.fresh_iff.2 hfresh)

/-- Until it is put on a row, a scan is fresh or merely bound. -/
theorem early_iff (h : Account schema projection calls s) :
    (s.phase = .fresh ∨ s.phase = .bound) ↔ ¬ Seeked calls := by
  have hlanded := h.landed
  cases hlast : (landings calls).getLast? with
  | none =>
    rw [hlast] at hlanded
    refine iff_of_true hlanded ?_
    rintro ⟨row, hrow⟩
    rw [List.getLast?_eq_none_iff.1 hlast] at hrow
    exact List.not_mem_nil hrow
  | some l =>
    rw [hlast] at hlanded
    have hne : landings calls ≠ [] := fun hnil => by
      rw [hnil] at hlast
      cases hlast
    exact iff_of_false (not_or.2 hlanded.phase_ne) (not_not.2 (h.seeked hne))

/-- Binding a scan is accounted for. -/
theorem bind (h : Account schema projection calls s) (hfresh : s.phase = .fresh)
    {routes : List (Option Nat)} (hsound : Sound schema { s with phase := .bound, routes })
    (store : Store) : Account schema projection (calls ++ [⟨(store, .init), .moved (.ok ())⟩])
      { s with phase := .bound, routes } := by
  have hlandings : landings (calls ++ [⟨(store, .init), .moved (.ok ())⟩]) = landings calls := by
    rw [landings_snoc]
    exact List.append_nil _
  -- A fresh scan has not been put anywhere.
  have hnil : landings calls = [] := by
    by_contra hne
    exact h.early_iff.1 (.inl hfresh) (h.seeked hne)
  have hbatches : batches (calls ++ [⟨(store, .init), .moved (.ok ())⟩]) = batches calls := by
    rw [batches_snoc]
    exact List.append_nil _
  refine ⟨h.projection_eq, hsound, ?_, ?_, ?_, ?_, ?_⟩
  · exact iff_of_false ScanPhase.noConfusion
      (not_not.2 (initialized_snoc.2 (.inr ⟨store, rfl⟩)))
  · rw [hlandings, hnil]
    exact .inr rfl
  · rw [hlandings]
    exact fun hne => absurd hnil hne
  · rw [hbatches]
    exact h.reached_le_iff
  · rw [hbatches]
    exact h.increasing

/-- Putting a scan on a row is accounted for. -/
theorem place (h : Account schema projection calls s) (hfresh : s.phase ≠ .fresh) {row : Row}
    (hsound : Sound schema { s with phase := .positioned, position := row.toNat }) (store : Store) :
    Account schema projection (calls ++ [⟨(store, .seek row), .moved (.ok ())⟩])
      { s with phase := .positioned, position := row.toNat } := by
  have hlandings : landings (calls ++ [⟨(store, .seek row), .moved (.ok ())⟩]) =
      landings calls ++ [.onRow row] := landings_snoc ..
  have hbatches : batches (calls ++ [⟨(store, .seek row), .moved (.ok ())⟩]) = batches calls := by
    rw [batches_snoc]
    exact List.append_nil _
  refine ⟨h.projection_eq, hsound, ?_, ?_, fun _ => ⟨row, ?_⟩, ?_, ?_⟩
  · exact iff_of_false ScanPhase.noConfusion
      (not_not.2 (initialized_snoc.2 (.inl (h.initialized hfresh))))
  · rw [hlandings, List.getLast?_concat]
    exact ⟨rfl, rfl⟩
  · rw [hlandings]
    exact List.mem_concat_self
  · rw [hbatches]
    exact h.reached_le_iff
  · rw [hbatches]
    exact h.increasing

/-- Putting a scan behind a batch is accounted for. -/
theorem pass (h : Account schema projection calls s) (hfresh : s.phase ≠ .fresh)
    (hbound : s.phase ≠ .bound) (hstore : store.Holds schema deltas) (rows : Nat) :
    Account schema projection (calls ++ [⟨(store, .prepare rows), .prepared s.position (.ok ())⟩])
      (s.behind schema store rows) := by
  let b : Batch := ⟨s.position, rows⟩
  have hlandings : landings (calls ++ [⟨(store, .prepare rows), .prepared s.position (.ok ())⟩]) =
      landings calls ++ [.behind b] := landings_snoc ..
  have hbatches : batches (calls ++ [⟨(store, .prepare rows), .prepared s.position (.ok ())⟩]) =
      batches calls ++ [b] := batches_snoc ..
  -- The scan has been put somewhere, and its batches have ended at or before its row.
  obtain ⟨row, hrow⟩ : Seeked calls :=
    not_not.1 (mt h.early_iff.2 (not_or.2 ⟨hfresh, hbound⟩))
  obtain ⟨l, hlast⟩ : ∃ l, (landings calls).getLast? = some l :=
    ⟨_, List.getLast?_eq_some_getLast (List.ne_nil_of_mem hrow)⟩
  have hposition : s.position ≤ maxPosition := (hlast ▸ h.landed).position_le
  have hbefore : ∀ b' ∈ batches calls, b'.stop ≤ s.position :=
    (h.reached_le_iff s.position).1 h.sound.reached_le
  have hstop : s.position ≤ b.stop := by
    show s.position ≤ min (s.position + rows) maxPosition
    omega
  refine ⟨h.projection_eq, h.sound.behind hfresh store rows, ?_, ?_, fun _ => ?_, fun n => ?_, ?_⟩
  · exact iff_of_false ScanPhase.noConfusion
      (not_not.2 (initialized_snoc.2 (.inl (h.initialized hfresh))))
  · rw [hlandings, List.getLast?_concat]
    exact ⟨⟨deltas, _, behind_serves (h.sound.bound hfresh) hstore rows⟩, rfl⟩
  · refine ⟨row, ?_⟩
    rw [hlandings]
    exact List.mem_append_left _ hrow
  · rw [hbatches]
    constructor
    · intro hreached b' hb'
      have hle : b.stop ≤ n := hreached _ rfl
      rcases List.mem_append.1 hb' with hb' | hb'
      · exact (hbefore b' hb').trans (hstop.trans hle)
      · rwa [List.mem_singleton.1 hb']
    · rintro hall r hr
      cases hr
      exact hall b List.mem_concat_self
  · rw [hbatches]
    refine List.pairwise_append.2 ⟨h.increasing, List.pairwise_singleton .., ?_⟩
    intro b' hb' c hc
    rw [List.mem_singleton.1 hc]
    exact hbefore b' hb'

/-- Each call on a reachable store is accounted for. -/
theorem step (h : Account schema projection calls s) (call : Store × Op)
    (hstore : call.1.Reachable schema) :
    Account schema projection (calls ++ [eventOf (fun call => Scan.step call.1 call.2) call s])
      (Scan.step call.1 call.2 s).2 := by
  obtain ⟨store, op⟩ := call
  have hholds := hstore.holds
  have hsound := h.sound.of_effect (step_effect hholds.schema_eq op)
  cases hresult : (Scan.step store op s).1.result with
  | error e =>
    rw [step_refused hholds hresult]
    exact h.quiet (quiet_of_refused hresult)
  | ok u =>
    cases op with
    | init =>
      obtain ⟨hfresh, routes, hstep⟩ := step_bind hresult
      unfold eventOf
      dsimp only
      rw [hstep] at hsound ⊢
      exact h.bind hfresh hsound store
    | seek row =>
      obtain ⟨hfresh, hstep⟩ := step_place hresult
      unfold eventOf
      dsimp only
      rw [hstep] at hsound ⊢
      exact h.place hfresh hsound store
    | prepare rows =>
      obtain ⟨hfresh, hbound, hstep⟩ := step_pass hholds hresult
      unfold eventOf
      dsimp only
      rw [hstep]
      exact h.pass hfresh hbound hholds rows
    | apply column target =>
      exact h.quiet ⟨rfl, not_binds nofun⟩

end Account

/-- A scan keeps account of all calls made on it. -/
theorem account_of_run {snapshot : Snapshot}
    (hrun : Run (fun call => step call.1 call.2) (.start projection snapshot) calls s)
    (hstores : ∀ e ∈ calls, e.call.1.Reachable schema) : Account schema projection calls s :=
  hrun.invariant_of_forall (fun past s => Account schema projection past s)
    (fun _ _ call h hstore => h.step call hstore) (account_start projection snapshot) hstores

/-- A scan that keeps account of its calls keeps them in order. -/
theorem Account.inOrder (h : Account schema projection calls s) :
    InOrder schema projection calls s where
  init_iff store hstore := by
    rw [init_result hstore.holds.schema_eq, h.fresh_iff, h.projection_eq]
  init_again hinitialized store := by
    have hfresh : s.phase ≠ .fresh := fun hfresh => h.fresh_iff.1 hfresh hinitialized
    show (s.init store.schema).result = _
    rw [init_refused hfresh]
    rfl
  init_unfit hinitialized store hstore c hc hunfit := by
    have hfresh := h.fresh_iff.2 hinitialized
    show ∃ fault, (s.init store.schema).result = .error (.projection fault)
    rw [hstore.holds.schema_eq]
    rcases init_cases schema s with ⟨-, hcolumns, -⟩ | ⟨-, -, fault, hinit⟩ | ⟨hnot, -⟩
    · exact absurd (hcolumns (h.projection_eq ▸ hc)) hunfit
    · rw [hinit]
      exact ⟨fault, rfl⟩
    · exact absurd hfresh hnot
  seek_iff store row := by
    rw [seek_result, ne_eq, h.fresh_iff, not_not, h.reached_le_iff]
  seek_early hinitialized store row := by
    show (s.seek row).result = _
    unfold seek
    rw [if_pos (h.fresh_iff.2 hinitialized)]
    rfl
  seek_behind hinitialized row b hb hbehind := by
    have hfresh : s.phase ≠ .fresh := fun hfresh => h.fresh_iff.1 hfresh hinitialized
    have hreached := h.reached_le_iff
    cases hr : s.reached with
    | none =>
      -- Without a bound, no batch has been prepared.
      simp only [hr, reduceCtorEq, IsEmpty.forall_iff, implies_true, true_iff] at hreached
      exact absurd (hreached row.toNat b hb) (Nat.not_le.2 hbehind)
    | some r =>
      simp only [hr, Option.some_inj, forall_eq'] at hreached
      have hlt : row.toNat < r := Nat.lt_of_not_le fun hle =>
        absurd ((hreached row.toNat).1 hle b hb) (Nat.not_le.2 hbehind)
      refine ⟨r, hreached, fun store => ?_⟩
      show (s.seek row).result = _
      unfold seek
      rw [if_neg hfresh, hr]
      dsimp only
      rw [if_pos hlt]
      rfl
  prepare_iff store hstore rows := by
    rw [prepare_result hstore.holds, ← not_or, h.early_iff, not_not]
  prepare_early hseeked store hstore rows := by
    show (s.prepare store rows).result = _
    rw [prepare_tooEarly store (h.early_iff.2 hseeked)]
    rfl
  position_eq l hlast := by
    have hlanded := h.landed
    rw [hlast] at hlanded
    cases l with
    | onRow row => exact hlanded.2
    | behind b => exact hlanded.2
  apply_batch b hlast := by
    have hlanded := h.landed
    rw [hlast] at hlanded
    obtain ⟨⟨deltas, writes, hserves⟩, -⟩ := hlanded
    rw [← h.projection_eq]
    exact hserves.writesBatch
  apply_early hlast store column target := by
    have hphase : s.phase = .fresh ∨ s.phase = .bound ∨ s.phase = .positioned := by
      have hlanded := h.landed
      cases hl : (landings calls).getLast? with
      | none =>
        rw [hl] at hlanded
        exact hlanded.imp_right .inl
      | some l =>
        rw [hl] at hlanded
        cases l with
        | onRow row => exact .inr (.inr hlanded.1)
        | behind b => exact absurd hl (hlast b)
    show Reply.applied (s.apply column target).result (s.apply column target).state = _
    unfold apply
    rcases hphase with hphase | hphase | hphase
    all_goals
      rw [hphase]
      rfl
  refused store hstore op e hresult := step_refused hstore.holds hresult

/-- The order of calls on a scan is kept, and no row is prepared twice. For any calls on a scan, on
any stores that can be reached, the calls so far decide about the next one. The batches prepared
follow each other: each starts where the last one ended or later, so no row belongs to two of
them. -/
theorem calls_in_order {snapshot : Snapshot}
    (hrun : Run (fun call => step call.1 call.2) (.start projection snapshot) calls s)
    (hstores : ∀ e ∈ calls, e.call.1.Reachable schema) :
    InOrder schema projection calls s ∧ (batches calls).Pairwise (fun b c => b.stop ≤ c.start) ∧
      (batches calls).Pairwise fun b c => ∀ row, b.Covers row → ¬ c.Covers row := by
  have haccount := account_of_run hrun hstores
  refine ⟨haccount.inOrder, haccount.increasing, haccount.increasing.imp ?_⟩
  rintro b c hle row ⟨-, hlt⟩ ⟨hge, -⟩
  -- No row is as far as positions are counted, so the first batch ends beyond the row.
  have hstop : row.toNat < b.stop := by
    have hrow := row.toNat_lt
    have hmax : 2 ^ 32 ≤ maxPosition := by decide
    unfold Batch.stop
    omega
  omega

/-- The store after one number has been set. -/
def hopStore : Store :=
  (execute Store.step [⟨⟨1, 5⟩, [0, 0, 0, 0, 7, 0, 0, 0]⟩] (bareStore .numbers)).2

/-- A scan is called on too early, prepares five rows while the number is set, and hops ahead. -/
def hopCalls : List (Store × Op) :=
  [(bareStore .numbers, .seek 0), (bareStore .numbers, .init), (bareStore .numbers, .prepare 5),
    (bareStore .numbers, .seek 0), (hopStore, .prepare 5), (hopStore, .seek 2), (hopStore, .seek 8)]

/-- The scan after these calls. -/
def hopRun : Calls × Scan :=
  execute (fun call => step call.1 call.2) hopCalls (.start .numbers .includingAll)

/-- After a hop ahead the rows before the batch stay closed and those between are open. A column can
be written only behind another batch. -/
theorem calls_in_order_hop :
    (∀ e ∈ hopRun.1, e.call.1.Reachable .numbers) ∧
      landings hopRun.1 = [.onRow 0, .behind ⟨0, 5⟩, .onRow 8] ∧
      (step hopStore (.seek 4) hopRun.2).1.result ≠ .ok () ∧
      (step hopStore (.seek 5) hopRun.2).1.result = .ok () ∧
      (step hopStore (.prepare 5) hopRun.2).1.result = .ok () ∧
      ∀ target, (step hopStore (.apply 0 target) hopRun.2).1 =
        .applied (.error (.invalidState (.tooEarly .applyUpdates .prepareBatch))) target := by
  have hbare : (bareStore .numbers).Reachable .numbers := ⟨{}, [], .nil _⟩
  have hhop : hopStore.Reachable .numbers := ⟨{}, _, .of_execute _ _⟩
  have hcalls : hopRun.1.map Event.call = hopCalls :=
    Run.calls_execute hopCalls (Scan.start .numbers .includingAll)
  have hstores : ∀ e ∈ hopRun.1, e.call.1.Reachable .numbers := by
    intro e he
    have hcall : e.call ∈ hopCalls := hcalls ▸ List.mem_map_of_mem he
    have heither : ∀ call ∈ hopCalls, call.1 = bareStore .numbers ∨ call.1 = hopStore := by
      simp [hopCalls]
    rcases heither e.call hcall with hstore | hstore
    · exact hstore ▸ hbare
    · exact hstore ▸ hhop
  have hlandings : landings hopRun.1 = [.onRow 0, .behind ⟨0, 5⟩, .onRow 8] := by decide +kernel
  have hbatches : batches hopRun.1 = [⟨0, 5⟩] := congrArg (List.filterMap Landing.batch?) hlandings
  have hbinds : ⟨(bareStore .numbers, .init), .moved (.ok ())⟩ ∈ hopRun.1 := by decide +kernel
  have hrun : Run (fun call => step call.1 call.2) (.start .numbers .includingAll) hopRun.1
      hopRun.2 := .of_execute hopCalls _
  obtain ⟨horder, -⟩ := calls_in_order hrun hstores
  refine ⟨hstores, hlandings, ?_, ?_, ?_, horder.apply_early ?_ hopStore 0⟩
  · intro hok
    have hall := ((horder.seek_iff hopStore 4).1 hok).2
    rw [hbatches] at hall
    exact absurd (hall ⟨0, 5⟩ (by decide)) (by decide)
  · refine (horder.seek_iff hopStore 5).2 ⟨⟨_, hbinds, _, rfl⟩, ?_⟩
    rw [hbatches]
    decide
  · refine (horder.prepare_iff hopStore hhop 5).2 ⟨8, ?_⟩
    rw [hlandings]
    decide
  · rw [hlandings]
    simp

end Scan

end TabletDelta
