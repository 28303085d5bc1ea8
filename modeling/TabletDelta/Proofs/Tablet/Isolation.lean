import TabletDelta.Proofs.Tablet.Interleaving
import TabletDelta.Proofs.Txn.Visibility

/-!
# Snapshot isolation

A scan reads through a snapshot while the store that it reads goes on changing. Writers only update
for transactions in flight, so an update of a transaction that a snapshot sees came before the
snapshot, and what is added to the store later is not seen (`mem_deltas_of_committed`). With this,
what a batch leaves in a block depends on the transactions committed before the snapshot only,
whatever was begun, updated, committed and aborted in between (`scan_isolated`).
-/

namespace TabletDelta.Tablet

/-- A transaction is in flight after some calls if it was begun and has not been resolved yet. -/
def InFlight (events : History) (t : Txid) : Prop :=
  t ∈ Ledger.begun (ledgerEvents events) ∧ t ∉ Ledger.commits (ledgerEvents events) ∧
    t ∉ Ledger.aborts (ledgerEvents events)

instance (events : History) (t : Txid) : Decidable (InFlight events t) :=
  inferInstanceAs (Decidable (_ ∧ _ ∧ _))

/-- Updates are made for transactions in flight. -/
def UpdatesInFlight (events : History) : Prop :=
  ∀ before e reply after, events = before ++ ⟨.update e, reply⟩ :: after →
    InFlight before e.key.txid

/-- The delta of an update. -/
def Op.update? : Op → Option Entry
  | .update e => some e
  | _ => none

/-- Whether updates are made for transactions in flight is found event by event. -/
theorem updatesInFlight_iff {events : History} :
    UpdatesInFlight events ↔ ∀ k < events.length, ∀ event ∈ events[k]?, ∀ e ∈ event.call.update?,
      InFlight (events.take k) e.key.txid := by
  constructor
  · rintro h k - ⟨op, reply⟩ hevent e he
    obtain ⟨hk, hget⟩ := List.getElem?_eq_some_iff.1 hevent
    have hop : op = .update e := by
      cases op with
      | update f => exact congrArg Op.update (Option.some.inj he)
      | ledger op | openScan projection snapshot | scan i op => cases he
    refine h (events.take k) e reply (events.drop (k + 1)) ?_
    rw [← hop, ← hget, List.getElem_cons_drop, List.take_append_drop]
  · rintro h before e reply after rfl
    have hk : before.length <
        (before ++ (⟨.update e, reply⟩ : Event Op Reply) :: after).length := by
      rw [List.length_append, List.length_cons]
      omega
    have hevent := h before.length hk ⟨.update e, reply⟩
      (List.getElem?_append_right (Nat.le_refl _) |>.trans (by simp)) e rfl
    rwa [List.take_left] at hevent

instance (events : History) : Decidable (UpdatesInFlight events) :=
  decidable_of_iff _ updatesInFlight_iff.symm

/-- The call prepared a batch of the scan of an index. -/
def Prepares (i : Nat) (e : Event Op Reply) : Prop :=
  ∃ rows start, e = ⟨.scan i (.prepare rows), .scan (.prepared start (.ok ()))⟩

/-- The scan of an index reads a projection, as far as a snapshot sees. -/
structure Reads (schema projection : Schema) (snapshot : Snapshot) (i : Nat) (t : Tablet) :
    Prop where
  /-- The store is of the schema. -/
  schema_eq : t.store.schema = schema
  /-- The scan is there. -/
  scan : ∃ s, t.scans[i]? = some s ∧ s.projection = projection ∧ s.snapshot = snapshot ∧
    s.Sound schema

variable {schema projection : Schema} {config : ArenaConfig} {s : Snapshot} {i : Nat}
  {t : Tablet} {events before after : History}

/-! ## Updates and snapshots -/

/-- The deltas of a tablet were added by updates. -/
theorem mem_deltas {e : Entry} :
    e ∈ Store.deltas (storeEvents events) ↔ ⟨.update e, .updated (.ok ())⟩ ∈ events := by
  rw [Store.mem_deltas]
  unfold storeEvents
  rw [List.mem_filterMap]
  constructor
  · rintro ⟨event, hmem, hpart⟩
    unfold storeEvent? at hpart
    split at hpart
    · next f result =>
      cases hpart
      exact hmem
    · cases hpart
  · exact fun hmem => ⟨_, hmem, rfl⟩

/-- The deltas of transactions that had committed at some point were added before it. -/
theorem mem_deltas_of_committed (hflight : UpdatesInFlight (before ++ after)) {e : Entry}
    (he : e ∈ Store.deltas (storeEvents (before ++ after)))
    (hcommitted : e.key.txid ∈ Ledger.commits (ledgerEvents before)) :
    e ∈ Store.deltas (storeEvents before) := by
  rw [storeEvents_append, Store.deltas_append] at he
  rcases List.mem_append.1 he with he | he
  · exact he
  · -- An update after that point was made while the transaction was in flight.
    obtain ⟨first, last, rfl⟩ := List.append_of_mem (mem_deltas.1 he)
    have hopen := (hflight (before ++ first) e _ last (List.append_assoc ..).symm).2.1
    rw [ledgerEvents_append, Ledger.commits_append] at hopen
    exact absurd (List.mem_append_left _ hcommitted) hopen

/-- The numbers of transactions in flight start at 1. -/
theorem one_le_of_mem_deltas (hrun : Run step (.empty schema config) events t)
    (hflight : UpdatesInFlight events)
    (hroom : (Ledger.begun (ledgerEvents events)).length < UInt64.size - 1) {e : Entry}
    (he : e ∈ Store.deltas (storeEvents events)) : 1 ≤ e.key.txid := by
  obtain ⟨first, last, hevents⟩ := List.append_of_mem (mem_deltas.1 he)
  have hbegun := (hflight first e _ last hevents).1
  have hrecords := Ledger.records_of_run (ledger_run hrun) hroom
  refine ((hrecords.mem_begun _).1 ?_).1
  rw [hevents, ledgerEvents_append, Ledger.begun_append]
  exact List.mem_append_left _ hbegun

/-- At any point after a snapshot was taken, a delta is seen through it exactly if the delta's
transaction had committed when the snapshot was taken. -/
theorem mem_candidates_iff (hrun : Run step (.empty schema config) events t)
    (hflight : UpdatesInFlight events)
    (hroom : (Ledger.begun (ledgerEvents events)).length < UInt64.size - 1)
    (hexact : s.Exact (ledgerEvents before)) {between past : History}
    (hpast : past = before ++ between) (hevents : events = past ++ after) {e : Entry}
    {row column : Nat} :
    e ∈ candidates schema (Store.deltas (storeEvents past)) s.isCommitted row column ↔
      e ∈ candidates schema (Store.deltas (storeEvents events))
        (fun txid => txid ∈ Ledger.commits (ledgerEvents before)) row column := by
  rw [mem_candidates, mem_candidates, decide_eq_true_eq]
  constructor
  · rintro ⟨hmem, hrow, hsees, hvalues⟩
    have he : e ∈ Store.deltas (storeEvents events) := by
      rw [hevents, storeEvents_append, Store.deltas_append]
      exact List.mem_append_left _ hmem
    have hone := one_le_of_mem_deltas hrun hflight hroom he
    exact ⟨he, hrow, (hexact.isCommitted_iff _ hone).1 hsees, hvalues⟩
  · rintro ⟨hmem, hrow, hcommitted, hvalues⟩
    have hone := one_le_of_mem_deltas hrun hflight hroom hmem
    rw [hevents, hpast, List.append_assoc] at hmem hflight
    have hbefore := mem_deltas_of_committed hflight hmem hcommitted
    refine ⟨?_, hrow, (hexact.isCommitted_iff _ hone).2 hcommitted, hvalues⟩
    rw [hpast, storeEvents_append, Store.deltas_append]
    exact List.mem_append_left _ hbefore

/-! ## Batches in a run -/

/-- Each call keeps what a scan reads. -/
theorem Reads.step (h : t.Reads schema projection s i) (op : Op) :
    (step op t).2.Reads schema projection s i := by
  obtain ⟨hschema, scan, hscan, hprojection, hsnapshot, hsound⟩ := h
  refine ⟨?_, ?_⟩
  · cases op with
    | ledger op | openScan projection snapshot => exact hschema
    | update e => exact (Store.step_schema e t.store).trans hschema
    | scan j op =>
      unfold Tablet.step
      dsimp only
      cases t.scans[j]? <;> exact hschema
  · rcases scan_step hscan op with ⟨hkept, -⟩ | ⟨scanOp, -, hcalled, -⟩
    · exact ⟨scan, hkept, hprojection, hsnapshot, hsound⟩
    · have heffect := Scan.step_effect (s := scan) hschema scanOp
      obtain ⟨hsameProjection, hsameSnapshot⟩ := heffect.frame
      exact ⟨_, hcalled, hsameProjection.trans hprojection, hsameSnapshot.trans hsnapshot,
        hsound.of_effect heffect⟩

/-- A scan goes on reading what it was opened for. -/
theorem reads_of_run
    (hrun : Run step (.empty schema config)
      (before ++ ⟨.openScan projection s, .opened i⟩ :: after) t) :
    t.Reads schema projection s i := by
  obtain ⟨m, hbefore, hanswer, hafter⟩ := hrun.split
  have hholds := Store.holds_of_run (store_run hbefore)
  have hopened : Reads schema projection s i (step (.openScan projection s) m).2 := by
    refine ⟨hholds.schema_eq, .start projection s, ?_, rfl, rfl, Scan.sound_start projection s⟩
    have hi : i = m.scans.length := Reply.opened.inj hanswer
    show (m.scans ++ [_])[i]? = _
    rw [hi, List.getElem?_concat_length]
  exact hafter.preserves (Reads schema projection s i) (fun t op h => h.step op) hopened

/-- A batch stays until the next one is prepared, unless its scan is moved. -/
theorem batch_kept {scan : Scan} (hscan : t.scans[i]? = some scan) (hfresh : scan.phase ≠ .fresh)
    (op : Op) (hop : ¬ Prepares i (eventOf step op t)) :
    (step op t).2.scans[i]? = some scan ∨
      ∃ moved, (step op t).2.scans[i]? = some moved ∧ moved.phase = .positioned := by
  rcases scan_step hscan op with ⟨hkept, -⟩ | ⟨scanOp, rfl, hcalled, -⟩
  · exact .inl hkept
  · have hanswer : ∀ start, (Scan.step t.store scanOp scan).1 ≠ .prepared start (.ok ()) := by
      intro start hprepared
      cases scanOp with
      | prepare rows =>
        refine hop ⟨rows, start, ?_⟩
        unfold eventOf
        rw [step_scan hscan, hprepared]
      | init | seek row | apply column target => cases hprepared
    rcases Scan.batch_kept hfresh scanOp hanswer with hsame | hmoved
    · exact .inl (hsame ▸ hcalled)
    · exact .inr ⟨_, hcalled, hmoved⟩

/-- A batch that is prepared in a run is served until the next one is prepared, unless its scan is
moved, and it is made of the deltas that the store had then. -/
theorem serves_of_run {rows start : Nat} {between : History}
    (hrun : Run step (.empty schema config)
      (before ++ ⟨.scan i (.prepare rows), .scan (.prepared start (.ok ()))⟩ :: between) t)
    (hreads : ∀ m, Run step (.empty schema config) before m → m.Reads schema projection s i)
    (hbetween : ∀ e ∈ between, ¬ Prepares i e) :
    ∃ scan, t.scans[i]? = some scan ∧ (scan.phase = .positioned ∨
      ∃ writes, scan.projection = projection ∧ scan.snapshot = s ∧
        scan.Serves schema (Store.deltas (storeEvents before)) start rows writes) := by
  obtain ⟨m, hbefore, hanswer, hafter⟩ := hrun.split
  obtain ⟨hschema, scan, hscan, hprojection, hsnapshot, hsound⟩ := hreads m hbefore
  have hholds := Store.holds_of_run (store_run hbefore)
  rw [step_scan hscan] at hanswer hafter
  obtain ⟨hstart, hok⟩ := Scan.Reply.prepared.inj (Reply.scan.inj hanswer)
  -- The call has succeeded, so the scan was on a row.
  have hlate : ¬ (scan.phase = .fresh ∨ scan.phase = .bound) := by
    intro hearly
    have hrefused := Scan.prepare_tooEarly m.store hearly rows
    change .ok () = (scan.prepare m.store rows).result at hok
    rw [hrefused] at hok
    cases hok
  obtain ⟨hfresh, hbound⟩ := not_or.1 hlate
  have hprepared : (Scan.step m.store (.prepare rows) scan).2 = scan.behind schema m.store rows :=
    congrArg Outcome.state (Scan.prepare_eq_ok hholds hfresh hbound rows)
  have hserves := Scan.behind_serves (hsound.bound hfresh) hholds rows
  rw [← hstart] at hserves
  rw [hprepared] at hafter
  -- From then on the scan is as the call has left it, or on a row without a batch.
  have hkept := hafter.invariant_of_forall
    (fun _ t => ∃ scan', t.scans[i]? = some scan' ∧
      (scan'.phase = .positioned ∨ scan' = scan.behind schema m.store rows))
    (fun _ t op ih hop => by
      obtain ⟨scan', hscan', hcases⟩ := ih
      have hfresh' : scan'.phase ≠ .fresh := by
        rcases hcases with hpositioned | rfl
        · rw [hpositioned]
          exact ScanPhase.noConfusion
        · exact ScanPhase.noConfusion
      rcases batch_kept hscan' hfresh' op hop with hsame | ⟨moved, hmoved, hphase⟩
      · exact ⟨scan', hsame, hcases⟩
      · exact ⟨moved, hmoved, .inl hphase⟩)
    (by
      obtain ⟨hi, -⟩ := List.getElem?_eq_some_iff.1 hscan
      exact ⟨_, List.getElem?_set_self hi, .inr rfl⟩)
    hbetween
  obtain ⟨scan', hscan', hpositioned | rfl⟩ := hkept
  · exact ⟨scan', hscan', .inl hpositioned⟩
  · exact ⟨_, hscan', .inr ⟨_, hprojection, hsnapshot, hserves⟩⟩

/-- Scans are isolated by their snapshots. Take any run in which updates are made for transactions
in flight, a snapshot in it, a scan opened with the snapshot, and a batch that this scan prepares.
The batch starts where the scan's own calls have brought it. A column of the batch then written to a
block leaves in the slot of each row the last value, by transaction and then by the place in the
change list, given to the column's source by the transactions committed before the snapshot was
taken. The slots of rows without one, and those beyond the batch, keep what they held. -/
theorem scan_isolated {start rows column : Nat} {target target' : Target}
    {opening opened driving prepared between rest : History}
    (hrun : Run step (.empty schema config) events t) (hflight : UpdatesInFlight events)
    (hroom : (Ledger.begun (ledgerEvents events)).length < UInt64.size - 1)
    (hopened : opened = before ++ ⟨.ledger .snapshot, .ledger (.taken s)⟩ :: opening)
    (hprepared : prepared = opened ++ ⟨.openScan projection s, .opened i⟩ :: driving)
    (hevents : events =
      prepared ++ ⟨.scan i (.prepare rows), .scan (.prepared start (.ok ()))⟩ ::
        (between ++ ⟨.scan i (.apply column target), .scan (.applied (.ok ()) target')⟩ :: rest))
    (hbetween : ∀ e ∈ between, ¬ Prepares i e) :
    start = Scan.positionAfter (scanEvents i prepared) ∧
      ∃ source, schema.source? projection column = some source ∧ rows ≤ target.block.rows ∧
        target.block.Overwritten target'.block fun slot =>
          if slot < rows then
            latest schema (Store.deltas (storeEvents events))
              (fun txid => txid ∈ Ledger.commits (ledgerEvents before)) (start + slot) source
          else none := by
  -- The snapshot is exact for what had happened before it.
  have hpast : prepared = before ++ (⟨.ledger .snapshot, .ledger (.taken s)⟩ ::
      (opening ++ ⟨.openScan projection s, .opened i⟩ :: driving)) := by
    rw [hprepared, hopened, List.append_assoc, List.cons_append]
  have hexact : s.Exact (ledgerEvents before) := by
    have hledger := ledger_run hrun
    rw [hevents, hpast, List.append_assoc, ledgerEvents_append] at hledger hroom
    exact Ledger.exact_of_run hledger hroom
  have hreads : ∀ m, Run step (.empty schema config) prepared m →
      m.Reads schema projection s i := fun m hm => reads_of_run (hprepared ▸ hm)
  -- The batch starts at the scan's row.
  obtain ⟨first, hprefix, hstart, -⟩ := (hevents ▸ hrun).split
  obtain ⟨-, fresh, hfresh, -⟩ := hreads first hprefix
  rw [step_scan hfresh] at hstart
  have hstart := (Scan.Reply.prepared.inj (Reply.scan.inj hstart)).1
  have hposition := (position_of_run hprefix i).2 fresh hfresh
  refine ⟨hstart.trans hposition, ?_⟩
  -- The batch is made of the deltas that were there when it was prepared, and still served.
  have happly : events =
      (prepared ++ ⟨.scan i (.prepare rows), .scan (.prepared start (.ok ()))⟩ :: between) ++
        ⟨.scan i (.apply column target), .scan (.applied (.ok ()) target')⟩ :: rest := by
    rw [hevents, List.append_assoc, List.cons_append]
  obtain ⟨m, hserving, hanswer, -⟩ := (happly ▸ hrun).split
  obtain ⟨scan, hscan, hserves⟩ := serves_of_run hserving hreads hbetween
  rw [step_scan hscan] at hanswer
  obtain ⟨hok, htarget⟩ := Scan.Reply.applied.inj (Reply.scan.inj hanswer)
  change .ok () = (scan.apply column target).result at hok
  change target' = (scan.apply column target).state at htarget
  rcases hserves with hpositioned | ⟨writes, hprojection, hsnapshot, hserves⟩
  · unfold Scan.apply at hok
    rw [hpositioned] at hok
    cases hok
  · obtain ⟨source, hsource, hrows, hover⟩ := hserves.apply_overwrites hok.symm
    rw [hprojection] at hsource
    rw [← htarget, hsnapshot] at hover
    refine ⟨source, hsource, hrows, hover.congr fun slot _ => ?_⟩
    -- What the snapshot sees of these deltas is what the committed transactions have ever added.
    have hholds := Store.holds_of_run (store_run hprefix)
    rw [latest_congr hholds.eq_of_key fun e =>
      mem_candidates_iff hrun hflight hroom hexact hpast hevents]

/-- Two slots for numbers, and a new arena. -/
def twoSlots : Target := ⟨.blank .uint32 2, default⟩

/-- Transaction 2 commits before a snapshot is taken, 1 commits and 3 is begun and committed after
it. The scan opened with the snapshot then prepares rows 5 and 6, to which all three have given
values, and another transaction is begun before the column is written. -/
def lateCommits : List Op :=
  [.ledger .begin, .ledger .begin, .update ⟨⟨5, 2⟩, [0, 0, 0, 0, 7, 0, 0, 0]⟩,
    .update ⟨⟨5, 1⟩, [0, 0, 0, 0, 3, 0, 0, 0]⟩, .ledger (.commit 2), .ledger .snapshot,
    .openScan .numbers ⟨1, .ofList [2], .empty⟩, .scan 0 .init, .scan 0 (.seek 5),
    .ledger (.commit 1), .ledger .begin, .update ⟨⟨6, 3⟩, [0, 0, 0, 0, 9, 0, 0, 0]⟩,
    .ledger (.commit 3), .scan 0 (.prepare 2), .ledger .begin, .scan 0 (.apply 0 twoSlots)]

/-- The events of these calls on an empty tablet. -/
def lateEvents : History := (execute step lateCommits (empty .numbers {})).1

/-- The block that they leave: the value of transaction 2, and what the second slot held before. -/
def seven : Block := ⟨.uint32, [.uint32 7, .uint32 0], by decide⟩

/-- The scan of these calls writes the value of transaction 2 to the first slot, whatever came
later, and leaves the second one as it was. -/
theorem scan_isolated_lateCommits :
    UpdatesInFlight lateEvents ∧
      lateEvents.getLast?.map Event.answer = some (.scan (.applied (.ok ()) ⟨seven, default⟩)) ∧
      twoSlots.block.Overwritten seven (fun slot =>
        if slot < 2 then
          latest .numbers (Store.deltas (storeEvents lateEvents))
            (fun txid => txid ∈ Ledger.commits (ledgerEvents (lateEvents.take 5))) (5 + slot) 0
        else none) := by
  have hflight : UpdatesInFlight lateEvents := by decide +kernel
  obtain ⟨-, source, hsource, -, hover⟩ := scan_isolated
    (s := ⟨1, .ofList [2], .empty⟩) (i := 0) (t := (execute step lateCommits (empty .numbers {})).2)
    (.of_execute lateCommits (empty .numbers {})) hflight (by decide +kernel)
    (show lateEvents.take 6 = lateEvents.take 5 ++ _ :: [] by decide +kernel)
    (show lateEvents.take 13 = lateEvents.take 6 ++
        ⟨.openScan .numbers _, .opened 0⟩ :: (lateEvents.take 13).drop 7 by decide +kernel)
    (show lateEvents = lateEvents.take 13 ++
        ⟨.scan 0 (.prepare 2), .scan (.prepared 5 (.ok ()))⟩ ::
          ([⟨.ledger .begin, .ledger (.begun 4)⟩] ++
            ⟨.scan 0 (.apply 0 twoSlots), .scan (.applied (.ok ()) ⟨seven, default⟩)⟩ :: []) by
      decide +kernel)
    (by
      intro e he
      rw [List.mem_singleton.1 he]
      rintro ⟨rows, start, h⟩
      cases h)
  have hzero : Schema.numbers.source? .numbers 0 = some 0 := by decide
  rw [hzero, Option.some_inj] at hsource
  subst hsource
  exact ⟨hflight, by decide +kernel, hover⟩

end TabletDelta.Tablet
