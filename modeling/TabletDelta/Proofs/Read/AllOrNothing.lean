import TabletDelta.Proofs.Read.Columns

/-!
# Reading all deltas, or none

Two snapshots are not taken of any transactions: one is to see all there can be, and the other one
none. Both are bare watermarks. Every number is at or above the watermark 0, so no delta is read
with the one (`apply_of_includingNone`). But there is no watermark above the last number, and a
watermark is compared strictly, so the other one sees every transaction except the last
(`isCommitted_includingAll`). A store takes deltas of any transaction, the last one included. Such a
delta is skipped, and the latest value of a cell is read exactly if it does not come from one
(`reads_all_or_nothing`, `includingAll_skips_last`).
-/

namespace TabletDelta

/-- The last number that a transaction can have. -/
def Txid.last : Txid := 0xffffffffffffffff

namespace Snapshot

/-- Of all transactions, the snapshot that is to see all of them misses the last one. -/
theorem isCommitted_includingAll (t : Txid) :
    includingAll.isCommitted t = decide (t ≠ Txid.last) := by
  have hlast : Txid.last.toNat = 0xffffffffffffffff := rfl
  have hbelow : t < Txid.last ↔ t ≠ Txid.last := by
    have ht := t.toNat_lt
    rw [UInt64.lt_iff_toNat_lt, ne_eq, ← UInt64.toNat_inj]
    omega
  show (if t < Txid.last then true else false) = _
  by_cases h : t < Txid.last
  · rw [if_pos h, decide_eq_true (hbelow.1 h)]
  · rw [if_neg h, decide_eq_false (mt hbelow.2 h)]

/-- The snapshot that is to see no transaction sees none. -/
theorem isCommitted_includingNone (t : Txid) : includingNone.isCommitted t = false := by
  have hnot : ¬ t < (0 : Txid) := by
    rw [UInt64.lt_iff_toNat_lt]
    exact Nat.not_lt_zero _
  show (if t < (0 : Txid) then _ else false) = false
  rw [if_neg hnot]

end Snapshot

/-- Without the deltas of the last transaction, the newest delta of a cell is the same exactly if
none of them is of the row and changes the column. -/
theorem newest_below_last_iff {schema : Schema} {deltas : List Entry} {row column : Nat}
    (hkeys : ∀ e ∈ deltas, ∀ f ∈ deltas, e.key = f.key → e = f) :
    newest schema deltas (fun t => t ≠ Txid.last) row column =
        newest schema deltas (fun _ => true) row column ↔
      ∀ e ∈ deltas, e.key.row.toNat = row → e.values schema column ≠ [] →
        e.key.txid ≠ Txid.last := by
  constructor
  · intro hsame e he hrow hvalues hlast
    -- A delta of the last transaction would be the newest, since there is no later one.
    have hcandidate : e ∈ candidates schema deltas (fun _ => true) row column :=
      mem_candidates.2 ⟨he, hrow, rfl, hvalues⟩
    have hnewest : newest schema deltas (fun _ => true) row column = some e := by
      refine (newest_eq_some_iff fun e he f hf => hkeys e (mem_candidates.1 he).1 f
        (mem_candidates.1 hf).1).2 ⟨hcandidate, fun f _ => ?_⟩
      have hf := f.key.txid.toNat_lt
      have hrank : e.rank = 0xffffffffffffffff := congrArg UInt64.toNat hlast
      unfold Entry.rank at hrank ⊢
      omega
    rw [hnewest] at hsame
    have hseen := (mem_candidates.1 (List.argmax_mem hsame)).2.2.1
    rw [decide_eq_true_eq] at hseen
    exact hseen hlast
  · intro hnone
    have hcandidates : candidates schema deltas (fun t => t ≠ Txid.last) row column =
        candidates schema deltas (fun _ => true) row column := by
      refine List.filter_congr fun e he => ?_
      rw [Bool.eq_iff_iff]
      simp only [Bool.and_eq_true, decide_eq_true_eq, Bool.not_eq_true', List.isEmpty_eq_false_iff]
      constructor
      · rintro ⟨⟨hrow, -⟩, hvalues⟩
        exact ⟨⟨hrow, trivial⟩, hvalues⟩
      · rintro ⟨⟨hrow, -⟩, hvalues⟩
        exact ⟨⟨hrow, hnone e he hrow hvalues⟩, hvalues⟩
    unfold newest
    rw [hcandidates]

namespace Scan

variable {schema projection : Schema} {snapshot : Snapshot} {store : Store} {start rows : Nat}
  {s : Scan}

/-- A scan that sees no transaction selects nothing, and writing any column changes nothing. -/
theorem apply_of_includingNone
    (h : HasBatch schema projection .includingNone store start rows s) (column : Nat)
    (target : Target) : (s.apply column target).state = target := by
  obtain ⟨first, -, -, hsnapshot, -, rfl⟩ := h.eq_behind
  have hselection : first.selection schema store rows = [] := by
    unfold selection
    rw [hsnapshot, List.filter_eq_nil_iff.2 fun e _ => ?_]
    · rfl
    · rw [Snapshot.isCommitted_includingNone]
      exact Bool.false_ne_true
  have hphase : (first.behind schema store rows).phase = .prepared rows [] :=
    congrArg (ScanPhase.prepared rows) hselection
  unfold apply
  rw [hphase]
  dsimp only
  split
  · rfl
  · split
    · rfl
    · split
      · rfl
      · rfl

/-- Preparing a batch at the end of any calls on a new scan leaves it with the batch. -/
theorem hasBatch_of_execute {calls : List (Store × Op)}
    (hcalls : ∀ call ∈ calls, call.1.Reachable schema) (hstore : store.Reachable schema)
    (hok : ((execute (fun call => step call.1 call.2) calls
      (Scan.start projection snapshot)).2.prepare store rows).result = .ok ()) :
    HasBatch schema projection snapshot store
      (execute (fun call => step call.1 call.2) calls (Scan.start projection snapshot)).2.position
      rows ((execute (fun call => step call.1 call.2) calls
        (Scan.start projection snapshot)).2.prepare store rows).state := by
  refine ⟨_, [], Run.append_iff.2 ⟨_, .of_execute calls _, Run.cons_iff.2 ⟨?_, .nil _⟩⟩, ?_,
    fun e he => absurd he List.not_mem_nil⟩
  · show Reply.prepared _ (.ok ()) = .prepared _ _
    rw [← hok]
    rfl
  · intro e he
    rcases List.mem_append.1 he with he | he
    · have hmade : (execute (fun call => step call.1 call.2) calls
          (Scan.start projection snapshot)).1.map Event.call = calls := Run.calls_execute calls _
      exact hcalls e.call (hmade ▸ List.mem_map_of_mem he)
    · rw [List.mem_singleton.1 he]
      exact hstore

/-- The one snapshot reads every delta that is not of the last transaction, and the other one reads
none. Take any scan that has prepared a batch. If it is to see all transactions, a column that it
writes leaves in the slot of each row of the batch the last value that the deltas of all transactions
but the last give to the column's source. This is the newest delta of the row that changes the
column exactly if no such delta is of the last transaction. If it is to see none, writing a column
changes nothing. -/
theorem reads_all_or_nothing :
    (HasBatch schema projection .includingAll store start rows s →
      ∀ column target, (s.apply column target).result = .ok () →
        ∃ source, schema.source? projection column = some source ∧ rows ≤ target.block.rows ∧
          (target.block.Overwritten (s.apply column target).state.block fun slot =>
            if slot < rows then
              latest schema store.entries (fun t => t ≠ Txid.last) (start + slot) source
            else none) ∧
          ∀ row, newest schema store.entries (fun t => t ≠ Txid.last) row source =
              newest schema store.entries (fun _ => true) row source ↔
            ∀ e ∈ store.entries, e.key.row.toNat = row → e.values schema source ≠ [] →
              e.key.txid ≠ Txid.last) ∧
    (HasBatch schema projection .includingNone store start rows s →
      ∀ column target, (s.apply column target).state = target) := by
  refine ⟨fun h column target hok => ?_, apply_of_includingNone⟩
  obtain ⟨first, hbound, rfl, hsnapshot, rfl, rfl⟩ := h.eq_behind
  have hstore : store.Reachable schema := by
    obtain ⟨before, since, -, hstores, -⟩ := h
    exact hstores ⟨(store, .prepare rows), _⟩ (List.mem_append_right before List.mem_cons_self)
  obtain ⟨source, hsource, hrows, hover⟩ :=
    (behind_serves hbound hstore.holds rows).apply_overwrites hok
  have hsees : (first.behind schema store rows).snapshot.isCommitted = fun t => t ≠ Txid.last := by
    funext t
    rw [← Snapshot.isCommitted_includingAll, ← hsnapshot]
    rfl
  rw [hsees] at hover
  exact ⟨source, hsource, hrows, hover,
    fun row => newest_below_last_iff (eq_of_sorted hstore.holds.sorted)⟩

/-- The last transaction but one gives a number to row 0, and the last one to row 1. -/
def lastTxidUpdates : List Entry :=
  [⟨⟨0, 0xfffffffffffffffe⟩, [0, 0, 0, 0, 7, 0, 0, 0]⟩, ⟨⟨1, Txid.last⟩, [0, 0, 0, 0, 8, 0, 0, 0]⟩]

/-- The store after these updates. -/
def lastTxidStore : Store := (execute Store.step lastTxidUpdates (.empty .numbers {})).2

/-- A scan of this store is put on row 0. -/
def lastTxidCalls : List (Store × Op) := [(lastTxidStore, .init), (lastTxidStore, .seek 0)]

/-- The scan behind a batch of both rows, as far as a snapshot sees their deltas. -/
def lastTxidScan (snapshot : Snapshot) : Scan :=
  ((execute (fun call => step call.1 call.2) lastTxidCalls
    (Scan.start .numbers snapshot)).2.prepare lastTxidStore 2).state

/-- The store is reached by its updates, and the scan has its batch, whatever it sees. -/
theorem hasBatch_lastTxid {snapshot : Snapshot}
    (h : snapshot ∈ [Snapshot.includingAll, Snapshot.includingNone]) :
    lastTxidStore.Reachable .numbers ∧
      HasBatch .numbers .numbers snapshot lastTxidStore 0 2 (lastTxidScan snapshot) := by
  have hstore : lastTxidStore.Reachable .numbers := ⟨{}, _, .of_execute _ _⟩
  have hcalls : ∀ call ∈ lastTxidCalls, call.1.Reachable .numbers := by
    intro call hcall
    simp only [lastTxidCalls, List.mem_cons, List.not_mem_nil, or_false] at hcall
    rcases hcall with rfl | rfl
    · exact hstore
    · exact hstore
  have hok : ∀ snapshot ∈ [Snapshot.includingAll, Snapshot.includingNone],
      ((execute (fun call => step call.1 call.2) lastTxidCalls
        (Scan.start .numbers snapshot)).2.prepare lastTxidStore 2).result = .ok () ∧
      (execute (fun call => step call.1 call.2) lastTxidCalls
        (Scan.start .numbers snapshot)).2.position = 0 := by decide +kernel
  obtain ⟨hprepared, hposition⟩ := hok snapshot h
  have hbatch := hasBatch_of_execute hcalls hstore hprepared
  rw [hposition] at hbatch
  exact ⟨hstore, hbatch⟩

/-- The row of the last transaction but one is read, the row of the last one keeps what the block
held, and the scan that is to see nothing leaves both rows as they were. -/
theorem reads_all_or_nothing_twoRows :
    ((lastTxidScan .includingAll).apply 0 ⟨.blank .uint32 2, default⟩).state.block.cells =
        [.uint32 7, .uint32 0] ∧
      newest .numbers lastTxidStore.entries (fun _ => true) 0 0 =
        some ⟨⟨0, 0xfffffffffffffffe⟩, [0, 0, 0, 0, 7, 0, 0, 0]⟩ ∧
      ∀ target, ((lastTxidScan .includingNone).apply 0 target).state = target := by
  have hok : ((lastTxidScan .includingAll).apply 0 ⟨.blank .uint32 2, default⟩).result =
      .ok () := by decide +kernel
  obtain ⟨source, hsource, -, hover, hnewest⟩ :=
    reads_all_or_nothing.1 (hasBatch_lastTxid List.mem_cons_self).2 0 _ hok
  obtain rfl : source = 0 := by
    have hzero : Schema.numbers.source? .numbers 0 = some 0 := by decide
    rw [hzero, Option.some_inj] at hsource
    exact hsource.symm
  have hseven : latest .numbers lastTxidStore.entries (fun t => t ≠ Txid.last) (0 + 0) 0 =
      some (.uint32 7) := by decide +kernel
  have hnone : latest .numbers lastTxidStore.entries (fun t => t ≠ Txid.last) (0 + 1) 0 =
      none := by decide +kernel
  refine ⟨List.ext_getElem? fun slot => ?_, ?_, ?_⟩
  · rw [hover.cells_eq]
    match slot with
    | 0 => rw [if_pos (by decide), hseven]; rfl
    | 1 => rw [if_pos (by decide), hnone]; rfl
    | slot + 2 => rfl
  · rw [← (hnewest 0).2]
    · decide +kernel
    · -- The delta of the last transaction is of the other row.
      have hentries : lastTxidStore.entries = lastTxidUpdates := by decide +kernel
      rw [hentries]
      simp [lastTxidUpdates, Txid.last]
  · exact reads_all_or_nothing.2
      (hasBatch_lastTxid (List.mem_cons_of_mem _ List.mem_cons_self)).2 0

/-- The snapshot that is to see all transactions does not see the last one: the number that it has
given to row 1 is the only delta of the row, and is not written to the row's slot. -/
theorem includingAll_skips_last :
    HasBatch .numbers .numbers .includingAll lastTxidStore 0 2 (lastTxidScan .includingAll) ∧
      ((lastTxidScan .includingAll).apply 0 ⟨.blank .uint32 2, default⟩).result = .ok () ∧
      latest .numbers lastTxidStore.entries (fun _ => true) 1 0 = some (.uint32 8) ∧
      ((lastTxidScan .includingAll).apply 0 ⟨.blank .uint32 2, default⟩).state.block.cells[1]? =
        some (.uint32 0) :=
  ⟨(hasBatch_lastTxid List.mem_cons_self).2, by decide +kernel, by decide +kernel,
    by decide +kernel⟩

end Scan

end TabletDelta
