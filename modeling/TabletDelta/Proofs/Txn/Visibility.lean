import TabletDelta.Proofs.Txn.History

/-!
# What snapshots see

A snapshot takes three things from the ledger, its watermark, the commits it has kept and the
aborts, and from them decides about every transaction, also those whose commits the ledger has
forgotten. `visible_iff_committed` shows that the decision is exact in every run: what a snapshot
sees is what had committed when it was taken. The invariant is `Ledger.Records`; what it says of a
snapshot is `Records.exact`, and the rest follows from how histories grow.
-/

namespace TabletDelta

/-- A snapshot is exact for a history when it sees the transactions committed there and no others,
and its watermark is the least transaction not resolved there. -/
structure Snapshot.Exact (s : Snapshot) (events : Ledger.History) : Prop where
  /-- The snapshot sees what has committed. -/
  isCommitted_iff : ∀ t, 1 ≤ t → (s.isCommitted t = true ↔ t ∈ Ledger.commits events)
  /-- The watermark is the number of a transaction. -/
  one_le_watermark : 1 ≤ s.watermark
  /-- The transaction of the watermark has not been committed. -/
  watermark_not_committed : s.watermark ∉ Ledger.commits events
  /-- The transaction of the watermark has not been aborted. -/
  watermark_not_aborted : s.watermark ∉ Ledger.aborts events
  /-- Every other transaction not resolved is above the watermark. -/
  watermark_le : ∀ t, 1 ≤ t → t ∉ Ledger.commits events → t ∉ Ledger.aborts events → s.watermark ≤ t

namespace Ledger

/-- The watermark has not been resolved. -/
theorem Records.watermark_unresolved {l : Ledger} {events : History} (h : Records l events) :
    l.watermark ∉ commits events ∧ l.watermark ∉ aborts events := by
  rcases watermark_cases l with hw | ⟨hw, -⟩
  · exact ((h.mem_inFlight _).1 hw).2
  · -- The next transaction has not been begun, let alone resolved.
    have hnext : l.next ∉ begun events := fun hmem =>
      UInt64.lt_irrefl _ ((h.mem_begun _).1 hmem).2
    rw [hw]
    exact ⟨fun hc => hnext (h.begun_of_commits _ hc), fun ha => hnext (h.begun_of_aborts _ ha)⟩

/-- Below the watermark, every transaction has been resolved. -/
theorem Records.resolved_of_lt {l : Ledger} {events : History} (h : Records l events) {t : Txid}
    (ht : 1 ≤ t) (hlt : t < l.watermark) : t ∈ commits events ∨ t ∈ aborts events := by
  have hbegun : t ∈ begun events :=
    (h.mem_begun t).2 ⟨ht, UInt64.lt_of_lt_of_le hlt h.watermark_le_next⟩
  have hflight : t ∉ l.inFlight := fun hmem =>
    UInt64.lt_irrefl _ (UInt64.lt_of_le_of_lt (watermark_le hmem) hlt)
  rw [h.mem_inFlight] at hflight
  tauto

/-- The ledger's snapshot is exact for what has happened to the ledger. -/
theorem Records.exact {l : Ledger} {events : History} (h : Records l events) :
    l.snapshot.Exact events where
  isCommitted_iff t ht := by
    unfold Snapshot.isCommitted snapshot
    dsimp only
    split
    · -- Below the watermark all are resolved, so those not aborted have committed.
      next hlt =>
      rw [Bool.not_eq_true', ← Bool.not_eq_true, TxidSet.contains_iff_mem, h.mem_aborted]
      have hresolved := h.resolved_of_lt ht hlt
      have hnot := h.not_both t
      tauto
    · next hge =>
      rw [TxidSet.contains_iff_mem, h.mem_committed]
      exact and_iff_left (UInt64.not_lt.1 hge)
  one_le_watermark := by
    rcases watermark_cases l with hw | ⟨hw, -⟩
    · exact ((h.mem_begun _).1 ((h.mem_inFlight _).1 hw).1).1
    · show 1 ≤ l.watermark
      rw [hw, UInt64.le_iff_toNat_le, h.next_eq]
      exact Nat.le_add_left 1 _
  watermark_not_committed := h.watermark_unresolved.1
  watermark_not_aborted := h.watermark_unresolved.2
  watermark_le t ht hc ha := by
    rcases UInt64.lt_or_le t l.watermark with hlt | hle
    · rcases h.resolved_of_lt ht hlt with hmem | hmem
      · exact absurd hmem hc
      · exact absurd hmem ha
    · exact hle

/-- A snapshot taken in a run is exact for the events before it. -/
theorem exact_of_run {before after : History} {op : Op} {s : Snapshot} {l : Ledger}
    (hrun : Run step .empty (before ++ ⟨op, .taken s⟩ :: after) l)
    (hroom : (begun (before ++ ⟨op, .taken s⟩ :: after)).length < UInt64.size - 1) :
    s.Exact before := by
  obtain ⟨m, hbefore, hanswer, -⟩ := hrun.split
  rw [begun_append, List.length_append] at hroom
  have hm := records_of_run hbefore (by omega)
  -- Only one call answers with a snapshot, and it answers with the ledger's.
  have hs : s = m.snapshot := by
    cases op with
    | snapshot => exact Reply.taken.inj hanswer
    | begin | openGuard | dropGuard | commit | commitGuard | abort | abortGuard => cases hanswer
  rw [hs]
  exact hm.exact

/-- Visibility is exact in every run, whether transactions are begun and resolved directly or
through guards. Each snapshot sees the transactions committed before it was taken, its watermark is
the least one not resolved then, it sees nothing that aborts or begins at any time after, and what
it sees later snapshots see too. The ledger itself agrees with its snapshot and says what has
committed. -/
theorem visible_iff_committed {events : History} {l : Ledger} (hrun : Run step .empty events l)
    (hroom : (begun events).length < UInt64.size - 1) :
    (∀ before s after, events = before ++ ⟨.snapshot, .taken s⟩ :: after →
      s.Exact before ∧
        (∀ t ∈ aborts events, s.isCommitted t = false) ∧
        (∀ t ∈ begun after, s.isCommitted t = false) ∧
        ∀ between s' rest, after = between ++ ⟨.snapshot, .taken s'⟩ :: rest →
          ∀ t, 1 ≤ t → s.isCommitted t = true → s'.isCommitted t = true) ∧
      ∀ t, 1 ≤ t →
        (l.isCommitted t = true ↔ t ∈ commits events) ∧
          l.isCommitted t = l.snapshot.isCommitted t := by
  have hrecords := records_of_run hrun hroom
  refine ⟨?_, fun t ht => ⟨hrecords.exact.isCommitted_iff t ht, rfl⟩⟩
  rintro before s after rfl
  have hexact := exact_of_run hrun hroom
  refine ⟨hexact, ?_, ?_, ?_⟩
  · -- A transaction aborted at any time is never committed, so it had not been before.
    intro t ht
    have hone : 1 ≤ t := ((hrecords.mem_begun t).1 (hrecords.begun_of_aborts t ht)).1
    rw [← Bool.not_eq_true, hexact.isCommitted_iff t hone]
    intro hc
    refine hrecords.not_both t ?_ ht
    rw [commits_append]
    exact List.mem_append_left _ hc
  · -- A transaction begun after the snapshot was not begun before, so it had not committed.
    intro t ht
    have hmem : t ∈ begun (before ++ ⟨.snapshot, .taken s⟩ :: after) := by
      rw [begun_append]
      exact List.mem_append_right _ (List.mem_filterMap.2
        ((List.mem_filterMap.1 ht).imp fun e he => ⟨List.mem_cons_of_mem _ he.1, he.2⟩))
    have hone : 1 ≤ t := ((hrecords.mem_begun t).1 hmem).1
    rw [← Bool.not_eq_true, hexact.isCommitted_iff t hone]
    intro hc
    obtain ⟨m, hbefore, -, -⟩ := hrun.split
    have hroom' := hroom
    rw [begun_append, List.length_append] at hroom'
    have hbegun := (records_of_run hbefore (by omega)).begun_of_commits t hc
    have hincreasing := hrecords.begun_increasing
    rw [begun_append, List.pairwise_append] at hincreasing
    exact UInt64.lt_irrefl t (hincreasing.2.2 t hbegun t ht)
  · -- The later snapshot is exact for a longer history.
    rintro between s' rest rfl t ht hsees
    rw [hexact.isCommitted_iff t ht] at hsees
    rw [List.append_cons, ← List.append_assoc, ← List.append_cons] at hrun hroom
    have hlater := exact_of_run hrun hroom
    rw [hlater.isCommitted_iff t ht, commits_append]
    exact List.mem_append_left _ hsees

/-- Transactions 2, 3 and 1 are committed, dropped and committed in that order, with a snapshot
after the first commit; then 1 is forgotten and 3, which was aborted, cannot be committed. -/
def outOfOrder : List Op :=
  [.begin, .openGuard, .openGuard, .commitGuard ⟨2⟩, .snapshot, .dropGuard ⟨3⟩, .commit 1,
    .commit 3]

/-- Visibility is exact in a run that resolves transactions out of order. The snapshot sees 2 above
its watermark 1, and in the end 1 and 2 are seen below the watermark although both have been
forgotten. -/
theorem visible_iff_committed_outOfOrder :
    (begun (execute step outOfOrder .empty).1).length < UInt64.size - 1 ∧
      Snapshot.Exact ⟨1, .ofList [2], .empty⟩ ((execute step outOfOrder .empty).1.take 4) ∧
      (execute step outOfOrder .empty).2.isCommitted 1 = true ∧
      (execute step outOfOrder .empty).2.isCommitted 3 = false := by
  have hroom : (begun (execute step outOfOrder .empty).1).length < UInt64.size - 1 := by decide
  obtain ⟨hsnapshots, hledger⟩ := visible_iff_committed (.of_execute outOfOrder Ledger.empty) hroom
  refine ⟨hroom, ?_, ?_, ?_⟩
  · exact (hsnapshots _ _ ((execute step outOfOrder .empty).1.drop 5) rfl).1
  · exact (hledger 1 (by decide)).1.2 (by decide)
  · rw [← Bool.not_eq_true, (hledger 3 (by decide)).1]
    decide

end Ledger

end TabletDelta
