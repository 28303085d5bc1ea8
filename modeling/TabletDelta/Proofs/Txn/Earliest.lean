import Mathlib.Data.List.Infix
import TabletDelta.Proofs.Txn.IdSet
import TabletDelta.Proofs.Txn.Visibility

/-!
# The snapshot that sees less

Which of two snapshots `Snapshot.earliest` answers with depends on their watermarks, and if these
agree on how many commits each of them lists. What the snapshots see is not looked at. For snapshots
of one ledger it need not be: the one taken first comes before the other (`Snapshot.Precedes`), so
it has no higher watermark, with the same watermark it lists no other commits, and it sees no
transaction that the other does not see. The answer is then the one taken first, or else the two
have the same watermark and the same commits, and see the same (`Precedes.isCommitted_earliest`).
-/

namespace TabletDelta

/-- Of two snapshots of a ledger, the first was not taken later than the second: in between,
transactions were begun and resolved, and no resolution was taken back. -/
structure Snapshot.Precedes (a b : Snapshot) : Prop where
  /-- The watermark does not go down. -/
  watermark_le : a.watermark ≤ b.watermark
  /-- What is seen stays so. -/
  isCommitted_of_isCommitted : ∀ t, a.isCommitted t = true → b.isCommitted t = true
  /-- Below the watermark of the first one all was decided when it was taken. -/
  isCommitted_of_lt : ∀ t < a.watermark, b.isCommitted t = true → a.isCommitted t = true
  /-- As long as the watermark stays, no commit is forgotten. -/
  mem_committed : a.watermark = b.watermark → ∀ t ∈ a.committed, t ∈ b.committed

namespace Snapshot.Precedes

variable {a b : Snapshot}

/-- The second snapshot is not the narrower one. -/
theorem not_narrower (h : a.Precedes b) : b.narrower a = false := by
  unfold narrower
  rw [Bool.or_eq_false_iff, decide_eq_false_iff_not, Bool.and_eq_false_iff,
    decide_eq_false_iff_not]
  refine ⟨UInt64.not_lt.2 h.watermark_le, ?_⟩
  by_cases hwatermark : a.watermark = b.watermark
  · right
    -- All commits of the first one are commits of the second one, so there are no fewer of these.
    exact Nat.not_lt.2 (TxidSet.size_le (h.mem_committed hwatermark))
  · left
    exact beq_false_of_ne (Ne.symm hwatermark)

/-- If the first snapshot is not the narrower one either, both see the same. -/
theorem isCommitted_eq (h : a.Precedes b) (hnarrower : a.narrower b = false) (t : Txid) :
    b.isCommitted t = a.isCommitted t := by
  unfold narrower at hnarrower
  rw [Bool.or_eq_false_iff, decide_eq_false_iff_not, Bool.and_eq_false_iff,
    decide_eq_false_iff_not] at hnarrower
  obtain ⟨hnotlt, htie⟩ := hnarrower
  have hwatermark : a.watermark = b.watermark :=
    UInt64.le_antisymm h.watermark_le (UInt64.not_lt.1 hnotlt)
  have hsize : b.committed.size ≤ a.committed.size := by
    rcases htie with hne | hsize
    · rw [hwatermark, beq_self_eq_true] at hne
      cases hne
    · exact Nat.not_lt.1 hsize
  have hcommitted : a.committed = b.committed :=
    TxidSet.eq_of_size_le (h.mem_committed hwatermark) hsize
  by_cases hlt : t < a.watermark
  · rw [Bool.eq_iff_iff]
    exact ⟨h.isCommitted_of_lt t hlt, h.isCommitted_of_isCommitted t⟩
  · unfold isCommitted
    rw [← hwatermark, if_neg hlt, if_neg hlt, hcommitted]

/-- The earliest of the two sees what the first one sees, in whatever order they are given. -/
theorem isCommitted_earliest (h : a.Precedes b) (t : Txid) :
    (earliest a b).isCommitted t = a.isCommitted t ∧
      (earliest b a).isCommitted t = a.isCommitted t := by
  unfold earliest
  rw [h.not_narrower]
  refine ⟨rfl, ?_⟩
  cases hnarrower : a.narrower b with
  | true => rfl
  | false => exact h.isCommitted_eq hnarrower t

/-- The first snapshot sees what both of them see. -/
theorem isCommitted_iff (h : a.Precedes b) (t : Txid) :
    a.isCommitted t = true ↔ a.isCommitted t = true ∧ b.isCommitted t = true :=
  ⟨fun ha => ⟨ha, h.isCommitted_of_isCommitted t ha⟩, And.left⟩

end Snapshot.Precedes

namespace Ledger

/-- No transaction has number 0, and every snapshot of a ledger sees it. -/
theorem Records.isCommitted_zero {l : Ledger} {events : History} (h : Records l events) :
    l.snapshot.isCommitted 0 = true := by
  have hlt : 0 < l.watermark := UInt64.lt_of_lt_of_le (by decide) h.exact.one_le_watermark
  have haborted : 0 ∉ l.aborted := by
    rw [h.mem_aborted]
    intro hmem
    have hone := ((h.mem_begun 0).1 (h.begun_of_aborts 0 hmem)).1
    exact absurd hone (by decide)
  unfold Snapshot.isCommitted snapshot
  rw [if_pos hlt, Bool.not_eq_true', ← Bool.not_eq_true, TxidSet.contains_iff_mem]
  exact haborted

/-- A snapshot of a ledger precedes one that is taken after more calls. -/
theorem Records.precedes {l after : Ledger} {before since : History} (h : Records l before)
    (hafter : Records after (before ++ since)) : l.snapshot.Precedes after.snapshot := by
  have hcommits : ∀ t ∈ commits before, t ∈ commits (before ++ since) := fun t ht => by
    rw [commits_append]
    exact List.mem_append_left _ ht
  have haborts : ∀ t ∈ aborts before, t ∈ aborts (before ++ since) := fun t ht => by
    rw [aborts_append]
    exact List.mem_append_left _ ht
  -- The number 0 apart, what a snapshot sees are the commits before it.
  have hcases : ∀ t : Txid, t = 0 ∨ 1 ≤ t := fun t => by
    rw [UInt64.le_iff_toNat_le, ← UInt64.toNat_inj]
    have hone : UInt64.toNat 1 = 1 := rfl
    have hzero : UInt64.toNat 0 = 0 := rfl
    omega
  constructor
  case watermark_le =>
    obtain ⟨hnc, hna⟩ := hafter.watermark_unresolved
    exact h.exact.watermark_le _ hafter.exact.one_le_watermark (mt (hcommits _) hnc)
      (mt (haborts _) hna)
  case isCommitted_of_isCommitted =>
    intro t hsees
    rcases hcases t with rfl | ht
    · exact hafter.isCommitted_zero
    · rw [h.exact.isCommitted_iff t ht] at hsees
      exact (hafter.exact.isCommitted_iff t ht).2 (hcommits t hsees)
  case isCommitted_of_lt =>
    intro t hlt hsees
    rcases hcases t with rfl | ht
    · exact h.isCommitted_zero
    · rw [hafter.exact.isCommitted_iff t ht] at hsees
      -- It had been resolved by then, and not by an abort, since it has committed.
      have hcommitted := (h.resolved_of_lt ht hlt).resolve_right fun haborted =>
        hafter.not_both t hsees (haborts t haborted)
      exact (h.exact.isCommitted_iff t ht).2 hcommitted
  case mem_committed =>
    intro hwatermark t ht
    change l.watermark = after.watermark at hwatermark
    obtain ⟨hc, hle⟩ := (h.mem_committed t).1 ht
    exact (hafter.mem_committed t).2 ⟨hcommits t hc, hwatermark ▸ hle⟩

/-- A snapshot taken in a run is that of a ledger with the calls before it on record. -/
theorem records_of_taken {before after : History} {s : Snapshot} {l : Ledger}
    (hrun : Run step .empty (before ++ ⟨.snapshot, .taken s⟩ :: after) l)
    (hroom : (begun (before ++ ⟨.snapshot, .taken s⟩ :: after)).length < UInt64.size - 1) :
    ∃ m, Records m before ∧ s = m.snapshot := by
  obtain ⟨m, hbefore, hanswer, -⟩ := hrun.split
  rw [begun_append, List.length_append] at hroom
  exact ⟨m, records_of_run hbefore (by omega), Reply.taken.inj hanswer⟩

/-- Of any two snapshots taken in a run, one precedes the other. -/
theorem precedes_total {events : History} {l : Ledger} (hrun : Run step .empty events l)
    (hroom : (begun events).length < UInt64.size - 1) {a b : Snapshot}
    (ha : ⟨.snapshot, .taken a⟩ ∈ events) (hb : ⟨.snapshot, .taken b⟩ ∈ events) :
    a.Precedes b ∨ b.Precedes a := by
  obtain ⟨before, after, hevents⟩ := List.append_of_mem ha
  obtain ⟨before', after', hevents'⟩ := List.append_of_mem hb
  obtain ⟨m, hm, rfl⟩ := records_of_taken (hevents ▸ hrun) (hevents ▸ hroom)
  obtain ⟨m', hm', rfl⟩ := records_of_taken (hevents' ▸ hrun) (hevents' ▸ hroom)
  -- The calls before one of the two are among the calls before the other.
  have hprefix : before <+: events := ⟨_, hevents.symm⟩
  have hprefix' : before' <+: events := ⟨_, hevents'.symm⟩
  rcases List.prefix_or_prefix_of_prefix hprefix hprefix' with ⟨since, rfl⟩ | ⟨since, rfl⟩
  · exact .inl (hm.precedes hm')
  · exact .inr (hm'.precedes hm)

/-- The earliest of two snapshots sees less. Take any run of a ledger in which the numbers do not
run out, and any two snapshots taken in it, at whatever points. A transaction is seen by the
earliest of them exactly if both of them see it, whichever of the two is given first. -/
theorem earliest_sees_less {events : History} {l : Ledger} (hrun : Run step .empty events l)
    (hroom : (begun events).length < UInt64.size - 1) {a b : Snapshot}
    (ha : ⟨.snapshot, .taken a⟩ ∈ events) (hb : ⟨.snapshot, .taken b⟩ ∈ events) (t : Txid) :
    ((Snapshot.earliest a b).isCommitted t = true ↔
        a.isCommitted t = true ∧ b.isCommitted t = true) ∧
      (Snapshot.earliest a b).isCommitted t = (Snapshot.earliest b a).isCommitted t := by
  rcases precedes_total hrun hroom ha hb with h | h
  · obtain ⟨hab, hba⟩ := h.isCommitted_earliest t
    refine ⟨?_, hab.trans hba.symm⟩
    rw [hab]
    exact h.isCommitted_iff t
  · obtain ⟨hba, hab⟩ := h.isCommitted_earliest t
    refine ⟨?_, hab.trans hba.symm⟩
    rw [hab, and_comm]
    exact h.isCommitted_iff t

/-- Transactions 2 and 3 commit while 1 is in flight, with a snapshot after each of the two commits;
4 is aborted before a third snapshot, and 1 commits before a fourth. -/
def stepByStep : List Op :=
  [.begin, .begin, .begin, .commit 2, .snapshot, .commit 3, .snapshot, .openGuard,
    .dropGuard ⟨4⟩, .snapshot, .commit 1, .snapshot]

/-- The snapshots taken. -/
def stepByStepSnapshots : List Snapshot :=
  [⟨1, .ofList [2], .empty⟩, ⟨1, .ofList [2, 3], .empty⟩, ⟨1, .ofList [2, 3], .ofList [4]⟩,
    ⟨5, .empty, .ofList [4]⟩]

/-- The first two snapshots have the same watermark, and the earlier one, with fewer commits, does
not see 3. The third one cannot be told from the second one by watermark and number of commits, and
sees the same. The fourth one has a higher watermark, and sees more. -/
theorem earliest_sees_less_stepByStep :
    (begun (execute step stepByStep .empty).1).length < UInt64.size - 1 ∧
      (∀ s ∈ stepByStepSnapshots,
        ⟨.snapshot, .taken s⟩ ∈ (execute step stepByStep .empty).1) ∧
      (Snapshot.earliest ⟨1, .ofList [2, 3], .empty⟩ ⟨1, .ofList [2], .empty⟩).isCommitted 3 =
        false ∧
      (Snapshot.earliest ⟨1, .ofList [2, 3], .ofList [4]⟩
        ⟨1, .ofList [2, 3], .empty⟩).isCommitted 3 = true ∧
      (Snapshot.earliest ⟨5, .empty, .ofList [4]⟩ ⟨1, .ofList [2, 3], .empty⟩).isCommitted 1 =
        false := by
  have hrun : Run step .empty (execute step stepByStep .empty).1 _ :=
    .of_execute stepByStep Ledger.empty
  have hroom : (begun (execute step stepByStep .empty).1).length < UInt64.size - 1 := by decide
  have htaken : ∀ s ∈ stepByStepSnapshots,
      ⟨.snapshot, .taken s⟩ ∈ (execute step stepByStep .empty).1 := by decide
  have hsees {a b : Snapshot} (ha : a ∈ stepByStepSnapshots) (hb : b ∈ stepByStepSnapshots)
      (t : Txid) := (earliest_sees_less hrun hroom (htaken a ha) (htaken b hb) t).1
  refine ⟨hroom, htaken, ?_, ?_, ?_⟩
  · rw [← Bool.not_eq_true, hsees (by decide) (by decide)]
    decide
  · rw [hsees (by decide) (by decide)]
    decide
  · rw [← Bool.not_eq_true, hsees (by decide) (by decide)]
    decide

end Ledger

end TabletDelta
