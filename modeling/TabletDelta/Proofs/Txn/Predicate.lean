import TabletDelta.Proofs.Wire.Snapshot

/-!
# The predicate of a snapshot

A snapshot stands for a set of transactions: those below its watermark that it does not list as
aborted, and those that it lists as committed (`Snapshot.Sees`). When it is asked about a
transaction, it looks at one of its lists only, and which one depends on the watermark. The two
agree except on transactions below the watermark that are listed both as committed and as aborted
(`Snapshot.Disputed`). A ledger keeps no commit below its watermark, so it has no such transaction.
Decoding does not look for them, so a snapshot that has been decoded can have some.
-/

namespace TabletDelta

namespace Snapshot

/-- The transactions that a snapshot stands for. -/
def Sees (s : Snapshot) (t : Txid) : Prop := t < s.watermark ∧ t ∉ s.aborted ∨ t ∈ s.committed

instance (s : Snapshot) (t : Txid) : Decidable (s.Sees t) := inferInstanceAs (Decidable (_ ∨ _))

/-- The transaction is below the watermark and listed both as aborted and as committed. -/
def Disputed (s : Snapshot) (t : Txid) : Prop :=
  t < s.watermark ∧ t ∈ s.aborted ∧ t ∈ s.committed

/-- A snapshot answers for what it stands for, except about disputed transactions. -/
theorem isCommitted_iff_sees_iff (s : Snapshot) (t : Txid) :
    (s.isCommitted t = true ↔ s.Sees t) ↔ ¬ s.Disputed t := by
  unfold isCommitted Sees Disputed
  split
  · next hlt =>
    rw [Bool.not_eq_true', ← Bool.not_eq_true, TxidSet.contains_iff_mem]
    tauto
  · next hge =>
    rw [TxidSet.contains_iff_mem]
    tauto

end Snapshot

namespace Ledger

/-- No call leaves a commit below the watermark. -/
theorem Effect.watermark_le_of_committed {l after : Ledger} {begun committed aborted : Option Txid}
    (h : Effect l begun committed aborted after) (hkept : ∀ t ∈ l.committed, l.watermark ≤ t) :
    ∀ t ∈ after.committed, after.watermark ≤ t := by
  cases h with
  | begin => exact fun t ht => UInt64.le_trans l.watermark_begin_le (hkept t ht)
  | commit hmem | abort hmem =>
    -- Whatever is resolved, the commits below the new watermark are forgotten.
    exact fun t ht => (TxidSet.mem_atLeast.1 ht).2
  | nothing => exact hkept

/-- The ledger keeps no commit below its watermark, however many transactions have been begun. -/
theorem watermark_le_of_committed {events : History} {l : Ledger}
    (hrun : Run step .empty events l) : ∀ t ∈ l.committed, l.watermark ≤ t :=
  hrun.preserves (fun l => ∀ t ∈ l.committed, l.watermark ≤ t)
    (fun l op hkept => (step_effect op l).watermark_le_of_committed hkept)
    fun t ht => absurd ht (TxidSet.not_mem_empty t)

end Ledger

namespace Snapshot

/-- A snapshot answers for just what it stands for, except about disputed transactions. Snapshots
taken of a ledger, and the two that see everything and nothing, have none of these. -/
theorem isCommitted_iff_sees (s : Snapshot) (t : Txid) :
    ((s.isCommitted t = true ↔ s.Sees t) ↔ ¬ s.Disputed t) ∧
      (∀ events l, Run Ledger.step .empty events l → s = l.snapshot →
        (s.isCommitted t = true ↔ s.Sees t)) ∧
      (s = includingAll ∨ s = includingNone → (s.isCommitted t = true ↔ s.Sees t)) := by
  refine ⟨s.isCommitted_iff_sees_iff t, ?_, ?_⟩
  · rintro events l hrun rfl
    rw [isCommitted_iff_sees_iff]
    rintro ⟨hlt, -, hcommitted⟩
    have hle := Ledger.watermark_le_of_committed hrun t hcommitted
    exact UInt64.lt_irrefl t (UInt64.lt_of_lt_of_le hlt hle)
  · intro hs
    rw [isCommitted_iff_sees_iff]
    rintro ⟨-, -, hcommitted⟩
    -- Neither of the two lists any commit.
    rcases hs with rfl | rfl <;> exact TxidSet.not_mem_empty t hcommitted

/-- After transactions have been resolved out of order, the ledger's snapshot answers for what it
stands for, and so does one that lists a commit below its watermark. -/
theorem isCommitted_iff_sees_outOfOrder :
    (∀ t, (execute Ledger.step Ledger.outOfOrder .empty).2.snapshot.isCommitted t = true ↔
      (execute Ledger.step Ledger.outOfOrder .empty).2.snapshot.Sees t) ∧
      ((⟨5, .ofList [3, 7], .ofList [2, 4]⟩ : Snapshot).isCommitted 3 = true ↔
        (⟨5, .ofList [3, 7], .ofList [2, 4]⟩ : Snapshot).Sees 3) := by
  constructor
  · intro t
    exact (isCommitted_iff_sees _ t).2.1 _ _ (.of_execute Ledger.outOfOrder Ledger.empty) rfl
  · refine (isCommitted_iff_sees _ 3).1.2 ?_
    rintro ⟨-, haborted, -⟩
    exact absurd haborted (by decide)

/-- Fields that list a transaction below the watermark both ways. -/
def disputedFields : SnapshotFields := ⟨5, [3], [3]⟩

/-- A snapshot with a disputed transaction can be decoded. The transaction is listed as committed,
but the snapshot denies it. -/
theorem isCommitted_disputed :
    Wire.decode Snapshot disputedFields.wire = .ok ⟨5, .ofList [3], .ofList [3]⟩ ∧
      ¬ ((⟨5, .ofList [3], .ofList [3]⟩ : Snapshot).isCommitted 3 = true ↔
        (⟨5, .ofList [3], .ofList [3]⟩ : Snapshot).Sees 3) := by
  decide

end Snapshot

end TabletDelta
