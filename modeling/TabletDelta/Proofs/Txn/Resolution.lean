import Mathlib.Data.List.Perm.Basic
import TabletDelta.Proofs.Txn.IdSet
import TabletDelta.Proofs.Txn.Visibility

/-!
# Who resolves a transaction

A transaction can be resolved by its number and through its guard, by anyone and at any time, also
before it is begun. Of all these attempts the first one after its begin counts, and no other does
anything. What makes an attempt the first is a matter of the calls alone (`Open`), and it is the
same as being in flight (`mem_inFlight_iff`), so the ledger needs no memory of attempts. From there
the answer to each attempt, its effect and the number of transactions in flight can be read off the
calls (`resolved_once`).
-/

namespace TabletDelta.Ledger

/-- What can become of a transaction. -/
inductive Fate where
  | committed
  | aborted
deriving DecidableEq

namespace Op

/-- What a call tries to make of which transaction. -/
def attempt : Op → Option (Txid × Fate)
  | .commit t => some (t, .committed)
  | .commitGuard g => some (g.txid, .committed)
  | .abort t => some (t, .aborted)
  | .abortGuard g | .dropGuard g => some (g.txid, .aborted)
  | .begin | .openGuard | .snapshot => none

/-- The answer to an attempt that takes effect. -/
def granted : Op → Reply
  | .dropGuard _ => .dropped true
  | _ => .settled (.ok ())

/-- The answer to an attempt on a transaction that is not in flight. Letting go of a guard has no
result to report this with. -/
def refused (t : Txid) : Op → Reply
  | .dropGuard _ => .dropped false
  | _ => .settled (.error (.notInFlight t))

end Op

/-- A transaction is open for an attempt if it was begun and no call since has been an attempt to
resolve it. -/
def Open (t : Txid) (events : History) : Prop :=
  ∃ before e since, events = before ++ e :: since ∧ begunBy e = some t ∧
    ∀ e' ∈ since, e'.call.attempt.map Prod.fst ≠ some t

/-- The transaction that a call resolved, in either way. -/
def resolvedBy (e : Event Op Reply) : Option Txid := (committedBy e).or (abortedBy e)

/-- The transactions resolved, one for each attempt that took effect. -/
def resolved (events : History) : List Txid := events.filterMap resolvedBy

/-- What has become of a transaction, by the calls and in the eyes of the ledger. -/
def Settled (t : Txid) (events : History) (l : Ledger) : Fate → Prop
  | .committed => t ∈ commits events ∧ t ∉ aborts events ∧ l.isCommitted t = true
  | .aborted => t ∈ aborts events ∧ t ∉ commits events ∧ t ∈ l.aborted ∧ l.isCommitted t = false

/-- The ledger after a transaction in flight has met its fate. -/
def conclude (l : Ledger) (t : Txid) : Fate → Ledger
  | .committed => l.resolve t (l.committed.insert t) l.aborted
  | .aborted => l.resolve t l.committed (l.aborted.insert t)

/-! ## One attempt -/

/-- An attempt takes effect on a transaction in flight, and on any other it changes nothing. -/
theorem step_attempt {op : Op} {t : Txid} {fate : Fate} (h : op.attempt = some (t, fate))
    (l : Ledger) :
    step op l = if t ∈ l.inFlight then (op.granted, l.conclude t fate) else (op.refused t, l) := by
  cases op with
  | begin | openGuard | snapshot => cases h
  | commit u | commitGuard u =>
    cases h
    simp only [step, guard_commit, commit_eq]
    split <;> rfl
  | abort u | abortGuard u =>
    cases h
    simp only [step, guard_abort, abort_eq]
    split <;> rfl
  | dropGuard g =>
    cases h
    simp only [step, guard_drop, abort_eq]
    split <;> rfl

/-- A transaction is in flight after a call if the call has begun it, or if it was before and the
call was no attempt to resolve it. -/
theorem mem_inFlight_step {op : Op} {l : Ledger} {t : Txid} :
    t ∈ (step op l).2.inFlight ↔ begunBy (eventOf step op l) = some t ∨
      t ∈ l.inFlight ∧ op.attempt.map Prod.fst ≠ some t := by
  cases hop : op.attempt with
  | none =>
    cases op with
    | begin | openGuard =>
      show t ∈ l.inFlight.insert l.next ↔ some l.next = some t ∨ _
      rw [TxidSet.mem_insert, Option.some_inj, eq_comm]
      simp
    | snapshot =>
      show t ∈ l.inFlight ↔ none = some t ∨ _
      simp
    | commit | commitGuard | abort | abortGuard | dropGuard => cases hop
  | some pair =>
    obtain ⟨u, fate⟩ := pair
    have hbegun : begunBy (eventOf step op l) = none := by
      unfold eventOf
      rw [step_attempt hop]
      cases op <;> split <;> rfl
    rw [hbegun, step_attempt hop, Option.map_some, ne_eq, Option.some_inj]
    by_cases hu : u ∈ l.inFlight
    · rw [if_pos hu]
      have hmem : t ∈ (l.conclude u fate).inFlight ↔ t ∈ l.inFlight ∧ t ≠ u := by
        cases fate <;> exact TxidSet.mem_erase
      rw [hmem, ne_comm]
      simp
    · -- The transaction of the attempt was not in flight, so no other one is meant.
      rw [if_neg hu]
      have hne : t ∈ l.inFlight → ¬ u = t := fun ht heq => hu (heq ▸ ht)
      simpa using hne

/-- What an attempt has resolved. -/
theorem resolvedBy_attempt {op : Op} {t : Txid} {fate : Fate} (h : op.attempt = some (t, fate))
    (l : Ledger) : resolvedBy (eventOf step op l) = if t ∈ l.inFlight then some t else none := by
  unfold eventOf
  rw [step_attempt h]
  cases op with
  | begin | openGuard | snapshot => cases h
  | commit | commitGuard | abort | abortGuard | dropGuard =>
    cases h
    split <;> rfl

/-- A call that is no attempt resolves nothing. -/
theorem resolvedBy_none {op : Op} (h : op.attempt = none) (l : Ledger) :
    resolvedBy (eventOf step op l) = none := by
  cases op with
  | begin | openGuard | snapshot => rfl
  | commit | commitGuard | abort | abortGuard | dropGuard => cases h

/-! ## Runs -/

/-- A transaction is open after one more call if the call has begun it, or if it was open before and
the call was no attempt to resolve it. -/
theorem open_snoc {t : Txid} {past : History} {e : Event Op Reply} :
    Open t (past ++ [e]) ↔ begunBy e = some t ∨
      Open t past ∧ e.call.attempt.map Prod.fst ≠ some t := by
  constructor
  · rintro ⟨before, b, since, hevents, hbegun, hsince⟩
    rcases List.eq_nil_or_concat since with rfl | ⟨earlier, last, rfl⟩
    · obtain ⟨-, rfl⟩ := List.append_inj_right' hevents rfl
      exact .inl hbegun
    · rw [List.concat_eq_append, ← List.cons_append, ← List.append_assoc] at hevents
      obtain ⟨rfl, hlast⟩ := List.append_inj' hevents rfl
      obtain rfl := List.singleton_inj.1 hlast
      exact .inr ⟨⟨before, b, earlier, rfl, hbegun, fun e' he' => hsince e' (by simp [he'])⟩,
        hsince e (by simp)⟩
  · rintro (hbegun | ⟨⟨before, b, since, rfl, hbegun, hsince⟩, hlast⟩)
    · exact ⟨past, e, [], rfl, hbegun, fun e' he' => absurd he' List.not_mem_nil⟩
    · refine ⟨before, b, since ++ [e], by simp, hbegun, fun e' he' => ?_⟩
      rcases List.mem_append.1 he' with he' | he'
      · exact hsince e' he'
      · rw [List.mem_singleton.1 he']
        exact hlast

/-- In every run, the transactions in flight are those open for an attempt. -/
theorem mem_inFlight_iff {events : History} {l : Ledger} (hrun : Run step .empty events l)
    (t : Txid) : t ∈ l.inFlight ↔ Open t events := by
  refine hrun.invariant (fun past l => t ∈ l.inFlight ↔ Open t past) ?_ ?_
  · intro past l op h
    rw [mem_inFlight_step, open_snoc, h]
    rfl
  · have hnone : ¬ Open t [] := by
      rintro ⟨before, e, since, hevents, -, -⟩
      simp at hevents
    simp [Ledger.empty, hnone]

/-- The transactions resolved are those committed and those aborted. -/
theorem mem_resolved {events : History} {t : Txid} :
    t ∈ resolved events ↔ t ∈ commits events ∨ t ∈ aborts events := by
  have hone : ∀ e, resolvedBy e = some t ↔ committedBy e = some t ∨ abortedBy e = some t := by
    intro e
    unfold resolvedBy
    cases hc : committedBy e with
    | none => simp
    | some u =>
      -- A call that commits a transaction aborts none.
      have ha : abortedBy e = none := by
        unfold committedBy at hc
        split at hc
        · rfl
        · rfl
        · cases hc
      simp [ha]
  unfold resolved commits aborts
  simp only [List.mem_filterMap, hone, and_or_left, exists_or]

/-- No transaction is resolved twice. -/
theorem nodup_resolved {events : History} {l : Ledger} (hrun : Run step .empty events l)
    (hroom : (begun events).length < UInt64.size - 1) : (resolved events).Nodup := by
  refine (hrun.invariant (fun past l => (begun past).length < UInt64.size - 1 →
    Records l past ∧ (resolved past).Nodup) ?_ (fun _ => ⟨Records.empty, .nil⟩) hroom).2
  intro past l op h hroom
  have hle : (begun past).length ≤ (begun (past ++ [eventOf step op l])).length := by
    rw [begun_append, List.length_append]
    omega
  obtain ⟨hrecords, hnodup⟩ := h (by omega)
  refine ⟨hrecords.snoc hroom, ?_⟩
  -- What a call resolves was in flight, so it had not been resolved before.
  have hnew : ∀ t, resolvedBy (eventOf step op l) = some t → t ∉ resolved past := by
    intro t ht
    cases hop : op.attempt with
    | none =>
      rw [resolvedBy_none hop] at ht
      cases ht
    | some pair =>
      obtain ⟨u, fate⟩ := pair
      rw [resolvedBy_attempt hop] at ht
      split at ht
      · next hu =>
        cases ht
        rw [mem_resolved, not_or]
        exact ((hrecords.mem_inFlight t).1 hu).2
      · cases ht
  unfold resolved at hnew hnodup ⊢
  rw [List.filterMap_append]
  cases hr : resolvedBy (eventOf step op l) with
  | none => simpa [hr] using hnodup
  | some t =>
    have hfresh := hnew t hr
    simp only [List.filterMap_cons, hr, List.filterMap_nil]
    refine List.nodup_append.2 ⟨hnodup, by simp, ?_⟩
    intro u hu v hv
    rw [List.mem_singleton.1 hv]
    rintro rfl
    exact hfresh hu

/-- Every transaction begun is either in flight or resolved, and no other one is. -/
theorem inFlight_perm {events : History} {l : Ledger} (hrun : Run step .empty events l)
    (hroom : (begun events).length < UInt64.size - 1) :
    (l.inFlight.ids ++ resolved events).Perm (begun events) := by
  have hrecords := records_of_run hrun hroom
  refine (List.perm_ext_iff_of_nodup ?_ (nodup_of_increasing hrecords.begun_increasing)).2
    fun t => ?_
  · refine List.nodup_append.2 ⟨nodup_of_increasing l.inFlight.sorted,
      nodup_resolved hrun hroom, ?_⟩
    rintro t ht u hu rfl
    obtain ⟨-, hnc, hna⟩ := (hrecords.mem_inFlight t).1 ht
    rcases mem_resolved.1 hu with hc | ha
    · exact hnc hc
    · exact hna ha
  · rw [List.mem_append, ← TxidSet.mem_def, hrecords.mem_inFlight, mem_resolved]
    have hc := hrecords.begun_of_commits t
    have ha := hrecords.begun_of_aborts t
    tauto

/-- Once resolved, a transaction stays as it was resolved. -/
theorem settled_of_mem {events : History} {l : Ledger} (hrun : Run step .empty events l)
    (hroom : (begun events).length < UInt64.size - 1) {t : Txid} :
    (t ∈ commits events → Settled t events l .committed) ∧
      (t ∈ aborts events → Settled t events l .aborted) := by
  have hrecords := records_of_run hrun hroom
  have hone : t ∈ begun events → 1 ≤ t := fun h => ((hrecords.mem_begun t).1 h).1
  constructor
  · intro hc
    have hexact := hrecords.exact.isCommitted_iff t (hone (hrecords.begun_of_commits t hc))
    exact ⟨hc, hrecords.not_both t hc, hexact.2 hc⟩
  · intro ha
    have hc : t ∉ commits events := fun hc => hrecords.not_both t hc ha
    have hexact := hrecords.exact.isCommitted_iff t (hone (hrecords.begun_of_aborts t ha))
    exact ⟨ha, hc, (hrecords.mem_aborted t).2 ha, Bool.eq_false_iff.2 (mt hexact.1 hc)⟩

/-- Every transaction is resolved once, whoever resolves it. Transactions are begun in the order of
their numbers, so no number comes twice, and none of them is resolved twice; those in flight are as
many as have been begun and not resolved. An attempt to resolve a transaction takes effect exactly
if it is the first one since the transaction was begun, and then the transaction stays as it was
resolved, whatever is called after. Any other attempt changes nothing, and if it returns a result,
reports that the transaction is not in flight. -/
theorem resolved_once {events : History} {l : Ledger} (hrun : Run step .empty events l)
    (hroom : (begun events).length < UInt64.size - 1) :
    (begun events).Pairwise (· < ·) ∧ (resolved events).Nodup ∧
      l.inFlightCount + (resolved events).length = (begun events).length ∧
      ∀ before e after t fate, events = before ++ e :: after → e.call.attempt = some (t, fate) →
        ∀ m, Run step .empty before m →
          (Open t before → e.answer = e.call.granted ∧ Settled t events l fate) ∧
          (¬ Open t before → e.answer = e.call.refused t ∧ (step e.call m).2 = m) := by
  refine ⟨(records_of_run hrun hroom).begun_increasing, nodup_resolved hrun hroom, ?_, ?_⟩
  · have hlength := (inFlight_perm hrun hroom).length_eq
    rwa [List.length_append] at hlength
  · rintro before ⟨op, answer⟩ after t fate rfl hattempt m hbefore
    obtain ⟨n, hn, hanswer, -⟩ := hrun.split
    obtain rfl : n = m := hn.last_unique hbefore
    have hstep := step_attempt hattempt n
    rw [← mem_inFlight_iff hbefore]
    constructor
    · intro ht
      rw [if_pos ht] at hstep
      rw [hstep] at hanswer
      refine ⟨hanswer, ?_⟩
      change answer = op.granted at hanswer
      -- The call is counted among those that commit or abort the transaction.
      have hsettled := settled_of_mem (t := t) hrun hroom
      subst hanswer
      cases op with
      | begin | openGuard | snapshot => cases hattempt
      | commit u | commitGuard u =>
        cases hattempt
        exact hsettled.1 (List.mem_filterMap.2
          ⟨_, List.mem_append_right before List.mem_cons_self, rfl⟩)
      | abort u | abortGuard u | dropGuard u =>
        cases hattempt
        exact hsettled.2 (List.mem_filterMap.2
          ⟨_, List.mem_append_right before List.mem_cons_self, rfl⟩)
    · intro ht
      rw [if_neg ht] at hstep
      rw [hstep] at hanswer ⊢
      exact ⟨hanswer, rfl⟩

/-- Transaction 1 is committed before it is begun and again later, 2 is committed by its number
before its guard is dropped, and 3 is dropped before it is committed by its number. -/
def contested : List Op :=
  [.commit 1, .begin, .openGuard, .openGuard, .commit 2, .dropGuard ⟨2⟩, .dropGuard ⟨3⟩, .commit 3,
    .commit 1]

/-- In a run with two attempts on each transaction, the drop of 2 leaves its commit standing, the
drop of 3 aborts it for good, and the commit of 1 counts that came after its begin. -/
theorem resolved_once_contested :
    (begun (execute step contested .empty).1).length < UInt64.size - 1 ∧
      (execute step contested .empty).2.inFlightCount + 3 = 3 ∧
      (execute step (contested.take 5) .empty).2 = (execute step (contested.take 6) .empty).2 ∧
      Settled 2 (execute step contested .empty).1 (execute step contested .empty).2 .committed ∧
      Settled 3 (execute step contested .empty).1 (execute step contested .empty).2 .aborted ∧
      Settled 1 (execute step contested .empty).1 (execute step contested .empty).2 .committed := by
  have hroom : (begun (execute step contested .empty).1).length < UInt64.size - 1 := by decide
  obtain ⟨-, -, hcount, hattempts⟩ := resolved_once (.of_execute contested Ledger.empty) hroom
  -- The calls up to each attempt are a run of their own, in which to see what is open.
  have hopen (n : Nat) (t : Txid) :=
    mem_inFlight_iff (.of_execute (contested.take n) Ledger.empty) t
  have hattempt (n : Nat) (e after t fate) (hevents) (hop) :=
    hattempts (execute step (contested.take n) .empty).1 e after t fate hevents hop _
      (.of_execute (contested.take n) Ledger.empty)
  refine ⟨hroom, hcount, ?_, ?_, ?_, ?_⟩
  · refine ((hattempt 5 ⟨.dropGuard ⟨2⟩, .dropped false⟩ _ 2 .aborted rfl rfl).2 ?_).2.symm
    rw [← hopen]
    decide
  · exact ((hattempt 4 ⟨.commit 2, .settled (.ok ())⟩ _ 2 .committed rfl rfl).1
      ((hopen 4 2).1 (by decide))).2
  · exact ((hattempt 6 ⟨.dropGuard ⟨3⟩, .dropped true⟩ _ 3 .aborted rfl rfl).1
      ((hopen 6 3).1 (by decide))).2
  · exact ((hattempt 8 ⟨.commit 1, .settled (.ok ())⟩ _ 1 .committed rfl rfl).1
      ((hopen 8 1).1 (by decide))).2

end TabletDelta.Ledger
