import Mathlib.Data.List.Nodup
import TabletDelta.Proofs.Txn.Resolution
import TabletDelta.Wire.Snapshot

/-!
# Transactions resolved in any order

Every resolution cuts the commits that the ledger keeps at the watermark of that moment. The order
of the resolutions decides by which steps the watermark goes up, and so where the cuts are made, but
not what is left in the end: a ledger is determined by what has been begun, committed and aborted in
it, in whatever order (`Records.unique`). Attempts on different transactions in flight do not get in
each other's way, so all of them take effect (`Performs.execute_eq`), and what they commit and abort is
the same in every order. Together this makes resolutions commute (`resolutions_commute`).
-/

namespace TabletDelta.Ledger

/-- Ledgers in which the same transactions have been begun, committed and aborted are the same. The
commits below the watermark have been forgotten in both, and the watermark is the same, since the
same transactions are in flight. -/
theorem Records.unique {l l' : Ledger} {events events' : History} (h : Records l events)
    (h' : Records l' events') (hbegun : begun events = begun events')
    (hcommits : ∀ t, t ∈ commits events ↔ t ∈ commits events')
    (haborts : ∀ t, t ∈ aborts events ↔ t ∈ aborts events') : l = l' := by
  have hnext : l.next = l'.next := by
    rw [← UInt64.toNat_inj, h.next_eq, h'.next_eq, hbegun]
  have hinFlight : l.inFlight = l'.inFlight := by
    ext t
    rw [h.mem_inFlight, h'.mem_inFlight, hbegun, hcommits, haborts]
  have hwatermark : l.watermark = l'.watermark := by
    unfold watermark
    rw [hinFlight, hnext]
  have hcommitted : l.committed = l'.committed := by
    ext t
    rw [h.mem_committed, h'.mem_committed, hcommits, hwatermark]
  have haborted : l.aborted = l'.aborted := by
    ext t
    rw [h.mem_aborted, h'.mem_aborted, haborts]
  calc l = ⟨l.next, l.inFlight, l.committed, l.aborted⟩ := rfl
    _ = ⟨l'.next, l'.inFlight, l'.committed, l'.aborted⟩ := by
      rw [hnext, hinFlight, hcommitted, haborted]
    _ = l' := rfl

/-- The calls resolve the chosen transactions as `fate` says, with one call for each of them: in some
order, and directly or through guards. -/
def Performs (ops : List Op) (chosen : TxidSet) (fate : Txid → Fate) : Prop :=
  (ops.map Op.attempt).Perm (chosen.ids.map fun t => some (t, fate t))

instance (ops : List Op) (chosen : TxidSet) (fate : Txid → Fate) :
    Decidable (Performs ops chosen fate) :=
  inferInstanceAs (Decidable (List.Perm _ _))

/-- The event of an attempt that takes effect. -/
def grantedEvent (op : Op) : Event Op Reply := ⟨op, op.granted⟩

/-- An attempt begins no transaction. -/
theorem begunBy_grantedEvent (op : Op) : begunBy (grantedEvent op) = none := by
  cases op <;> rfl

/-- An attempt that takes effect commits the transaction that it tries to commit. -/
theorem committedBy_grantedEvent {op : Op} {t : Txid} :
    committedBy (grantedEvent op) = some t ↔ op.attempt = some (t, .committed) := by
  cases op <;> simp [grantedEvent, Op.granted, committedBy, Op.attempt]

/-- An attempt that takes effect aborts the transaction that it tries to abort. -/
theorem abortedBy_grantedEvent {op : Op} {t : Txid} :
    abortedBy (grantedEvent op) = some t ↔ op.attempt = some (t, .aborted) := by
  cases op <;> simp [grantedEvent, Op.granted, abortedBy, Op.attempt]

/-- Attempts on different transactions in flight all take effect, as none of them takes the
transaction of another one out of flight. -/
theorem execute_attempts {ops : List Op} {l : Ledger}
    (hflight : ∀ op ∈ ops, ∃ t fate, op.attempt = some (t, fate) ∧ t ∈ l.inFlight)
    (hdistinct : (ops.map fun op => op.attempt.map Prod.fst).Nodup) :
    (execute step ops l).1 = ops.map grantedEvent := by
  induction ops generalizing l with
  | nil => rfl
  | cons op ops ih =>
    obtain ⟨hhead, htail⟩ := List.forall_mem_cons.1 hflight
    rw [List.map_cons, List.nodup_cons] at hdistinct
    obtain ⟨hnew, hrest⟩ := hdistinct
    obtain ⟨t, fate, hattempt, ht⟩ := hhead
    have hevent : eventOf step op l = grantedEvent op := by
      unfold eventOf grantedEvent
      rw [step_attempt hattempt, if_pos ht]
    -- The transactions of the other attempts stay in flight.
    have hstill : ∀ op' ∈ ops, ∃ u fate', op'.attempt = some (u, fate') ∧
        u ∈ (step op l).2.inFlight := by
      intro op' hop'
      obtain ⟨u, fate', hattempt', hu⟩ := htail op' hop'
      refine ⟨u, fate', hattempt', mem_inFlight_step.2 (.inr ⟨hu, fun hsame => hnew ?_⟩)⟩
      rw [hsame]
      refine List.mem_map.2 ⟨op', hop', ?_⟩
      rw [hattempt', Option.map_some]
    show eventOf step op l :: (execute step ops (step op l).2).1 = _
    rw [hevent, ih hstill hrest, List.map_cons]

namespace Performs

variable {ops : List Op} {chosen : TxidSet} {fate : Txid → Fate}

/-- What is attempted is the fate of the chosen transactions. -/
theorem exists_attempt_iff (h : Performs ops chosen fate) {t : Txid} {f : Fate} :
    (∃ op ∈ ops, op.attempt = some (t, f)) ↔ t ∈ chosen ∧ fate t = f := by
  have hmem : some (t, f) ∈ ops.map Op.attempt ↔
      some (t, f) ∈ chosen.ids.map fun u => some (u, fate u) := h.mem_iff
  rw [List.mem_map, List.mem_map] at hmem
  rw [hmem]
  constructor
  · rintro ⟨u, hu, heq⟩
    cases heq
    exact ⟨hu, rfl⟩
  · rintro ⟨ht, rfl⟩
    exact ⟨t, ht, rfl⟩

/-- Each call is an attempt on a chosen transaction. -/
theorem attempt_eq (h : Performs ops chosen fate) {op : Op} (hop : op ∈ ops) :
    ∃ t ∈ chosen, op.attempt = some (t, fate t) := by
  have hmem : op.attempt ∈ chosen.ids.map fun t => some (t, fate t) :=
    h.mem_iff.1 (List.mem_map_of_mem hop)
  obtain ⟨t, ht, heq⟩ := List.mem_map.1 hmem
  exact ⟨t, ht, heq.symm⟩

/-- No two of the calls are attempts on the same transaction. -/
theorem nodup (h : Performs ops chosen fate) :
    (ops.map fun op => op.attempt.map Prod.fst).Nodup := by
  have hperm : (ops.map fun op => op.attempt.map Prod.fst).Perm (chosen.ids.map some) := by
    have hfirst := h.map (Option.map Prod.fst)
    rwa [List.map_map, List.map_map] at hfirst
  rw [hperm.nodup_iff]
  exact (nodup_of_increasing chosen.sorted).map fun _ _ => Option.some.inj

/-- The calls commit the transactions that are to be committed. -/
theorem mem_commits (h : Performs ops chosen fate) {t : Txid} :
    t ∈ commits (ops.map grantedEvent) ↔ t ∈ chosen ∧ fate t = .committed := by
  rw [← h.exists_attempt_iff]
  unfold commits
  simp only [List.filterMap_map, List.mem_filterMap, Function.comp, committedBy_grantedEvent]

/-- The calls abort the transactions that are to be aborted. -/
theorem mem_aborts (h : Performs ops chosen fate) {t : Txid} :
    t ∈ aborts (ops.map grantedEvent) ↔ t ∈ chosen ∧ fate t = .aborted := by
  rw [← h.exists_attempt_iff]
  unfold aborts
  simp only [List.filterMap_map, List.mem_filterMap, Function.comp, abortedBy_grantedEvent]

/-- On chosen transactions that are all in flight, every call takes effect. -/
theorem execute_eq (h : Performs ops chosen fate) {l : Ledger}
    (hflight : ∀ t ∈ chosen, t ∈ l.inFlight) :
    (execute step ops l).1 = ops.map grantedEvent := by
  refine execute_attempts (fun op hop => ?_) h.nodup
  obtain ⟨t, ht, hattempt⟩ := h.attempt_eq hop
  exact ⟨t, fate t, hattempt, hflight t ht⟩

end Performs

/-- A run goes on with any resolutions of transactions in flight, and no transaction is begun. -/
theorem records_of_performs {events : History} {l : Ledger} (hrun : Run step .empty events l)
    (hroom : (begun events).length < UInt64.size - 1) {chosen : TxidSet} {fate : Txid → Fate}
    (hflight : ∀ t ∈ chosen, t ∈ l.inFlight) {ops : List Op} (hops : Performs ops chosen fate) :
    begun (events ++ ops.map grantedEvent) = begun events ∧
      Records (execute step ops l).2 (events ++ ops.map grantedEvent) := by
  have hbegun : begun (events ++ ops.map grantedEvent) = begun events := by
    have hnone : begun (ops.map grantedEvent) = [] := by
      simp [begun, begunBy_grantedEvent]
    rw [begun_append, hnone, List.append_nil]
  refine ⟨hbegun, records_of_run ?_ (by rwa [hbegun])⟩
  rw [← hops.execute_eq hflight]
  exact Run.append_iff.2 ⟨l, hrun, .of_execute ops l⟩

/-- The ledger `after` is what a ledger `l` with a history becomes once each of the chosen
transactions has met its fate. -/
structure Concluded (l : Ledger) (events : History) (chosen : TxidSet) (fate : Txid → Fate)
    (after : Ledger) : Prop where
  /-- No transaction has been begun. -/
  next_eq : after.next = l.next
  /-- The chosen transactions are out of flight. -/
  mem_inFlight : ∀ t, t ∈ after.inFlight ↔ t ∈ l.inFlight ∧ t ∉ chosen
  /-- Of all commits, those that are not below the watermark are kept. -/
  mem_committed : ∀ t, t ∈ after.committed ↔
    (t ∈ commits events ∨ t ∈ chosen ∧ fate t = .committed) ∧ after.watermark ≤ t
  /-- The new aborts are added to the old ones. -/
  mem_aborted : ∀ t, t ∈ after.aborted ↔ t ∈ l.aborted ∨ t ∈ chosen ∧ fate t = .aborted

/-- The order of resolutions does not matter. Take any run of a ledger in which the numbers do not
run out, any transactions in flight, and a fate for each of them. Calls that resolve them, in
whatever order and whether directly or through guards, all take effect. The ledger that they leave
is the same for every order: the transactions are out of flight, the aborts are added, and of all
commits those that are not below the watermark are kept. So are its snapshot with its wire form, and
the answers to whatever is called after. -/
theorem resolutions_commute {events : History} {l : Ledger} (hrun : Run step .empty events l)
    (hroom : (begun events).length < UInt64.size - 1) {chosen : TxidSet} {fate : Txid → Fate}
    (hflight : ∀ t ∈ chosen, t ∈ l.inFlight) {ops ops' : List Op}
    (hops : Performs ops chosen fate) (hops' : Performs ops' chosen fate) :
    (execute step ops l).1.map Event.answer = ops.map Op.granted ∧
      Concluded l events chosen fate (execute step ops l).2 ∧
      (execute step ops l).2 = (execute step ops' l).2 ∧
      (execute step ops l).2.snapshot = (execute step ops' l).2.snapshot ∧
      Wire.encode (execute step ops l).2.snapshot =
        Wire.encode (execute step ops' l).2.snapshot ∧
      ∀ later, execute step later (execute step ops l).2 =
        execute step later (execute step ops' l).2 := by
  have hrecords := records_of_run hrun hroom
  obtain ⟨hbegun, hafter⟩ := records_of_performs hrun hroom hflight hops
  obtain ⟨hbegun', hafter'⟩ := records_of_performs hrun hroom hflight hops'
  have hsame : (execute step ops l).2 = (execute step ops' l).2 := by
    refine hafter.unique hafter' (hbegun.trans hbegun'.symm) (fun t => ?_) fun t => ?_
    · rw [commits_append, commits_append, List.mem_append, List.mem_append, hops.mem_commits,
        hops'.mem_commits]
    · rw [aborts_append, aborts_append, List.mem_append, List.mem_append, hops.mem_aborts,
        hops'.mem_aborts]
  have hconcluded : Concluded l events chosen fate (execute step ops l).2 := by
    constructor
    case next_eq =>
      rw [← UInt64.toNat_inj, hafter.next_eq, hbegun, hrecords.next_eq]
    case mem_inFlight =>
      intro t
      rw [hafter.mem_inFlight, hbegun, commits_append, aborts_append, List.mem_append,
        List.mem_append, hops.mem_commits, hops.mem_aborts, hrecords.mem_inFlight]
      have hfates : fate t = .committed ∨ fate t = .aborted := by
        cases fate t with
        | committed => exact .inl rfl
        | aborted => exact .inr rfl
      tauto
    case mem_committed =>
      intro t
      rw [hafter.mem_committed, commits_append, List.mem_append, hops.mem_commits]
    case mem_aborted =>
      intro t
      rw [hafter.mem_aborted, aborts_append, List.mem_append, hops.mem_aborts,
        hrecords.mem_aborted]
  refine ⟨?_, hconcluded, hsame, by rw [hsame], by rw [hsame], fun later => by rw [hsame]⟩
  rw [hops.execute_eq hflight, List.map_map]
  rfl

/-- Four transactions, the second one under a guard. -/
def fourBegun : List Op := [.begin, .openGuard, .begin, .begin]

/-- The last of them first: the watermark goes up with the second and the third call. -/
def lastFirst : List Op := [.commit 4, .commit 1, .dropGuard ⟨2⟩]

/-- The other way round: the watermark goes up with the second call only, by two. -/
def firstLast : List Op := [.abort 2, .commitGuard ⟨1⟩, .commit 4]

/-- What becomes of the transactions other than 3. -/
def fateOfFour (t : Txid) : Fate := if t = 2 then .aborted else .committed

/-- With 3 still in flight, the commit of 1 is forgotten and that of 4 is kept, in both orders. -/
theorem resolutions_commute_fourBegun :
    (begun (execute step fourBegun .empty).1).length < UInt64.size - 1 ∧
      Performs lastFirst (.ofList [1, 2, 4]) fateOfFour ∧
      Performs firstLast (.ofList [1, 2, 4]) fateOfFour ∧
      (execute step lastFirst (execute step fourBegun .empty).2).2 =
        (execute step firstLast (execute step fourBegun .empty).2).2 ∧
      4 ∈ (execute step lastFirst (execute step fourBegun .empty).2).2.committed ∧
      1 ∉ (execute step lastFirst (execute step fourBegun .empty).2).2.committed := by
  have hroom : (begun (execute step fourBegun .empty).1).length < UInt64.size - 1 := by decide
  have hflight : ∀ t ∈ (TxidSet.ofList [1, 2, 4]).ids,
      t ∈ (execute step fourBegun .empty).2.inFlight := by
    have hall : (TxidSet.ofList [1, 2, 4]).ids.all
        (· ∈ (execute step fourBegun .empty).2.inFlight) = true := by decide
    simpa only [List.all_eq_true, decide_eq_true_eq] using hall
  have hlast : Performs lastFirst (.ofList [1, 2, 4]) fateOfFour := by decide
  have hfirst : Performs firstLast (.ofList [1, 2, 4]) fateOfFour := by decide
  obtain ⟨-, hconcluded, hsame, -⟩ :=
    resolutions_commute (.of_execute fourBegun Ledger.empty) hroom hflight hlast hfirst
  refine ⟨hroom, hlast, hfirst, hsame, ?_, ?_⟩
  · rw [hconcluded.mem_committed]
    decide
  · rw [hconcluded.mem_committed]
    decide

end TabletDelta.Ledger
