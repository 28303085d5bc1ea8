import Mathlib.Control.Monad.Basic
import Mathlib.Tactic.Tauto
import TabletDelta.Proofs.Run
import TabletDelta.Txn.Guard

/-!
# Histories of the ledger

The ledger as a machine, called directly or through guards, and what a list of its events says about
transactions: which were begun, which committed and which aborted. A call can do four things to the
ledger, and `step_effect` says which of them each call does; everything below goes through it.

`Records l events` is the invariant of the ledger. The transactions begun are those below `next`,
and each of them is in flight, committed or aborted according to the events; the commits below the
watermark are the ones forgotten. `records_of_run` shows that every run keeps it, as long as the
transaction numbers do not run out.
-/

namespace TabletDelta.Ledger

/-- A call on the ledger, made directly or through a guard. -/
inductive Op where
  /-- Begins a transaction. -/
  | begin
  /-- Commits a transaction. -/
  | commit (t : Txid)
  /-- Aborts a transaction. -/
  | abort (t : Txid)
  /-- Takes a snapshot. -/
  | snapshot
  /-- Begins a transaction under a guard. -/
  | openGuard
  /-- Commits the transaction of a guard. -/
  | commitGuard (g : Guard)
  /-- Aborts the transaction of a guard. -/
  | abortGuard (g : Guard)
  /-- Lets go of a guard. -/
  | dropGuard (g : Guard)
deriving DecidableEq

/-- The answer to a call. -/
inductive Reply where
  /-- The transaction begun. -/
  | begun (t : Txid)
  /-- Whether a commit or an abort succeeded. -/
  | settled (result : Except Error Unit)
  /-- Letting go of a guard answers nothing to its holder; `aborted` records whether it aborted the
  transaction. -/
  | dropped (aborted : Bool)
  /-- The snapshot taken. -/
  | taken (s : Snapshot)
deriving DecidableEq

/-- A commit or an abort as an answer and the ledger left behind. -/
def settle (settled : Outcome Ledger Unit) : Reply × Ledger :=
  (.settled settled.result, settled.state)

/-- The ledger as a machine. -/
def step : Op → Ledger → Reply × Ledger
  | .begin, l => (.begun l.begin.1, l.begin.2)
  | .commit t, l => settle (l.commit t)
  | .abort t, l => settle (l.abort t)
  | .snapshot, l => (.taken l.snapshot, l)
  | .openGuard, l => (.begun (Guard.begin l).1.txid, (Guard.begin l).2)
  | .commitGuard g, l => settle (g.commit l)
  | .abortGuard g, l => settle (g.abort l)
  | .dropGuard g, l => (.dropped (l.abort g.txid).result.isOk, g.drop l)

/-- What has been called on a ledger, and answered. -/
abbrev History := List (Event Op Reply)

/-- The transaction that a call began. -/
def begunBy : Event Op Reply → Option Txid
  | ⟨_, .begun t⟩ => some t
  | _ => none

/-- The transaction that a call committed. -/
def committedBy : Event Op Reply → Option Txid
  | ⟨.commit t, .settled (.ok ())⟩ => some t
  | ⟨.commitGuard g, .settled (.ok ())⟩ => some g.txid
  | _ => none

/-- The transaction that a call aborted. -/
def abortedBy : Event Op Reply → Option Txid
  | ⟨.abort t, .settled (.ok ())⟩ => some t
  | ⟨.abortGuard g, .settled (.ok ())⟩ => some g.txid
  | ⟨.dropGuard g, .dropped true⟩ => some g.txid
  | _ => none

/-- The transactions begun. -/
def begun (events : History) : List Txid := events.filterMap begunBy

/-- The transactions of which some commit succeeded. -/
def commits (events : History) : List Txid := events.filterMap committedBy

/-- The transactions of which some abort succeeded. -/
def aborts (events : History) : List Txid := events.filterMap abortedBy

/-- The transactions begun before a cut and after it. -/
theorem begun_append (before after : History) :
    begun (before ++ after) = begun before ++ begun after :=
  List.filterMap_append

/-- The transactions committed before a cut and after it. -/
theorem commits_append (before after : History) :
    commits (before ++ after) = commits before ++ commits after :=
  List.filterMap_append

/-- The transactions aborted before a cut and after it. -/
theorem aborts_append (before after : History) :
    aborts (before ++ after) = aborts before ++ aborts after :=
  List.filterMap_append

/-- What a single event adds to one of the three lists. -/
theorem mem_filterMap_snoc {f : Event Op Reply → Option Txid} {events : History}
    {e : Event Op Reply} {t : Txid} :
    t ∈ (events ++ [e]).filterMap f ↔ t ∈ events.filterMap f ∨ f e = some t := by
  rw [List.filterMap_append, List.mem_append, List.mem_filterMap (l := [e])]
  simp

/-- The ledger after taking `t` out of flight, with `committed` and `aborted` as they are then. -/
def resolve (l : Ledger) (t : Txid) (committed aborted : TxidSet) : Ledger :=
  { l with inFlight := l.inFlight.erase t, committed, aborted }.prune

/-- The four things that a call can do to a ledger: begin the next transaction, commit one in
flight, abort one in flight, or nothing at all. -/
inductive Effect (l : Ledger) : (begun committed aborted : Option Txid) → Ledger → Prop where
  | begin : Effect l (some l.next) none none l.begin.2
  | commit {t : Txid} (h : t ∈ l.inFlight) :
    Effect l none (some t) none (l.resolve t (l.committed.insert t) l.aborted)
  | abort {t : Txid} (h : t ∈ l.inFlight) :
    Effect l none none (some t) (l.resolve t l.committed (l.aborted.insert t))
  | nothing : Effect l none none none l

/-- A transaction leaves flight if it is there. Any other one is refused, and nothing changes: what
is taken out of flight was not in it. -/
theorem finish_eq (l : Ledger) (t : Txid) :
    l.finish t = if t ∈ l.inFlight then .ok () { l with inFlight := l.inFlight.erase t }
      else .fail (.notInFlight t) l := by
  unfold finish TxidSet.remove
  by_cases h : t ∈ l.inFlight
  · rw [if_pos h, TxidSet.contains_iff_mem.2 h]
  · have hcontains : l.inFlight.contains t = false :=
      Bool.eq_false_iff.2 (mt TxidSet.contains_iff_mem.1 h)
    rw [if_neg h, hcontains, TxidSet.erase_of_not_mem h]

/-- Committing a transaction in flight resolves it, and any other commit is refused and changes
nothing. -/
theorem commit_eq (l : Ledger) (t : Txid) :
    l.commit t = if t ∈ l.inFlight then .ok () (l.resolve t (l.committed.insert t) l.aborted)
      else .fail (.notInFlight t) l := by
  unfold commit resolve
  rw [finish_eq]
  by_cases h : t ∈ l.inFlight
  · rw [if_pos h, if_pos h]
    rfl
  · rw [if_neg h, if_neg h]
    rfl

/-- Aborting a transaction in flight resolves it, and any other abort is refused and changes
nothing. -/
theorem abort_eq (l : Ledger) (t : Txid) :
    l.abort t = if t ∈ l.inFlight then .ok () (l.resolve t l.committed (l.aborted.insert t))
      else .fail (.notInFlight t) l := by
  unfold abort resolve
  rw [finish_eq]
  by_cases h : t ∈ l.inFlight
  · rw [if_pos h, if_pos h]
    rfl
  · rw [if_neg h, if_neg h]
    rfl

/-- Committing under a guard is committing: the guard that goes away is finished with. -/
theorem guard_commit (g : Guard) (l : Ledger) : g.commit l = l.commit g.txid := rfl

/-- Aborting under a guard is aborting. -/
theorem guard_abort (g : Guard) (l : Ledger) : g.abort l = l.abort g.txid := rfl

/-- Letting go of a guard aborts its transaction, if it is in flight. -/
theorem guard_drop (g : Guard) (l : Ledger) : g.drop l = (l.abort g.txid).state := rfl

/-- Each call does one of the four things, and its event says which. -/
theorem step_effect (op : Op) (l : Ledger) :
    Effect l (begunBy (eventOf step op l)) (committedBy (eventOf step op l))
      (abortedBy (eventOf step op l)) (step op l).2 := by
  cases op with
  | begin => exact .begin
  | snapshot => exact .nothing
  | openGuard => exact .begin
  | commit t | commitGuard t =>
    simp only [eventOf, step, guard_commit, commit_eq]
    split
    · next h => exact .commit h
    · exact .nothing
  | abort t | abortGuard t =>
    simp only [eventOf, step, guard_abort, abort_eq]
    split
    · next h => exact .abort h
    · exact .nothing
  | dropGuard g =>
    simp only [eventOf, step, guard_drop, abort_eq]
    split
    · next h => exact .abort h
    · exact .nothing

/-- The watermark bounds the transactions in flight from below. -/
theorem watermark_le {l : Ledger} {t : Txid} (h : t ∈ l.inFlight) : l.watermark ≤ t := by
  unfold watermark TxidSet.min?
  have hsorted := l.inFlight.sorted
  rw [TxidSet.mem_def] at h
  cases hids : l.inFlight.ids with
  | nil =>
    rw [hids] at h
    exact absurd h List.not_mem_nil
  | cons u us =>
    rw [hids] at h hsorted
    rcases List.mem_cons.1 h with rfl | hmem
    · exact UInt64.le_refl _
    · exact UInt64.le_of_lt ((List.pairwise_cons.1 hsorted).1 t hmem)

/-- The watermark is in flight itself, unless nothing is. -/
theorem watermark_cases (l : Ledger) :
    l.watermark ∈ l.inFlight ∨ l.watermark = l.next ∧ ∀ t, t ∉ l.inFlight := by
  unfold watermark TxidSet.min?
  simp only [TxidSet.mem_def]
  cases l.inFlight.ids with
  | nil => exact .inr ⟨rfl, fun t => List.not_mem_nil⟩
  | cons u us => exact .inl List.mem_cons_self

/-- Beginning a transaction does not raise the watermark. -/
theorem watermark_begin_le (l : Ledger) : l.begin.2.watermark ≤ l.watermark := by
  -- The old watermark is in flight after the call.
  apply watermark_le
  show l.watermark ∈ l.inFlight.insert l.next
  rw [TxidSet.mem_insert]
  rcases watermark_cases l with hmem | ⟨heq, -⟩
  · exact .inr hmem
  · exact .inl heq

/-- The ledger is what the events have made of an empty one. -/
structure Records (l : Ledger) (events : History) : Prop where
  /-- Transactions are numbered from 1 on, without gaps. -/
  next_eq : l.next.toNat = (begun events).length + 1
  /-- The transactions begun are those below the next one. -/
  mem_begun : ∀ t, t ∈ begun events ↔ 1 ≤ t ∧ t < l.next
  /-- Transactions are begun in the order of their numbers. -/
  begun_increasing : (begun events).Pairwise (· < ·)
  /-- The transactions in flight are those begun and not resolved. -/
  mem_inFlight : ∀ t, t ∈ l.inFlight ↔ t ∈ begun events ∧ t ∉ commits events ∧ t ∉ aborts events
  /-- Of the commits, those that are not below the watermark are kept. -/
  mem_committed : ∀ t, t ∈ l.committed ↔ t ∈ commits events ∧ l.watermark ≤ t
  /-- All aborts are kept. -/
  mem_aborted : ∀ t, t ∈ l.aborted ↔ t ∈ aborts events
  /-- Only transactions begun commit. -/
  begun_of_commits : ∀ t ∈ commits events, t ∈ begun events
  /-- Only transactions begun abort. -/
  begun_of_aborts : ∀ t ∈ aborts events, t ∈ begun events
  /-- No transaction is resolved in both ways. -/
  not_both : ∀ t ∈ commits events, t ∉ aborts events

namespace Records

/-- Nothing has happened to the empty ledger. -/
theorem empty : Records .empty [] where
  next_eq := rfl
  mem_begun t := by
    simp only [begun, List.filterMap_nil, List.not_mem_nil, false_iff, not_and, UInt64.not_lt]
    exact id
  begun_increasing := .nil
  mem_inFlight t := by simp [begun, Ledger.empty]
  mem_committed t := by simp [commits, Ledger.empty]
  mem_aborted t := by simp [aborts, Ledger.empty]
  begun_of_commits t ht := by simp [commits] at ht
  begun_of_aborts t ht := by simp [aborts] at ht
  not_both t ht := by simp [commits] at ht

/-- The watermark is not above the next transaction. -/
theorem watermark_le_next {l : Ledger} {events : History} (h : Records l events) :
    l.watermark ≤ l.next := by
  rcases watermark_cases l with hmem | ⟨heq, -⟩
  · have hbegun := ((h.mem_inFlight _).1 hmem).1
    exact UInt64.le_of_lt ((h.mem_begun _).1 hbegun).2
  · rw [heq]
    exact UInt64.le_refl _

/-- Beginning a transaction leaves the watermark where it is. -/
theorem watermark_begin {l : Ledger} {events : History} (h : Records l events) :
    l.begin.2.watermark = l.watermark := by
  have hmem : ∀ t, t ∈ l.begin.2.inFlight ↔ t = l.next ∨ t ∈ l.inFlight := fun t => by
    simp only [begin, TxidSet.mem_insert]
  have hle := h.watermark_le_next
  apply UInt64.le_antisymm l.watermark_begin_le
  -- The new watermark is in flight, since something is, and not below the old one.
  rcases watermark_cases l.begin.2 with hw | ⟨-, hnone⟩
  · rcases (hmem _).1 hw with hw | hw
    · rw [hw]
      exact hle
    · exact watermark_le hw
  · exact absurd ((hmem l.next).2 (.inl rfl)) (hnone l.next)

/-- Resolving a transaction does not lower the watermark. -/
theorem watermark_le_resolve {l : Ledger} {events : History} (h : Records l events) (t : Txid)
    (committed aborted : TxidSet) : l.watermark ≤ (l.resolve t committed aborted).watermark := by
  rcases watermark_cases (l.resolve t committed aborted) with hw | ⟨hw, -⟩
  · exact watermark_le (TxidSet.mem_erase.1 hw).1
  · rw [hw]
    exact h.watermark_le_next

/-- Beginning a transaction keeps the records, unless the numbers run out. -/
theorem begin {l : Ledger} {events : History} {e : Event Op Reply} (h : Records l events)
    (hroom : (begun events).length + 1 < UInt64.size - 1) (hbegun : begunBy e = some l.next)
    (hcommitted : committedBy e = none) (haborted : abortedBy e = none) :
    Records l.begin.2 (events ++ [e]) := by
  -- There are numbers left, so the next one does not wrap around.
  have hsucc : (l.next + 1).toNat = l.next.toNat + 1 := by
    rw [UInt64.toNat_add, h.next_eq]
    exact Nat.mod_eq_of_lt (by simp only [UInt64.size] at hroom; simp; omega)
  have hbegun' : ∀ t, t ∈ begun (events ++ [e]) ↔ t ∈ begun events ∨ t = l.next := fun t => by
    rw [begun, mem_filterMap_snoc, hbegun, Option.some_inj, eq_comm (a := l.next)]
    rfl
  have hcommits : ∀ t, t ∈ commits (events ++ [e]) ↔ t ∈ commits events := fun t => by
    simp [commits, hcommitted]
  have haborts : ∀ t, t ∈ aborts (events ++ [e]) ↔ t ∈ aborts events := fun t => by
    simp [aborts, haborted]
  -- The new transaction is above all others, so it has not been resolved.
  have hfresh : l.next ∉ begun events := fun hmem =>
    UInt64.lt_irrefl _ ((h.mem_begun _).1 hmem).2
  constructor
  case next_eq =>
    show (l.next + 1).toNat = _
    rw [hsucc, h.next_eq, begun_append]
    simp [begun, hbegun]
  case mem_begun =>
    intro t
    show _ ↔ 1 ≤ t ∧ t < l.next + 1
    rw [hbegun', h.mem_begun]
    simp only [UInt64.lt_iff_toNat_lt, UInt64.le_iff_toNat_le, hsucc, ← UInt64.toNat_inj]
    have hone : UInt64.toNat 1 = 1 := rfl
    have hpos := h.next_eq
    omega
  case begun_increasing =>
    rw [begun_append, List.pairwise_append]
    refine ⟨h.begun_increasing, by simp [begun, hbegun], ?_⟩
    intro t ht u hu
    obtain rfl : l.next = u := by simpa [begun, hbegun, eq_comm] using hu
    exact ((h.mem_begun t).1 ht).2
  case mem_inFlight =>
    intro t
    simp only [Ledger.begin, TxidSet.mem_insert]
    rw [hbegun', hcommits, haborts, h.mem_inFlight]
    constructor
    · rintro (rfl | ⟨hmem, hc, ha⟩)
      · exact ⟨.inr rfl, fun hc => hfresh (h.begun_of_commits _ hc),
          fun ha => hfresh (h.begun_of_aborts _ ha)⟩
      · exact ⟨.inl hmem, hc, ha⟩
    · rintro ⟨hmem | rfl, hc, ha⟩
      · exact .inr ⟨hmem, hc, ha⟩
      · exact .inl rfl
  case mem_committed =>
    intro t
    rw [h.watermark_begin, hcommits]
    exact h.mem_committed t
  case mem_aborted =>
    intro t
    rw [haborts]
    exact h.mem_aborted t
  case begun_of_commits =>
    intro t ht
    rw [hcommits] at ht
    exact (hbegun' t).2 (.inl (h.begun_of_commits t ht))
  case begun_of_aborts =>
    intro t ht
    rw [haborts] at ht
    exact (hbegun' t).2 (.inl (h.begun_of_aborts t ht))
  case not_both =>
    intro t ht
    rw [hcommits] at ht
    rw [haborts]
    exact h.not_both t ht

/-- Taking `t` out of flight keeps the records, when `committed` and `aborted` have what the longer
list of events says, and what it says is that `t` has been resolved in one way. -/
theorem resolve {l : Ledger} {events events' : History} {t : Txid} {committed aborted : TxidSet}
    (h : Records l events) (hbegun : begun events' = begun events)
    (hresolved : ∀ u, u ∈ commits events' ∨ u ∈ aborts events' ↔
      u = t ∨ u ∈ commits events ∨ u ∈ aborts events)
    (ht : t ∈ l.inFlight) (hnot : ∀ u ∈ commits events', u ∉ aborts events')
    (hcommitted : ∀ u, u ∈ committed ↔ u ∈ commits events' ∧ l.watermark ≤ u)
    (haborted : ∀ u, u ∈ aborted ↔ u ∈ aborts events') :
    Records (l.resolve t committed aborted) events' := by
  -- What is resolved now was before, or is the transaction taken out of flight; all were begun.
  have hbegun_of : ∀ u, u ∈ commits events' ∨ u ∈ aborts events' → u ∈ begun events' := by
    intro u hu
    rw [hbegun]
    rcases (hresolved u).1 hu with rfl | hc | ha
    · exact ((h.mem_inFlight u).1 ht).1
    · exact h.begun_of_commits u hc
    · exact h.begun_of_aborts u ha
  constructor
  case next_eq =>
    rw [hbegun]
    exact h.next_eq
  case mem_begun =>
    intro u
    rw [hbegun]
    exact h.mem_begun u
  case begun_increasing =>
    rw [hbegun]
    exact h.begun_increasing
  case mem_inFlight =>
    intro u
    have hmem : u ∈ (l.resolve t committed aborted).inFlight ↔ u ∈ l.inFlight ∧ u ≠ t :=
      TxidSet.mem_erase
    have hu := hresolved u
    rw [hmem, hbegun, h.mem_inFlight]
    tauto
  case mem_committed =>
    -- The commits forgotten now are below the new watermark, and those forgotten before are too.
    intro u
    have hle := h.watermark_le_resolve t committed aborted
    have hmem : u ∈ (l.resolve t committed aborted).committed ↔
        u ∈ committed ∧ (l.resolve t committed aborted).watermark ≤ u := TxidSet.mem_atLeast
    rw [hmem, hcommitted]
    constructor
    · rintro ⟨⟨hc, -⟩, hw⟩
      exact ⟨hc, hw⟩
    · rintro ⟨hc, hw⟩
      exact ⟨⟨hc, UInt64.le_trans hle hw⟩, hw⟩
  case mem_aborted =>
    exact haborted
  case begun_of_commits =>
    exact fun u hu => hbegun_of u (.inl hu)
  case begun_of_aborts =>
    exact fun u hu => hbegun_of u (.inr hu)
  case not_both =>
    exact hnot

/-- Each call keeps the records, unless the numbers run out. -/
theorem snoc {l : Ledger} {events : History} {op : Op} (h : Records l events)
    (hroom : (begun (events ++ [eventOf step op l])).length < UInt64.size - 1) :
    Records (step op l).2 (events ++ [eventOf step op l]) := by
  -- From here on only what the call does counts, not which call it was.
  have heffect := step_effect op l
  generalize eventOf step op l = e at heffect hroom ⊢
  generalize (step op l).2 = after at heffect ⊢
  have hmem_begun : ∀ u, u ∈ begun (events ++ [e]) ↔ u ∈ begun events ∨ begunBy e = some u :=
    fun u => mem_filterMap_snoc
  have hmem_commits : ∀ u,
      u ∈ commits (events ++ [e]) ↔ u ∈ commits events ∨ committedBy e = some u :=
    fun u => mem_filterMap_snoc
  have hmem_aborts : ∀ u, u ∈ aborts (events ++ [e]) ↔ u ∈ aborts events ∨ abortedBy e = some u :=
    fun u => mem_filterMap_snoc
  generalize hb : begunBy e = b at heffect
  generalize hc : committedBy e = c at heffect
  generalize ha : abortedBy e = a at heffect
  rw [begun_append, List.length_append] at hroom
  cases heffect with
  | begin => exact h.begin (by simpa [begun, hb] using hroom) hb hc ha
  | @commit t ht =>
    -- The transaction was in flight, so it had not been resolved in either way.
    obtain ⟨-, hnc, hna⟩ := (h.mem_inFlight t).1 ht
    simp only [hc, ha, Option.some_inj, reduceCtorEq, or_false] at hmem_commits hmem_aborts
    apply h.resolve (by simp [begun, hb]) _ ht
    · intro u hu hua
      rw [hmem_aborts] at hua
      rcases (hmem_commits u).1 hu with hu | rfl
      · exact h.not_both u hu hua
      · exact hna hua
    · -- The new commit is kept for now, since the watermark does not pass what is in flight.
      intro u
      rw [TxidSet.mem_insert, h.mem_committed, hmem_commits]
      constructor
      · rintro (rfl | ⟨hu, hw⟩)
        · exact ⟨.inr rfl, watermark_le ht⟩
        · exact ⟨.inl hu, hw⟩
      · rintro ⟨hu | rfl, hw⟩
        · exact .inr ⟨hu, hw⟩
        · exact .inl rfl
    · intro u
      rw [hmem_aborts, h.mem_aborted]
    · intro u
      rw [hmem_commits, hmem_aborts, eq_comm (a := t)]
      tauto
  | @abort t ht =>
    obtain ⟨-, hnc, hna⟩ := (h.mem_inFlight t).1 ht
    simp only [hc, ha, Option.some_inj, reduceCtorEq, or_false] at hmem_commits hmem_aborts
    apply h.resolve (by simp [begun, hb]) _ ht
    · intro u hu hua
      rw [hmem_commits] at hu
      rcases (hmem_aborts u).1 hua with hua | rfl
      · exact h.not_both u hu hua
      · exact hnc hu
    · intro u
      rw [h.mem_committed, hmem_commits]
    · intro u
      rw [TxidSet.mem_insert, h.mem_aborted, hmem_aborts, or_comm, eq_comm]
    · intro u
      rw [hmem_commits, hmem_aborts, eq_comm (a := t)]
      tauto
  | nothing =>
    have hbegun : begun (events ++ [e]) = begun events := by simp [begun, hb]
    have hcommits : commits (events ++ [e]) = commits events := by simp [commits, hc]
    have haborts : aborts (events ++ [e]) = aborts events := by simp [aborts, ha]
    constructor <;> simp only [hbegun, hcommits, haborts]
    · exact h.next_eq
    · exact h.mem_begun
    · exact h.begun_increasing
    · exact h.mem_inFlight
    · exact h.mem_committed
    · exact h.mem_aborted
    · exact h.begun_of_commits
    · exact h.begun_of_aborts
    · exact h.not_both

end Records

/-- What a run from the empty ledger leaves is what its events say, unless the numbers run out. -/
theorem records_of_run {events : History} {l : Ledger} (hrun : Run step .empty events l)
    (hroom : (begun events).length < UInt64.size - 1) : Records l events := by
  refine hrun.invariant (fun past l => (begun past).length < UInt64.size - 1 → Records l past) ?_
    (fun _ => Records.empty) hroom
  -- The numbers have not run out for a shorter history either.
  intro past l op h hroom
  have hle : (begun past).length ≤ (begun (past ++ [eventOf step op l])).length := by
    rw [begun_append, List.length_append]
    omega
  exact (h (by omega)).snoc hroom

end TabletDelta.Ledger
