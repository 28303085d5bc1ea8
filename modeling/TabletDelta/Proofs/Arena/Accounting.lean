import Mathlib.Algebra.GroupWithZero.Nat
import TabletDelta.Proofs.Arena.Room
import TabletDelta.Proofs.Store.Updates

/-!
# The books of an arena

An arena as a machine whose calls allocate zeroed bytes, copy bytes, or reset it. Its books are in
order at any time (`Arena.Balanced`): what is used is what the regions handed out since the last
reset take, what is used and what is left of the current chunk fits in the chunks, and these fit in
the limit. A request is refused only if there is no room for it, and then nothing changes
(`Arena.step_cases`). All this is in `Arena.accounts_for_regions`, also for the arena of a store,
which is used by one copy for each update that the store accepts (`Store.arena_run`).

Sizes are numbers without a bound here, so no sum of them overflows.
-/

namespace TabletDelta

namespace Arena

/-! ## Calls -/

/-- A call on an arena. -/
inductive Op where
  /-- Hands out zeroed bytes. -/
  | allocate (size : Nat)
  /-- Hands out a copy of the bytes. -/
  | copy (bytes : Bytes)
  /-- Forgets all chunks. -/
  | reset
deriving DecidableEq

namespace Op

/-- The number of bytes that a call asks for, if it does not reset the arena. -/
def size? : Op → Option Nat
  | allocate size => some size
  | copy bytes => some bytes.length
  | reset => none

/-- What the region that a call asks for contains. -/
def contents : Op → Bytes
  | allocate size => List.replicate size 0
  | copy bytes => bytes
  | reset => []

/-- Whether a call resets the arena. -/
def isReset (op : Op) : Bool := op.size?.isNone

/-- A call is handed out as many bytes as it asks for. -/
theorem contents_length {op : Op} {size : Nat} (h : op.size? = some size) :
    op.contents.length = size := by
  cases op with
  | allocate n =>
    cases h
    exact List.length_replicate
  | copy bytes =>
    cases h
    rfl
  | reset => cases h

end Op

/-- The arena as a machine that answers with the region it hands out. -/
def step : Op → Arena → Except Error Bytes × Arena
  | .allocate size, a => ((a.allocate size).result, (a.allocate size).state)
  | .copy bytes, a => ((a.copy bytes).result, (a.copy bytes).state)
  | .reset, a => (.ok [], a.reset)

/-- The calls made on an arena, with their answers. -/
abbrev History := List (Event Op (Except Error Bytes))

/-- The regions that calls were handed out, in the order of the calls. -/
def regions (events : History) : List Bytes := events.filterMap fun e => e.answer.toOption

/-- A call adds the region that it was handed out. -/
theorem regions_snoc (events : History) (e : Event Op (Except Error Bytes)) :
    regions (events ++ [e]) = regions events ++ e.answer.toOption.toList := by
  unfold regions
  rw [List.filterMap_append]
  obtain ⟨call, answer⟩ := e
  cases answer <;> rfl

/-- The number of bytes in all regions. -/
def totalSize (regions : List Bytes) : Nat := (regions.map List.length).sum

variable {a : Arena} {config : ArenaConfig} {size : Nat} {given : List Bytes}

/-- A call that asks for bytes is a request for as many of them, with contents of its own in the
region that it is handed. -/
theorem step_eq {op : Op} (hsize : op.size? = some size) (a : Arena) :
    step op a =
      ((a.allocate size).result.map fun _ => op.contents, (a.allocate size).state) := by
  cases op with
  | reset => cases hsize
  | copy bytes =>
    cases hsize
    rfl
  | allocate n =>
    cases hsize
    show ((a.allocate size).result, (a.allocate size).state) = _
    -- The region is zeroed as it is handed out.
    rcases a.allocate_cases size with ⟨-, h⟩ | ⟨-, -, -, h⟩ | ⟨-, limit, -, -, h⟩ <;> rw [h] <;> rfl

/-- A call that asks for bytes is handed them off the current chunk; or, if this is too small, off a
new one that keeps to the limit; or it is refused, if the limit leaves no room for them, and the
arena stays as it is. -/
theorem step_cases {op : Op} (hsize : op.size? = some size) (a : Arena) :
    (size ≤ a.free ∧ step op a = (.ok op.contents, a.carve size)) ∨
    (a.free < size ∧ size ≤ a.chunkFor size ∧
      (∀ limit ∈ a.config.limit, a.chunkFor size ≤ limit.toNat - a.reserved) ∧
      step op a = (.ok op.contents, (a.startChunk (a.chunkFor size)).carve size)) ∨
    (a.free < size ∧ ∃ limit ∈ a.config.limit, limit.toNat - a.reserved < size ∧
      step op a = (.error (.arenaExhausted size limit.toNat), a)) := by
  rw [step_eq hsize]
  rcases a.allocate_cases size with
    ⟨hle, h⟩ | ⟨hlt, hfits, hlimit, h⟩ | ⟨hlt, limit, hlimit, hleft, h⟩
  · rw [h]
    exact .inl ⟨hle, rfl⟩
  · rw [h]
    exact .inr (.inl ⟨hlt, hfits, hlimit, rfl⟩)
  · rw [h]
    exact .inr (.inr ⟨hlt, limit, hlimit, hleft, rfl⟩)

/-- A call that asks for no bytes resets the arena. -/
theorem step_reset {op : Op} (hsize : op.size? = none) (a : Arena) :
    step op a = (.ok [], a.reset) := by
  cases op with
  | allocate size | copy bytes => cases hsize
  | reset => rfl

/-! ## The books -/

/-- The books of an arena with these sizes, which has handed out these regions since it was last
reset, are in order. -/
structure Balanced (a : Arena) (config : ArenaConfig) (given : List Bytes) : Prop where
  /-- The arena works with these sizes. -/
  config_eq : a.config = config
  /-- What is used is what the regions take. -/
  used_eq : a.used = totalSize given
  /-- What is used and what is left of the current chunk lies in the chunks. -/
  used_add_free_le : a.used + a.free ≤ a.reserved
  /-- The chunks keep to the limit. -/
  reserved_le : ∀ limit ∈ config.limit, a.reserved ≤ limit.toNat

/-- The books of an arena without chunks are in order. -/
theorem balanced_ofConfig (config : ArenaConfig) : (ofConfig config).Balanced config [] :=
  ⟨rfl, rfl, Nat.le_refl 0, fun limit _ => Nat.zero_le limit.toNat⟩

namespace Balanced

/-- A region that is cut off the current chunk goes from what is left of it to what is used. -/
theorem carve {region : Bytes} (h : a.Balanced config given) (hfree : region.length ≤ a.free) :
    (a.carve region.length).Balanced config (given ++ [region]) := by
  refine ⟨h.config_eq, ?_, ?_, h.reserved_le⟩
  · show a.used + region.length = totalSize (given ++ [region])
    rw [totalSize, List.map_append, List.sum_append, h.used_eq]
    rfl
  · show a.used + region.length + (a.free - region.length) ≤ a.reserved
    have hbooks := h.used_add_free_le
    omega

/-- A new chunk adds to what is reserved, and what was left of the old one is neither used nor
left. -/
theorem startChunk {chunk : Nat} (h : a.Balanced config given)
    (hlimit : ∀ limit ∈ config.limit, chunk ≤ limit.toNat - a.reserved) :
    (a.startChunk chunk).Balanced config given := by
  refine ⟨h.config_eq, h.used_eq, ?_, fun limit hmem => ?_⟩
  · show a.used + chunk ≤ a.reserved + chunk
    have hbooks := h.used_add_free_le
    omega
  · show a.reserved + chunk ≤ limit.toNat
    have hchunk := hlimit limit hmem
    have hreserved := h.reserved_le limit hmem
    omega

/-- Each call keeps the books in order. -/
theorem snoc {past : History} (h : a.Balanced config (regions (since Op.isReset past))) (op : Op) :
    (step op a).2.Balanced config (regions (since Op.isReset (past ++ [eventOf step op a]))) := by
  rw [since_snoc]
  show (step op a).2.Balanced config (regions (if op.size?.isNone then [] else _))
  cases hsize : op.size? with
  | none =>
    have hreset : (step op a).2 = ofConfig config := by
      rw [← h.config_eq, step_reset hsize]
      rfl
    rw [hreset]
    exact balanced_ofConfig config
  | some size =>
    show (step op a).2.Balanced config (regions (since Op.isReset past ++ [eventOf step op a]))
    rw [regions_snoc]
    unfold eventOf
    have hlength := Op.contents_length hsize
    rcases step_cases hsize a with
      ⟨hle, hstep⟩ | ⟨-, hfits, hlimit, hstep⟩ | ⟨-, limit, -, -, hstep⟩
    · rw [hstep]
      rw [← hlength] at hle ⊢
      exact h.carve hle
    · rw [h.config_eq] at hlimit
      have hchunk := h.startChunk hlimit
      rw [hstep]
      rw [← hlength] at hfits hchunk ⊢
      exact hchunk.carve hfits
    · rw [hstep]
      show a.Balanced config (_ ++ [])
      rw [List.append_nil]
      exact h

end Balanced

/-- After any calls, the books are in order. -/
theorem balanced_of_run {events : History} (h : Run step (.ofConfig config) events a) :
    a.Balanced config (regions (since Op.isReset events)) :=
  h.invariant (fun past a => a.Balanced config (regions (since Op.isReset past)))
    (fun _ _ op hbooks => hbooks.snoc op) (balanced_ofConfig config)

end Arena

/-! ## The arena of a store -/

namespace Store

/-- The copy that an update has made in the arena, if the store has accepted it. -/
def copyOf : Event Entry (Except Error Unit) → Option (Event Arena.Op (Except Error Bytes))
  | ⟨e, .ok ()⟩ => some ⟨.copy e.changes, .ok e.changes⟩
  | ⟨_, .error _⟩ => none

/-- Updates use the arena of a store by one copy for each of them that is accepted. -/
theorem arena_run {config : ArenaConfig} {schema : Schema} {events : History} {s : Store}
    (h : Run step (.empty schema config) events s) :
    Run Arena.step (.ofConfig config) (events.filterMap copyOf) s.arena := by
  refine h.project Store.arena copyOf ?_
  intro e s
  unfold eventOf
  rcases step_cases e s with ⟨fault, hstep⟩ | ⟨-, -, arena, hcopy, hstep⟩
  · rw [hstep]
    rfl
  · rw [hstep]
    show Except.ok e.changes = (s.arena.copy e.changes).result ∧
      arena = (s.arena.copy e.changes).state
    rw [hcopy]
    exact ⟨rfl, rfl⟩

/-- The regions of the arena are the change lists that are accepted. -/
theorem regions_copyOf (events : History) :
    Arena.regions (since Arena.Op.isReset (events.filterMap copyOf)) =
      (deltas events).map Entry.changes := by
  have hcopies : ∀ copied ∈ events.filterMap copyOf, copied.call.isReset = false := by
    intro copied hcopied
    obtain ⟨⟨e, answer⟩, -, hcopy⟩ := List.mem_filterMap.1 hcopied
    cases answer with
    | error fault => cases hcopy
    | ok u =>
      cases hcopy
      rfl
  rw [since_eq_self hcopies, Arena.regions, List.filterMap_filterMap, deltas, List.map_filterMap]
  refine List.filterMap_congr fun update _ => ?_
  obtain ⟨e, answer⟩ := update
  cases answer <;> rfl

end Store

/-- **An arena keeps exact books within its limit.** After any calls on an arena, what is used is
what the regions handed out since the last reset take, what is used and what is left of the current
chunk lies in what is reserved, and this keeps to the limit. A call that asks for bytes then fails
exactly if they are more than what is left of the current chunk and more than the limit leaves
unreserved; it reports how many were asked for and the limit, and changes nothing. So after any
updates to a store, the change lists accepted take no more bytes than its footprint, which keeps to
the limit. -/
theorem Arena.accounts_for_regions (config : ArenaConfig) :
    (∀ (events : Arena.History) (a : Arena), Run Arena.step (.ofConfig config) events a →
      a.used = totalSize (regions (since Op.isReset events)) ∧
      a.used + a.free ≤ a.reserved ∧
      (∀ limit ∈ config.limit, a.reserved ≤ limit.toNat) ∧
      ∀ (op : Op) (size : Nat), op.size? = some size →
        ((∃ e, (step op a).1 = .error e) ↔
          a.free < size ∧ ∃ limit ∈ config.limit, limit.toNat - a.reserved < size) ∧
        ∀ e, (step op a).1 = .error e →
          ∃ limit ∈ config.limit, e = .arenaExhausted size limit.toNat ∧ (step op a).2 = a) ∧
    ∀ (schema : Schema) (events : Store.History) (s : Store),
      Run Store.step (.empty schema config) events s →
      totalSize ((Store.deltas events).map Entry.changes) ≤ s.footprint ∧
        ∀ limit ∈ config.limit, s.footprint ≤ limit.toNat := by
  constructor
  case left =>
    intro events a h
    have hbooks := balanced_of_run h
    refine ⟨hbooks.used_eq, hbooks.used_add_free_le, hbooks.reserved_le, fun op size hsize => ?_⟩
    rw [← hbooks.config_eq]
    rcases step_cases hsize a with
      ⟨hle, hstep⟩ | ⟨-, hfits, hkeeps, hstep⟩ | ⟨hlt, limit, hlimit, hleft, hstep⟩
    · rw [hstep]
      exact ⟨iff_of_false nofun fun h => absurd h.1 (Nat.not_lt.2 hle), nofun⟩
    · rw [hstep]
      refine ⟨iff_of_false nofun ?_, nofun⟩
      rintro ⟨-, limit, hlimit, hleft⟩
      exact absurd (hfits.trans (hkeeps limit hlimit)) (Nat.not_le.2 hleft)
    · rw [hstep]
      refine ⟨iff_of_true ⟨_, rfl⟩ ⟨hlt, limit, hlimit, hleft⟩, fun e he => ?_⟩
      exact ⟨limit, hlimit, (Except.error.inj he).symm, rfl⟩
  case right =>
    intro schema events s h
    have hbooks := balanced_of_run (Store.arena_run h)
    rw [Store.regions_copyOf] at hbooks
    refine ⟨?_, hbooks.reserved_le⟩
    calc totalSize ((Store.deltas events).map Entry.changes)
      _ = s.arena.used := hbooks.used_eq.symm
      _ ≤ s.arena.used + s.arena.free := Nat.le_add_right _ _
      _ ≤ s.footprint := hbooks.used_add_free_le

namespace Arena

/-- Chunks of sixteen bytes and more, of which there may be a hundred bytes. -/
def tightConfig : ArenaConfig where
  initial := 16
  cap := 64
  limit := some 100

/-- Some calls, a reset, and calls of which two leave the rest of a chunk behind. Between these two,
a request is refused; the last chunk is cut down to what the limit leaves. -/
def tightCalls : List Op :=
  [.allocate 10, .copy [1, 2, 3, 4, 5, 6, 7], .reset,
    .copy [1, 2, 3], .allocate 0, .allocate 20, .allocate 60, .allocate 40]

/-- After these calls, what is used is the size of the regions since the reset, in chunks of sixteen,
thirty-two and fifty-two bytes. Twelve bytes are left, and twenty more are refused. -/
theorem accounts_for_regions_tight :
    regions (since Op.isReset (execute step tightCalls (.ofConfig tightConfig)).1) =
        [[1, 2, 3], [], List.replicate 20 0, List.replicate 40 0] ∧
      (execute step tightCalls (.ofConfig tightConfig)).2.used = 63 ∧
      (execute step tightCalls (.ofConfig tightConfig)).2.reserved = 100 ∧
      ∃ e, step (.allocate 20) (execute step tightCalls (.ofConfig tightConfig)).2 =
        (.error e, (execute step tightCalls (.ofConfig tightConfig)).2) := by
  have hregions : regions (since Op.isReset (execute step tightCalls (.ofConfig tightConfig)).1) =
      [[1, 2, 3], [], List.replicate 20 0, List.replicate 40 0] := by decide +kernel
  obtain ⟨hused, -, -, hcall⟩ := (accounts_for_regions tightConfig).1 _ _
    (Run.of_execute tightCalls (ofConfig tightConfig))
  obtain ⟨hfails, hunchanged⟩ := hcall (.allocate 20) 20 rfl
  obtain ⟨e, he⟩ := hfails.2 ⟨by decide +kernel, 100, rfl, by decide +kernel⟩
  obtain ⟨limit, -, -, hafter⟩ := hunchanged e he
  refine ⟨hregions, ?_, by decide +kernel, e, Prod.ext he hafter⟩
  rw [hused, hregions]
  decide +kernel

end Arena

end TabletDelta
