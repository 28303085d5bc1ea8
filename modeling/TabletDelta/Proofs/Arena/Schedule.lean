import TabletDelta.Proofs.Arena.Accounting

/-!
# The sizes of chunks

An arena only keeps the size of its next chunk, which it doubles with each chunk that it adds, as
far as a word can hold it and a cap allows. In closed form this is a power of two times the first
size, cut off at the cap (`scheduled`): the cap is a word itself, so that a word is too small for
the double does not show (`double_scheduled`). To say which chunk is which, an arena is watched from
outside (`Watched`): it has added a chunk whenever its footprint has grown. From what one call does
(`Watched.step_cases`), the sizes of all chunks follow by induction on the calls
(`chunks_keep_schedule`).

The sizes on the schedule are words. Their sum, the footprint, is a number without a bound here, as
in the books; but as long as it is a word, which it always is with a limit, so is every other number
in the books (`Arena.InWords`), and no sum that an arena forms is out of range.
-/

namespace TabletDelta.Arena

/-! ## The schedule -/

/-- The size of chunk number `k`, from 0, if no request needs more and the limit leaves as much: the
first size doubled `k` times, and for all chunks but the first no more than the cap. Sizes are at
least one. -/
def scheduled (config : ArenaConfig) : Nat → Nat
  | 0 => max config.initial.toNat 1
  | k + 1 => min (2 ^ (k + 1) * max config.initial.toNat 1) (max config.cap.toNat 1)

/-- The cap is a word. -/
theorem cap_le_maxSize (config : ArenaConfig) : max config.cap.toNat 1 ≤ maxSize := by
  have hcap := config.cap.toNat_lt
  have hmax : maxSize = 2 ^ 64 - 1 := rfl
  omega

/-- Every size on the schedule is a word. -/
theorem scheduled_le_maxSize (config : ArenaConfig) (k : Nat) : scheduled config k ≤ maxSize := by
  cases k with
  | zero =>
    have hinitial := config.initial.toNat_lt
    have hmax : maxSize = 2 ^ 64 - 1 := rfl
    show max config.initial.toNat 1 ≤ maxSize
    omega
  | succ k => exact (Nat.min_le_right _ _).trans (cap_le_maxSize config)

/-- Doubling a size goes one step on in the schedule: that a word bounds the double makes no
difference, as the cap bounds it as well. -/
theorem double_scheduled (config : ArenaConfig) (k : Nat) :
    double config (scheduled config k) = scheduled config (k + 1) := by
  have hcap := cap_le_maxSize config
  cases k with
  | zero =>
    show min (min (2 * max config.initial.toNat 1) maxSize) (max config.cap.toNat 1) =
      min (2 ^ 1 * max config.initial.toNat 1) (max config.cap.toNat 1)
    omega
  | succ k =>
    have hpow : 2 ^ (k + 2) * max config.initial.toNat 1 =
        2 * (2 ^ (k + 1) * max config.initial.toNat 1) := by
      rw [Nat.pow_succ, Nat.mul_comm (2 ^ (k + 1)) 2, Nat.mul_assoc]
    show min (min (2 * min (2 ^ (k + 1) * max config.initial.toNat 1) (max config.cap.toNat 1))
      maxSize) (max config.cap.toNat 1) =
        min (2 ^ (k + 2) * max config.initial.toNat 1) (max config.cap.toNat 1)
    omega

/-- Twice the first size is one more than a word can hold, and the second size is the cap. -/
example : scheduled { initial := 9223372036854775808, cap := 18446744073709551615 } 1 = maxSize := by
  decide

/-- A size cut down to what a limit, if there is one, leaves beyond some bytes. -/
def cutDown (config : ArenaConfig) (taken size : Nat) : Nat :=
  match config.limit with
  | none => size
  | some limit => min size (limit.toNat - taken)

/-- A new chunk is as large as the next one is to be or as its request, cut down to what the limit
leaves. -/
theorem chunkFor_eq (a : Arena) (size : Nat) :
    a.chunkFor size = cutDown a.config a.reserved (max a.nextChunk size) := rfl

/-! ## Arenas watched -/

/-- A chunk that has been added for a request. -/
structure Chunk where
  /-- The bytes that were asked for. -/
  request : Nat
  /-- The bytes in the chunk. -/
  size : Nat
deriving DecidableEq

/-- The bytes in chunks. -/
def totalChunks (chunks : List Chunk) : Nat := (chunks.map Chunk.size).sum

/-- One more chunk adds its bytes. -/
theorem totalChunks_snoc (chunks : List Chunk) (chunk : Chunk) :
    totalChunks (chunks ++ [chunk]) = totalChunks chunks + chunk.size := by
  unfold totalChunks
  rw [List.map_append, List.sum_append, List.map_singleton, List.sum_singleton]

/-- An arena, and the chunks that it has added since it was last reset. -/
structure Watched where
  /-- The arena. -/
  arena : Arena
  /-- The chunks, the first one first. -/
  chunks : List Chunk
deriving DecidableEq

namespace Watched

/-- An arena without chunks. -/
def ofConfig (config : ArenaConfig) : Watched := ⟨.ofConfig config, []⟩

/-- The chunks after a call that leaves the arena `after`. If its footprint has grown, it has added
a chunk of as many bytes. -/
def chunksAfter (op : Op) (w : Watched) (after : Arena) : List Chunk :=
  match op.size? with
  | none => []
  | some size =>
    if w.arena.reserved < after.reserved then
      w.chunks ++ [⟨size, after.reserved - w.arena.reserved⟩]
    else w.chunks

/-- The watched arena as a machine: it answers as the arena does. -/
def step (op : Op) (w : Watched) : Except Error Bytes × Watched :=
  let (answer, after) := Arena.step op w.arena
  (answer, ⟨after, w.chunksAfter op after⟩)

variable {w : Watched} {config : ArenaConfig} {op : Op} {size : Nat}

/-- Without a growth of the footprint no chunk is added. -/
theorem chunksAfter_of_eq {after : Arena} (hsize : op.size? = some size)
    (h : after.reserved = w.arena.reserved) : w.chunksAfter op after = w.chunks := by
  simp only [chunksAfter, hsize, h]
  exact if_neg (Nat.lt_irrefl _)

/-- A growth of the footprint is a chunk. -/
theorem chunksAfter_of_grown {after : Arena} {chunk : Nat} (hsize : op.size? = some size)
    (h : after.reserved = w.arena.reserved + chunk) (hchunk : 0 < chunk) :
    w.chunksAfter op after = w.chunks ++ [⟨size, chunk⟩] := by
  simp only [chunksAfter, hsize, h, Nat.add_sub_cancel_left]
  exact if_pos (Nat.lt_add_of_pos_right hchunk)

/-- A request is cut off the current chunk; or, if this is too small, off a new one that keeps to
the limit; or it is refused, with nothing changed, if the limit leaves no room for it. -/
theorem step_cases (hsize : op.size? = some size) (w : Watched) :
    (size ≤ w.arena.free ∧
      step op w = (.ok op.contents, ⟨w.arena.carve size, w.chunks⟩)) ∨
    (w.arena.free < size ∧ size ≤ w.arena.chunkFor size ∧
      step op w = (.ok op.contents,
        ⟨(w.arena.startChunk (w.arena.chunkFor size)).carve size,
          w.chunks ++ [⟨size, w.arena.chunkFor size⟩]⟩)) ∨
    (w.arena.free < size ∧ ∃ limit ∈ w.arena.config.limit,
      limit.toNat - w.arena.reserved < size ∧
        step op w = (.error (.arenaExhausted size limit.toNat), w)) := by
  rcases Arena.step_cases hsize w.arena with
    ⟨hle, hstep⟩ | ⟨hlt, hfits, -, hstep⟩ | ⟨hlt, limit, hlimit, hleft, hstep⟩
  · have hsame : (w.arena.carve size).reserved = w.arena.reserved := rfl
    refine .inl ⟨hle, ?_⟩
    simp only [step, hstep]
    rw [chunksAfter_of_eq hsize hsame]
  · have hchunk : 0 < w.arena.chunkFor size :=
      Nat.lt_of_lt_of_le (Nat.zero_lt_of_lt hlt) hfits
    have hgrown : ((w.arena.startChunk (w.arena.chunkFor size)).carve size).reserved =
        w.arena.reserved + w.arena.chunkFor size := rfl
    refine .inr (.inl ⟨hlt, hfits, ?_⟩)
    simp only [step, hstep]
    rw [chunksAfter_of_grown hsize hgrown hchunk]
  · refine .inr (.inr ⟨hlt, limit, hlimit, hleft, ?_⟩)
    simp only [step, hstep]
    rw [chunksAfter_of_eq hsize rfl]

/-- The chunks of a watched arena are those of the schedule. -/
structure OnSchedule (config : ArenaConfig) (w : Watched) : Prop where
  /-- The arena works with these sizes. -/
  config_eq : w.arena.config = config
  /-- The next chunk is the next one of the schedule. -/
  nextChunk_eq : w.arena.nextChunk = scheduled config w.chunks.length
  /-- The footprint is what the chunks take. -/
  reserved_eq : w.arena.reserved = totalChunks w.chunks
  /-- Without a chunk, there is nothing left of one. -/
  free_eq : w.chunks = [] → w.arena.free = 0
  /-- Each chunk has its size by the schedule and its request, cut down to what the limit leaves
  beyond the chunks before it; and its request fits. -/
  size_eq : ∀ k chunk, w.chunks[k]? = some chunk →
    chunk.size = cutDown config (totalChunks (w.chunks.take k))
      (max (scheduled config k) chunk.request) ∧ chunk.request ≤ chunk.size

/-- An arena without chunks is on schedule. -/
theorem onSchedule_ofConfig (config : ArenaConfig) : OnSchedule config (ofConfig config) :=
  ⟨rfl, rfl, rfl, fun _ => rfl, fun k chunk h => by cases h⟩

namespace OnSchedule

/-- What is cut off the current chunk leaves the chunks as they are. -/
theorem carve (h : OnSchedule config w) (size : Nat) :
    OnSchedule config ⟨w.arena.carve size, w.chunks⟩ := by
  refine ⟨h.config_eq, h.nextChunk_eq, h.reserved_eq, fun hnil => ?_, h.size_eq⟩
  show w.arena.free - size = 0
  rw [h.free_eq hnil, Nat.zero_sub]

/-- A new chunk goes one step on in the schedule. -/
theorem startChunk (h : OnSchedule config w) (hfits : size ≤ w.arena.chunkFor size) :
    OnSchedule config ⟨w.arena.startChunk (w.arena.chunkFor size),
      w.chunks ++ [⟨size, w.arena.chunkFor size⟩]⟩ := by
  constructor
  case config_eq => exact h.config_eq
  case nextChunk_eq =>
    show double w.arena.config w.arena.nextChunk = _
    rw [h.config_eq, h.nextChunk_eq, double_scheduled, List.length_append, List.length_singleton]
  case reserved_eq =>
    show w.arena.reserved + w.arena.chunkFor size = _
    rw [h.reserved_eq, totalChunks_snoc]
  case free_eq => exact fun hnil => absurd hnil (List.append_ne_nil_of_right_ne_nil _ nofun)
  case size_eq =>
    intro k chunk hk
    rcases Nat.lt_or_ge k w.chunks.length with hlt | hge
    · -- A chunk that was there before, with the same ones before it.
      rw [List.getElem?_append_left hlt] at hk
      rw [List.take_append_of_le_length (Nat.le_of_lt hlt)]
      exact h.size_eq k chunk hk
    · rw [List.getElem?_append_right hge, List.getElem?_singleton] at hk
      split at hk
      · next hlast =>
        obtain rfl : k = w.chunks.length := by omega
        cases hk
        rw [List.take_left, ← h.reserved_eq, ← h.nextChunk_eq, ← h.config_eq]
        exact ⟨chunkFor_eq w.arena size, hfits⟩
      · cases hk

/-- Each call keeps the arena on schedule. -/
theorem step (h : OnSchedule config w) (op : Op) : OnSchedule config (Watched.step op w).2 := by
  cases hsize : op.size? with
  | none =>
    have hreset : (Watched.step op w).2 = .ofConfig config := by
      simp only [Watched.step, Arena.step_reset hsize, chunksAfter, hsize, reset, h.config_eq]
      rfl
    rw [hreset]
    exact onSchedule_ofConfig config
  | some size =>
    rcases step_cases hsize w with ⟨-, hstep⟩ | ⟨-, hfits, hstep⟩ | ⟨-, limit, -, -, hstep⟩
    · rw [hstep]
      exact h.carve size
    · rw [hstep]
      exact (h.startChunk hfits).carve size
    · rw [hstep]
      exact h

end OnSchedule

/-- After any calls, the arena is on schedule. -/
theorem onSchedule_of_run {events : History} (h : Run step (ofConfig config) events w) :
    OnSchedule config w :=
  h.preserves (OnSchedule config) (fun _ op hw => hw.step op) (onSchedule_ofConfig config)

/-- What is watched is a run of the arena. -/
theorem arena_run {events : History} {start : Watched} (h : Run step start events w) :
    Run Arena.step start.arena events w.arena := by
  induction h with
  | nil w => exact .nil w.arena
  | cons op _ ih => exact .cons op ih

end Watched

/-- Every number in the books is a machine word. -/
structure InWords (a : Arena) : Prop where
  /-- What is left of the current chunk is. -/
  free_le : a.free ≤ maxSize
  /-- The size of the next chunk is. -/
  nextChunk_le : a.nextChunk ≤ maxSize
  /-- The footprint is. -/
  reserved_le : a.reserved ≤ maxSize
  /-- What is used is. -/
  used_le : a.used ≤ maxSize

/-- An arena whose footprint is a word keeps all its books in words: what is used and what is left
lie in the footprint, and the next chunk is on the schedule. -/
theorem inWords_of_reserved_le {config : ArenaConfig} {w : Watched} {given : List Bytes}
    (hbooks : w.arena.Balanced config given) (hschedule : Watched.OnSchedule config w)
    (h : w.arena.reserved ≤ maxSize) : w.arena.InWords := by
  have hused := hbooks.used_add_free_le
  refine ⟨by omega, ?_, h, by omega⟩
  rw [hschedule.nextChunk_eq]
  exact scheduled_le_maxSize config _

/-- **Chunks keep to their schedule.** Take any calls on an arena, and the chunks that it has added
since it was last reset. Its footprint is what the chunks take, and keeps to the limit. The size of
each chunk is the larger one of its request and of its size on the schedule, cut down to what the
limit leaves beyond the chunks before it, and its request fits; every size on the schedule is a
word, and as long as the chunks take no more bytes than a word counts, every number in the books is.
A request that is served adds a chunk exactly if it is larger than what is left of the current
chunk; this is then what the request leaves of the new chunk, and otherwise what it leaves of the
current one. A request is only refused if it needs a chunk that does not fit in the limit, and then
nothing changes. -/
theorem chunks_keep_schedule (config : ArenaConfig) (events : History) (w : Watched)
    (h : Run Watched.step (.ofConfig config) events w) :
    Run Arena.step (.ofConfig config) events w.arena ∧
    w.arena.reserved = totalChunks w.chunks ∧
    (∀ k chunk, w.chunks[k]? = some chunk →
      chunk.size = cutDown config (totalChunks (w.chunks.take k))
        (max (scheduled config k) chunk.request) ∧ chunk.request ≤ chunk.size) ∧
    (∀ k, scheduled config k ≤ maxSize) ∧
    (∀ limit ∈ config.limit, totalChunks w.chunks ≤ limit.toNat) ∧
    (totalChunks w.chunks ≤ maxSize → w.arena.InWords) ∧
    (w.chunks = [] → w.arena.free = 0) ∧
    ∀ (op : Op) (size : Nat), op.size? = some size →
      match w.step op with
      | (.ok _, after) =>
        if w.arena.free < size then
          ∃ chunk, after.chunks = w.chunks ++ [⟨size, chunk⟩] ∧ after.arena.free + size = chunk
        else after.chunks = w.chunks ∧ after.arena.free + size = w.arena.free
      | (.error _, after) =>
        after = w ∧ w.arena.free < size ∧
          ∃ limit ∈ config.limit, limit.toNat - totalChunks w.chunks < size := by
  have hschedule := Watched.onSchedule_of_run h
  have harena := Watched.arena_run h
  have hbooks := balanced_of_run harena
  refine ⟨harena, hschedule.reserved_eq, hschedule.size_eq, scheduled_le_maxSize config,
    hschedule.reserved_eq ▸ hbooks.reserved_le,
    hschedule.reserved_eq ▸ inWords_of_reserved_le hbooks hschedule, hschedule.free_eq,
    fun op size hsize => ?_⟩
  rcases Watched.step_cases hsize w with
    ⟨hle, hstep⟩ | ⟨hlt, hfits, hstep⟩ | ⟨hlt, limit, hlimit, hleft, hstep⟩
  · rw [hstep]
    dsimp only
    rw [if_neg (Nat.not_lt.2 hle)]
    exact ⟨rfl, Nat.sub_add_cancel hle⟩
  · rw [hstep]
    dsimp only
    rw [if_pos hlt]
    exact ⟨_, rfl, Nat.sub_add_cancel hfits⟩
  · rw [hstep]
    rw [hschedule.config_eq] at hlimit
    rw [hschedule.reserved_eq] at hleft
    exact ⟨rfl, hlt, limit, hlimit, hleft⟩

/-- Chunks of twenty-four bytes, then of forty, of which there may be two hundred bytes. -/
def clippedConfig : ArenaConfig where
  initial := 24
  cap := 40
  limit := some 200

/-- A reset, and then calls that add four chunks: by the schedule, by the cap, by the request, and
by what the limit leaves. In between a request fits in the current chunk, and one is refused. -/
def clippedCalls : List Op :=
  [.allocate 60, .reset, .copy [1, 2, 3], .allocate 30, .allocate 10, .allocate 100, .allocate 50,
    .allocate 20]

/-- The last one of the four chunks is cut down to thirty-six bytes. After these calls, sixteen
bytes are left, and a request for one more is refused. The limit keeps the books in words. -/
theorem chunks_keep_schedule_clipped :
    (execute Watched.step clippedCalls (.ofConfig clippedConfig)).2.chunks =
        [⟨3, 24⟩, ⟨30, 40⟩, ⟨100, 100⟩, ⟨20, 36⟩] ∧
      (execute Watched.step clippedCalls (.ofConfig clippedConfig)).2.arena.reserved = 200 ∧
      36 = cutDown clippedConfig 164 (max (scheduled clippedConfig 3) 20) ∧
      (execute Watched.step clippedCalls (.ofConfig clippedConfig)).2.arena.InWords ∧
      (Watched.step (.allocate 17)
        (execute Watched.step clippedCalls (.ofConfig clippedConfig)).2).2 =
          (execute Watched.step clippedCalls (.ofConfig clippedConfig)).2 := by
  have hchunks : (execute Watched.step clippedCalls (.ofConfig clippedConfig)).2.chunks =
      [⟨3, 24⟩, ⟨30, 40⟩, ⟨100, 100⟩, ⟨20, 36⟩] := by decide +kernel
  obtain ⟨-, hreserved, hsizes, -, hlimit, hwords, -, hcall⟩ :=
    chunks_keep_schedule clippedConfig _ _
      (Run.of_execute clippedCalls (Watched.ofConfig clippedConfig))
  have hlast := (hsizes 3 ⟨20, 36⟩ (by rw [hchunks]; rfl)).1
  rw [hchunks] at hreserved hlast
  have hrefused : (Watched.step (.allocate 17)
      (execute Watched.step clippedCalls (.ofConfig clippedConfig)).2).1.toOption = none := by
    decide +kernel
  have houtcome := hcall (.allocate 17) 17 rfl
  refine ⟨hchunks, hreserved, hlast, hwords ((hlimit 200 rfl).trans (by decide)), ?_⟩
  cases hstep : Watched.step (.allocate 17)
      (execute Watched.step clippedCalls (.ofConfig clippedConfig)).2 with
  | mk answer after =>
    rw [hstep] at hrefused houtcome
    cases answer with
    | ok region => cases hrefused
    | error e => exact houtcome.1

end TabletDelta.Arena
