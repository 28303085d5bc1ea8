import TabletDelta.Outcome

/-!
# Arenas

An arena hands out memory in pieces cut from chunks, and this module keeps its books: how much is
left of the current chunk, how large the next chunk will be, how much has been reserved in chunks
and how much of it handed out. A request that does not fit in the current chunk replaces the chunk,
and what was left of it is lost. Chunks double in size up to a cap, a large request gets a chunk of
its own size, and a limit bounds the total of all chunks.
-/

namespace TabletDelta

/-- The largest size that a machine word holds. -/
def maxSize : Nat := UInt64.size - 1

/-- The sizes that an arena works with. -/
structure ArenaConfig where
  /-- The size of the first chunk. -/
  initial : UInt64 := 8192
  /-- The size up to which chunks double. -/
  cap : UInt64 := 1048576
  /-- The most bytes that all chunks together may have. -/
  limit : Option UInt64 := none
deriving DecidableEq, Repr, Inhabited

/-- The books of an arena. -/
structure Arena where
  /-- The sizes it works with. -/
  config : ArenaConfig
  /-- The bytes left in the current chunk. -/
  free : Nat
  /-- The size of the next chunk, if no request needs more and the limit allows it. -/
  nextChunk : Nat
  /-- The bytes in all chunks so far. -/
  reserved : Nat
  /-- The bytes handed out so far. -/
  used : Nat
deriving DecidableEq, Repr

namespace Arena

/-- An arena without chunks. -/
def ofConfig (config : ArenaConfig) : Arena := ⟨config, 0, max config.initial.toNat 1, 0, 0⟩

instance : Inhabited Arena := ⟨ofConfig {}⟩

/-- The size of the chunk after one of size `size`: twice as large as far as a word can hold it, and
no larger than the cap. -/
def double (config : ArenaConfig) (size : Nat) : Nat :=
  min (min (2 * size) maxSize) (max config.cap.toNat 1)

/-- The arena with a new chunk in place of the current one. -/
def startChunk (a : Arena) (chunk : Nat) : Arena :=
  { a with
    free := chunk
    reserved := a.reserved + chunk
    nextChunk := double a.config a.nextChunk }

/-- Starts a chunk that has room for `size` bytes. A limit cuts the chunk down to the bytes that
have not been reserved yet; if these are too few for the request, it fails. -/
def addChunk (a : Arena) (size : Nat) : Outcome Arena Unit :=
  let wanted := max a.nextChunk size
  match a.config.limit with
  | none => .ok () (a.startChunk wanted)
  | some limit =>
    let budget := limit.toNat - a.reserved
    if budget < size then .fail (.arenaExhausted size limit.toNat) a
    else .ok () (a.startChunk (min wanted budget))

/-- Cuts `size` bytes off the current chunk. -/
def carve (a : Arena) (size : Nat) : Arena :=
  { a with free := a.free - size, used := a.used + size }

/-- Hands out `size` zeroed bytes. -/
def allocate (a : Arena) (size : Nat) : Outcome Arena Bytes :=
  if a.free < size then
    match a.addChunk size with
    | ⟨.error e, a⟩ => .fail e a
    | ⟨.ok (), a⟩ => .ok (List.replicate size 0) (a.carve size)
  else .ok (List.replicate size 0) (a.carve size)

/-- Hands out a copy of the bytes, written over the zeros. -/
def copy (a : Arena) (bytes : Bytes) : Outcome Arena Bytes :=
  (a.allocate bytes.length).map fun _ => bytes

/-- Forgets all chunks. -/
def reset (a : Arena) : Arena := ofConfig a.config

end Arena

end TabletDelta
