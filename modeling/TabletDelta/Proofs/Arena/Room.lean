import TabletDelta.Arena

/-!
# Room in an arena

Whether an arena can serve a request is decided by its books: by what is left of the current chunk,
and by what the limit leaves for another one (`HasRoom`). A request is cut off the current chunk, or
off a new one that keeps to the limit, or it is refused with the limit (`allocate_cases`). The limit
is looked at before anything is changed, so a request that is refused leaves the arena as it is.
Nothing else can go wrong, and without a limit nothing at all.
-/

namespace TabletDelta.Arena

variable {a : Arena} {size : Nat}

/-- There is room for a request in the current chunk, or in a new one: if there is a limit, it has
to leave that many bytes unreserved. -/
def HasRoom (a : Arena) (size : Nat) : Prop :=
  size ≤ a.free ∨ ∀ limit ∈ a.config.limit, size ≤ limit.toNat - a.reserved

instance (a : Arena) (size : Nat) : Decidable (a.HasRoom size) :=
  -- Decided from the one limit, if there is one: all limits there could be are too many to go
  -- through.
  decidable_of_iff
    (size ≤ a.free ∨ a.config.limit.all fun limit => size ≤ limit.toNat - a.reserved) (by
      unfold HasRoom
      rw [Option.all_eq_true]
      simp only [decide_eq_true_eq]
      rfl)

/-- There is no room for a request that is larger than what is left of the current chunk and than
what the limit leaves unreserved. -/
theorem not_hasRoom_iff :
    ¬ a.HasRoom size ↔
      a.free < size ∧ ∃ limit ∈ a.config.limit, limit.toNat - a.reserved < size := by
  simp only [HasRoom, not_or, Classical.not_forall, Nat.not_le, exists_prop]

/-- The size of the chunk that is started for a request: as large as the next chunk is to be or as
the request needs, and cut down to what the limit leaves. -/
def chunkFor (a : Arena) (size : Nat) : Nat :=
  match a.config.limit with
  | none => max a.nextChunk size
  | some limit => min (max a.nextChunk size) (limit.toNat - a.reserved)

/-- A chunk is started that has room for the request, and for which the limit has room; or the limit
leaves no room for the request, and the arena stays as it is. -/
theorem addChunk_cases (a : Arena) (size : Nat) :
    (size ≤ a.chunkFor size ∧
      (∀ limit ∈ a.config.limit, a.chunkFor size ≤ limit.toNat - a.reserved) ∧
      a.addChunk size = .ok () (a.startChunk (a.chunkFor size))) ∨
    ∃ limit ∈ a.config.limit, limit.toNat - a.reserved < size ∧
      a.addChunk size = .fail (.arenaExhausted size limit.toNat) a := by
  unfold addChunk chunkFor
  cases a.config.limit with
  | none =>
    refine .inl ⟨Nat.le_max_right _ _, fun limit hlimit => ?_, rfl⟩
    exact absurd hlimit (Option.not_mem_none limit)
  | some limit =>
    dsimp only
    by_cases hbudget : limit.toNat - a.reserved < size
    · rw [if_pos hbudget]
      exact .inr ⟨limit, rfl, hbudget, rfl⟩
    · rw [if_neg hbudget]
      refine .inl ⟨?_, fun other hother => ?_, rfl⟩
      · exact Nat.le_min.2 ⟨Nat.le_max_right _ _, Nat.not_lt.1 hbudget⟩
      · cases hother
        exact Nat.min_le_right _ _

/-- A request is cut off the current chunk; or, if this is too small, off a new one that keeps to
the limit; or it is refused, if the limit leaves no room for it, and the arena stays as it is. -/
theorem allocate_cases (a : Arena) (size : Nat) :
    (size ≤ a.free ∧ a.allocate size = .ok (List.replicate size 0) (a.carve size)) ∨
    (a.free < size ∧ size ≤ a.chunkFor size ∧
      (∀ limit ∈ a.config.limit, a.chunkFor size ≤ limit.toNat - a.reserved) ∧
      a.allocate size = .ok (List.replicate size 0)
        ((a.startChunk (a.chunkFor size)).carve size)) ∨
    (a.free < size ∧ ∃ limit ∈ a.config.limit, limit.toNat - a.reserved < size ∧
      a.allocate size = .fail (.arenaExhausted size limit.toNat) a) := by
  unfold allocate
  by_cases hfree : a.free < size
  · rw [if_pos hfree]
    rcases a.addChunk_cases size with ⟨hfits, hlimit, hadd⟩ | ⟨limit, hlimit, hleft, hadd⟩
    · rw [hadd]
      exact .inr (.inl ⟨hfree, hfits, hlimit, rfl⟩)
    · rw [hadd]
      exact .inr (.inr ⟨hfree, limit, hlimit, hleft, rfl⟩)
  · rw [if_neg hfree]
    exact .inl ⟨Nat.not_lt.1 hfree, rfl⟩

/-- A copy is made if there is room for it, and otherwise refused with the limit; the arena then
stays as it is. -/
theorem copy_cases (a : Arena) (bytes : Bytes) :
    (a.HasRoom bytes.length ∧ ∃ after, a.copy bytes = .ok bytes after ∧
      after.config = a.config) ∨
    ¬ a.HasRoom bytes.length ∧ ∃ limit ∈ a.config.limit,
      a.copy bytes = .fail (.arenaExhausted bytes.length limit.toNat) a := by
  unfold copy
  rcases a.allocate_cases bytes.length with
    ⟨hle, h⟩ | ⟨-, hfits, hlimit, h⟩ | ⟨hfree, limit, hlimit, hleft, h⟩
  · rw [h]
    exact .inl ⟨.inl hle, _, rfl, rfl⟩
  · rw [h]
    exact .inl ⟨.inr fun limit hmem => Nat.le_trans hfits (hlimit limit hmem), _, rfl, rfl⟩
  · rw [h]
    exact .inr ⟨not_hasRoom_iff.2 ⟨hfree, limit, hlimit, hleft⟩, limit, hlimit, rfl⟩

end TabletDelta.Arena
