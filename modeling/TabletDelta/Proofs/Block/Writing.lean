import TabletDelta.Block
import TabletDelta.Proofs.Arena.Room

/-!
# Writing to blocks

What a list of writes makes of a block: each slot holds the last cell written to it, or what it held
before (`writeAll_overwrites`). Writes of the right type within the block can only fail for want of
memory, and that only if they are of strings and the arena has a limit (`writeAll_result`).

`Block.Overwritten` says how a block was changed, slot by slot. It composes, and what readers of
columns promise is said with it. `Target.Written` says what writing leaves alone, also if it fails
half way.
-/

namespace TabletDelta

/-- How a block was changed: the slots for which `value` has a cell hold that cell, and the others
what they held before. -/
structure Block.Overwritten (before after : Block) (value : Nat → Option Cell) : Prop where
  /-- The type stays. -/
  type_eq : after.type = before.type
  /-- The number of slots stays. -/
  rows_eq : after.rows = before.rows
  /-- Each slot holds its value, or what it held before. -/
  cells_eq : ∀ i, after.cells[i]? = before.cells[i]?.map fun old => (value i).getD old

namespace Block.Overwritten

/-- Without values, a block stays as it is. -/
theorem refl (b : Block) : b.Overwritten b fun _ => none :=
  ⟨rfl, rfl, fun i => by simp⟩

/-- Of two changes, the later one counts. -/
theorem trans {a b c : Block} {first second : Nat → Option Cell} (hab : a.Overwritten b first)
    (hbc : b.Overwritten c second) : a.Overwritten c fun i => (second i).or (first i) := by
  refine ⟨hbc.type_eq.trans hab.type_eq, hbc.rows_eq.trans hab.rows_eq, fun i => ?_⟩
  rw [hbc.cells_eq, hab.cells_eq, Option.map_map]
  congr 1
  funext old
  cases second i <;> rfl

/-- Only the values of the block's slots matter. -/
theorem congr {a b : Block} {value value' : Nat → Option Cell} (h : a.Overwritten b value)
    (hvalue : ∀ i < a.rows, value i = value' i) : a.Overwritten b value' := by
  refine ⟨h.type_eq, h.rows_eq, fun i => ?_⟩
  rw [h.cells_eq]
  by_cases hi : i < a.rows
  · rw [hvalue i hi]
  · rw [List.getElem?_eq_none (Nat.not_lt.1 hi)]
    rfl

/-- The values determine what becomes of a block. -/
theorem unique {a b c : Block} {value : Nat → Option Cell} (hb : a.Overwritten b value)
    (hc : a.Overwritten c value) : b = c := by
  have htype : b.type = c.type := hb.type_eq.trans hc.type_eq.symm
  have hcells : b.cells = c.cells := List.ext_getElem? fun i => by
    rw [hb.cells_eq, hc.cells_eq]
  cases b
  cases c
  cases htype
  cases hcells
  rfl

end Block.Overwritten

/-- What stays when a target is written to, be it with success or not. -/
structure Target.Written (before after : Target) : Prop where
  /-- The type of the block stays. -/
  type_eq : after.block.type = before.block.type
  /-- Its number of slots stays. -/
  rows_eq : after.block.rows = before.block.rows
  /-- What the arena is set up with stays. -/
  config_eq : after.arena.config = before.arena.config

namespace Target.Written

/-- A target that is left alone stays as it was. -/
theorem refl (t : Target) : t.Written t := ⟨rfl, rfl, rfl⟩

/-- What stays in two steps stays in both together. -/
theorem trans {a b c : Target} (hab : a.Written b) (hbc : b.Written c) : a.Written c :=
  ⟨hbc.type_eq.trans hab.type_eq, hbc.rows_eq.trans hab.rows_eq,
    hbc.config_eq.trans hab.config_eq⟩

end Target.Written

/-- The last cell that a list of writes puts into a slot. -/
def lastWrite (writes : List (Nat × Cell)) (i : Nat) : Option Cell :=
  (writes.filterMap fun w => if w.1 = i then some w.2 else none).getLast?

/-- A write before others counts only for a slot that the others leave alone. -/
theorem lastWrite_cons (w : Nat × Cell) (writes : List (Nat × Cell)) (i : Nat) :
    lastWrite (w :: writes) i =
      (lastWrite writes i).or (if w.1 = i then some w.2 else none) := by
  unfold lastWrite
  rw [List.filterMap_cons]
  by_cases h : w.1 = i
  · simp [h, List.getLast?_cons]
  · simp [h]

/-- Cells written to consecutive slots from the first one on are each the last in their slot. -/
theorem lastWrite_range (n : Nat) (value : Nat → Cell) (i : Nat) :
    lastWrite ((List.range n).map fun k => (k, value k)) i =
      if i < n then some (value i) else none := by
  unfold lastWrite
  rw [List.filterMap_map]
  induction n with
  | zero => rfl
  | succ n ih =>
    rw [List.range_succ, List.filterMap_append, List.getLast?_append, ih]
    by_cases hi : n = i
    · subst hi
      simp
    · have hlt : i < n + 1 ↔ i < n := by omega
      simp [hi, hlt]

namespace Target

/-- Copying what a cell takes in memory only fails for want of memory for a string, and then the
arena stays as it is. -/
theorem reserve_cases (a : Arena) (cell : Cell) :
    (∃ after, reserve a cell = .ok () after ∧ after.config = a.config) ∨
      cell.type = .string ∧ ∃ requested, ∃ limit ∈ a.config.limit,
        reserve a cell = .fail (.arenaExhausted requested limit.toNat) a := by
  cases cell with
  | string bytes =>
    rw [reserve]
    rcases a.copy_cases bytes with ⟨-, after, h, hconfig⟩ | ⟨-, limit, hlimit, h⟩
    · rw [h]
      exact .inl ⟨after, rfl, hconfig⟩
    · rw [h]
      exact .inr ⟨rfl, bytes.length, limit, hlimit, rfl⟩
  | bool _ | uint32 _ | int32 _ | uint64 _ | int64 _ => exact .inl ⟨a, rfl, rfl⟩

/-- A cell put into a slot is what becomes of the block. -/
theorem overwritten_put {b : Block} {index : Nat} {cell : Cell} (hindex : index < b.rows)
    (htype : cell.type = b.type) :
    b.Overwritten (b.put index cell htype) fun i => if index = i then some cell else none := by
  refine ⟨rfl, List.length_set .., fun i => ?_⟩
  show (b.cells.set index cell)[i]? = _
  rw [List.getElem?_set]
  split
  · next heq =>
    have hi : i < b.cells.length := heq ▸ hindex
    rw [if_pos (heq ▸ hi), List.getElem?_eq_getElem hi]
    rfl
  · cases b.cells[i]? <;> rfl

/-- A write of the right type within the block puts its cell into its slot, or it fails for want of
memory for a string, and the target stays as it is. -/
theorem set_result {t : Target} {index : Nat} {cell : Cell} (hindex : index < t.block.rows)
    (htype : cell.type = t.block.type) :
    (∃ after, t.set index cell = .ok () after ∧ t.Written after ∧
      t.block.Overwritten after.block fun i => if index = i then some cell else none) ∨
    t.block.type = .string ∧ ∃ requested, ∃ limit ∈ t.arena.config.limit,
      t.set index cell = .fail (.arenaExhausted requested limit.toNat) t := by
  unfold set
  rw [if_pos hindex, dif_pos htype]
  rcases reserve_cases t.arena cell with
    ⟨arena, h, hconfig⟩ | ⟨hstring, requested, limit, hlimit, h⟩
  · rw [h]
    have hput := overwritten_put hindex htype
    exact .inl ⟨_, rfl, ⟨hput.type_eq, hput.rows_eq, hconfig⟩, hput⟩
  · rw [h]
    exact .inr ⟨htype.symm.trans hstring, requested, limit, hlimit, rfl⟩

/-- A write puts its cell into its slot, or it fails and the target stays as it is. -/
theorem set_cases (t : Target) (index : Nat) (cell : Cell) :
    (∃ after, t.set index cell = .ok () after ∧ t.Written after ∧
      t.block.Overwritten after.block fun i => if index = i then some cell else none) ∨
    ∃ e, t.set index cell = .fail e t := by
  by_cases hindex : index < t.block.rows
  · by_cases htype : cell.type = t.block.type
    · exact (set_result hindex htype).imp_right fun ⟨_, _, _, _, h⟩ => ⟨_, h⟩
    · refine .inr ⟨.typeMismatch (.block t.block.type cell.type), ?_⟩
      rw [set, if_pos hindex, dif_neg htype]
  · refine .inr ⟨.invalidState (.cellOutOfBounds index t.block.rows), ?_⟩
    rw [set, if_neg hindex]

/-- After writes that all succeed, each slot holds the last cell written to it. -/
theorem writeAll_overwrites {t : Target} {writes : List (Nat × Cell)}
    (h : (t.writeAll writes).result = .ok ()) :
    t.block.Overwritten (t.writeAll writes).state.block (lastWrite writes) := by
  induction writes generalizing t with
  | nil => exact .refl t.block
  | cons w writes ih =>
    obtain ⟨index, cell⟩ := w
    unfold writeAll at h ⊢
    rcases t.set_cases index cell with ⟨written, hset, -, hput⟩ | ⟨e, hset⟩
    · rw [hset] at h ⊢
      -- The rest is written later, so it counts where it writes to the same slot.
      have hrest := hput.trans (ih h)
      refine hrest.congr fun i _ => ?_
      rw [lastWrite_cons]
    · rw [hset] at h
      cases h

/-- Writes leave the type and the number of slots of the block alone, and what the arena is set up
with, also if they fail half way. -/
theorem writeAll_written (t : Target) (writes : List (Nat × Cell)) :
    t.Written (t.writeAll writes).state := by
  induction writes generalizing t with
  | nil => exact .refl t
  | cons w writes ih =>
    obtain ⟨index, cell⟩ := w
    unfold writeAll
    rcases t.set_cases index cell with ⟨written, hset, hwritten, -⟩ | ⟨e, hset⟩
    · rw [hset]
      exact hwritten.trans (ih written)
    · rw [hset]
      exact .refl t

/-- Writes of the right type within the block only fail for want of memory for strings. -/
theorem writeAll_result {t : Target} {writes : List (Nat × Cell)}
    (h : ∀ w ∈ writes, w.1 < t.block.rows ∧ w.2.type = t.block.type) :
    (t.writeAll writes).result = .ok () ∨
      t.block.type = .string ∧ t.arena.config.limit ≠ none ∧
        ∃ requested limit,
          (t.writeAll writes).result = .error (.arenaExhausted requested limit) := by
  induction writes generalizing t with
  | nil => exact .inl rfl
  | cons w writes ih =>
    obtain ⟨index, cell⟩ := w
    obtain ⟨hindex, htype⟩ := h (index, cell) List.mem_cons_self
    unfold writeAll
    rcases set_result hindex htype with
      ⟨written, hset, hwritten, -⟩ | ⟨hstring, requested, limit, hlimit, hset⟩
    · rw [hset]
      -- The block has kept its type and its slots, and the arena its limit.
      rw [← hwritten.config_eq, ← hwritten.type_eq]
      refine ih fun v hv => ?_
      rw [hwritten.rows_eq, hwritten.type_eq]
      exact h v (List.mem_cons_of_mem _ hv)
    · rw [hset]
      refine .inr ⟨hstring, ?_, requested, limit.toNat, rfl⟩
      rw [hlimit]
      exact Option.some_ne_none limit

end Target

end TabletDelta
