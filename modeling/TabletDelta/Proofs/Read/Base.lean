import TabletDelta.Proofs.Block.Writing
import TabletDelta.Read.Overlay
import TabletDelta.Read.Scan

/-!
# What is assumed of base data

Base data comes from outside, through the four calls of `BaseSource`. Two records say what is
assumed of them. `BaseSource.Cursor` is about the reader's place alone: the number of rows is fixed,
and calls that succeed move the reader as they say; any of them may fail. `BaseSource.Reliable` adds
that the reader serves fixed data and does not fail within it. Both can be met, by a table in
memory (`Table.reliable`).
-/

namespace TabletDelta

/-- The calls of a reader of base data move a cursor between a fixed number of rows. -/
structure BaseSource.Cursor {β : Type} [BaseSource β] (cursor : β → Nat) : Prop where
  /-- The number of rows fits in a machine word. -/
  rows_le : ∀ b : β, rows b ≤ Scan.maxPosition
  /-- `seek` keeps the number of rows. -/
  seek_rows : ∀ (row : Row) (b : β), rows (seek row b).state = rows b
  /-- `seek` sets the cursor when it succeeds. -/
  seek_cursor : ∀ (row : Row) (b : β), (seek row b).result = .ok () →
    cursor (seek row b).state = row.toNat
  /-- `materialize` keeps the number of rows. -/
  materialize_rows : ∀ (column n : Nat) (b : β) (target : Target),
    rows (materialize column n b target).state.1 = rows b
  /-- `materialize` does not move the cursor when it succeeds. -/
  materialize_cursor : ∀ (column n : Nat) (b : β) (target : Target),
    (materialize column n b target).result = .ok () →
      cursor (materialize column n b target).state.1 = cursor b
  /-- `advance` keeps the number of rows. -/
  advance_rows : ∀ (n : Nat) (b : β), rows (advance n b).state = rows b
  /-- `advance` adds to the cursor when it succeeds. -/
  advance_cursor : ∀ (n : Nat) (b : β), (advance n b).result = .ok () →
    cursor (advance n b).state = cursor b + n

/-- The calls of a reader of base data serve fixed data, one block for each column, and only fail
outside of it or for want of memory. -/
structure BaseSource.Reliable {β : Type} [BaseSource β] (cursor : β → Nat)
    (data : β → List Block) : Prop extends BaseSource.Cursor cursor where
  /-- Each column has all rows. -/
  data_rows : ∀ b : β, ∀ column ∈ data b, column.rows = rows b
  /-- `seek` keeps the data. -/
  seek_data : ∀ (row : Row) (b : β), data (seek row b).state = data b
  /-- `materialize` keeps the data. -/
  materialize_data : ∀ (column n : Nat) (b : β) (target : Target),
    data (materialize column n b target).state.1 = data b
  /-- `advance` keeps the data. -/
  advance_data : ∀ (n : Nat) (b : β), data (advance n b).state = data b
  /-- `seek` to a row or to the end succeeds. -/
  seek_ok : ∀ (row : Row) (b : β), row.toNat ≤ rows b → (seek row b).result = .ok ()
  /-- `advance` up to the end succeeds. -/
  advance_ok : ∀ (n : Nat) (b : β), cursor b + n ≤ rows b → (advance n b).result = .ok ()
  /-- `materialize`, for rows that are there and a block of the column's type with enough slots,
  only fails when the arena is exhausted. -/
  materialize_result : ∀ (column n : Nat) (b : β) (target : Target) (values : Block),
    (data b)[column]? = some values → target.block.type = values.type →
      n ≤ target.block.rows → cursor b + n ≤ rows b →
    (materialize column n b target).result = .ok () ∨ target.arena.config.limit ≠ none ∧
      ∃ requested limit,
        (materialize column n b target).result = .error (.arenaExhausted requested limit)
  /-- `materialize` writes the column's next cells into the first slots when it succeeds. -/
  materialize_overwrites : ∀ (column n : Nat) (b : β) (target : Target) (values : Block),
    (data b)[column]? = some values → cursor b + n ≤ rows b →
      (materialize column n b target).result = .ok () →
    target.block.Overwritten (materialize column n b target).state.2.block fun k =>
      if k < n then values.cells[cursor b + k]? else none
  /-- `materialize` takes memory from the arena and does not change what it is set up with. -/
  materialize_config : ∀ (column n : Nat) (b : β) (target : Target),
    (materialize column n b target).state.2.arena.config = target.arena.config

/-- A table in memory with a cursor on its rows. -/
structure Table where
  /-- The columns. -/
  columns : List Block
  /-- The number of rows. -/
  rows : Nat
  /-- Each column has this number of rows. -/
  rows_eq : ∀ column ∈ columns, column.rows = rows
  /-- The number of rows fits in a machine word. -/
  rows_le : rows ≤ Scan.maxPosition
  /-- The row that the cursor is on. -/
  cursor : Nat
deriving DecidableEq

namespace Table

/-- The cell of a block for a row, blank past the end. -/
def cellAt (values : Block) (row : Nat) : Cell := values.cells.getD row values.type.blank

/-- Copies the cells of the next rows of a column into a block. -/
def copy (column n : Nat) (b : Table) (target : Target) : Outcome (Table × Target) Unit :=
  match b.columns[column]? with
  | none => .fail (.columnOutOfRange column b.columns.length) (b, target)
  | some values =>
    (target.writeAll ((List.range n).map fun k => (k, cellAt values (b.cursor + k)))).mapState
      fun written => (b, written)

instance : BaseSource Table where
  rows := Table.rows
  seek row b := .ok () { b with cursor := row.toNat }
  materialize := copy
  advance n b := .ok () { b with cursor := b.cursor + n }

/-- A cell of a block is of its type. -/
theorem type_cellAt (values : Block) (row : Nat) : (cellAt values row).type = values.type := by
  unfold cellAt
  rw [List.getD_eq_getElem?_getD]
  cases hcell : values.cells[row]? with
  | none => exact ColumnType.type_blank _
  | some cell => exact values.typed cell (List.mem_of_getElem? hcell)

/-- Copying a column leaves the table alone and takes memory from the arena at most. -/
theorem copy_state (column n : Nat) (b : Table) (target : Target) :
    (copy column n b target).state.1 = b ∧
      (copy column n b target).state.2.arena.config = target.arena.config := by
  unfold copy
  split
  · exact ⟨rfl, rfl⟩
  · exact ⟨rfl, (Target.writeAll_written ..).config_eq⟩

/-- Copying a column that is there writes its cells. -/
theorem copy_eq {b : Table} {column : Nat} {values : Block}
    (h : b.columns[column]? = some values) (n : Nat) (target : Target) :
    copy column n b target =
      (target.writeAll ((List.range n).map fun k => (k, cellAt values (b.cursor + k)))).mapState
        fun written => (b, written) := by
  unfold copy
  rw [h]

/-- A table in memory serves its data. -/
theorem reliable : BaseSource.Reliable Table.cursor Table.columns where
  rows_le b := b.rows_le
  seek_rows _ _ := rfl
  seek_cursor _ _ _ := rfl
  materialize_rows column n b target := congrArg Table.rows (copy_state column n b target).1
  materialize_cursor column n b target _ := congrArg Table.cursor (copy_state column n b target).1
  advance_rows _ _ := rfl
  advance_cursor _ _ _ := rfl
  data_rows b := b.rows_eq
  seek_data _ _ := rfl
  materialize_data column n b target := congrArg Table.columns (copy_state column n b target).1
  advance_data _ _ := rfl
  seek_ok _ _ _ := rfl
  advance_ok _ _ _ := rfl
  materialize_result column n b target values hvalues htype hrows _ := by
    show (copy column n b target).result = .ok () ∨ _ ∧ ∃ requested limit,
      (copy column n b target).result = .error (.arenaExhausted requested limit)
    rw [copy_eq hvalues]
    refine (Target.writeAll_result fun w hw => ?_).imp_right And.right
    obtain ⟨k, hk, rfl⟩ := List.mem_map.1 hw
    have hlt := List.mem_range.1 hk
    exact ⟨by omega, (type_cellAt values _).trans htype.symm⟩
  materialize_overwrites column n b target values hvalues hend hok := by
    change (copy column n b target).result = .ok () at hok
    show target.block.Overwritten (copy column n b target).state.2.block _
    rw [copy_eq hvalues] at hok ⊢
    refine (Target.writeAll_overwrites hok).congr fun k _ => ?_
    rw [lastWrite_range]
    by_cases hk : k < n
    · have hrow : b.cursor + k < values.cells.length := by
        have hlength := b.rows_eq values (List.mem_of_getElem? hvalues)
        change b.cursor + n ≤ b.rows at hend
        unfold Block.rows at hlength
        omega
      rw [if_pos hk, if_pos hk, List.getElem?_eq_getElem hrow]
      unfold cellAt
      rw [List.getD_eq_getElem?_getD, List.getElem?_eq_getElem hrow, Option.getD_some]
    · rw [if_neg hk, if_neg hk]
  materialize_config column n b target := (copy_state column n b target).2

end Table

end TabletDelta
