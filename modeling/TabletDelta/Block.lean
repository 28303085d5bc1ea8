import TabletDelta.Arena

/-!
# Blocks

A block is a fixed number of slots for cells of one type, to be filled by a reader with consecutive
rows of a column. The bytes of the strings in it live in an arena, so writing goes through a
`Target`, a block together with its arena: it takes memory for each string written, and fails when
the arena is exhausted.
-/

namespace TabletDelta

/-- Slots for cells of one type. -/
structure Block where
  /-- The type of the cells. -/
  type : ColumnType
  /-- The cells, by slot. -/
  cells : List Cell
  /-- Every cell is of the block's type. -/
  typed : ∀ c ∈ cells, c.type = type
deriving DecidableEq

namespace Block

/-- A block of blank cells. -/
def blank (type : ColumnType) (rows : Nat) : Block where
  type := type
  cells := List.replicate rows type.blank
  typed := fun c hc => by rw [List.eq_of_mem_replicate hc, ColumnType.type_blank]

/-- The number of slots. -/
def rows (b : Block) : Nat := b.cells.length

/-- The block with a cell of its type put into a slot. -/
def put (b : Block) (index : Nat) (cell : Cell) (h : cell.type = b.type) : Block where
  type := b.type
  cells := b.cells.set index cell
  typed := fun c hc => (List.mem_or_eq_of_mem_set hc).elim (b.typed c) fun hcell => hcell ▸ h

/-- The cell in a slot. -/
def cell (b : Block) (index : Nat) : Except Error Cell :=
  match b.cells[index]? with
  | some c => .ok c
  | none => .error (.invalidState (.cellOutOfBounds index b.rows))

/-- All cells, for a reader that expects them to be of a type. -/
def read (b : Block) (type : ColumnType) : Except Error (List Cell) :=
  if b.type = type then .ok b.cells else .error (.typeMismatch (.block type b.type))

/-- Puts a cell into a slot, for a writer that takes the block to be of the cell's type. There is
no arena to hold the bytes of a string: this is for cells of a fixed size. -/
def poke (b : Block) (index : Nat) (cell : Cell) : Outcome Block Unit :=
  if h : cell.type = b.type then
    if index < b.rows then .ok () (b.put index cell h)
    else .fail (.invalidState (.cellOutOfBounds index b.rows)) b
  else .fail (.typeMismatch (.block cell.type b.type)) b

end Block

/-- A block to write to and the arena that holds the bytes of its strings. -/
structure Target where
  /-- The block. -/
  block : Block
  /-- The arena. -/
  arena : Arena
deriving DecidableEq

namespace Target

/-- Copies what a cell takes in memory to the arena: the bytes of a string, and nothing else. -/
def reserve (a : Arena) : Cell → Outcome Arena Unit
  | .string bytes => (a.copy bytes).map fun _ => ()
  | _ => .ok () a

/-- Writes a cell into a slot. A slot out of bounds is reported before a cell of the wrong type, and
that before an exhausted arena. -/
def set (t : Target) (index : Nat) (cell : Cell) : Outcome Target Unit :=
  if index < t.block.rows then
    if h : cell.type = t.block.type then
      match reserve t.arena cell with
      | ⟨.error e, arena⟩ => .fail e { t with arena }
      | ⟨.ok (), arena⟩ => .ok () ⟨t.block.put index cell h, arena⟩
    else .fail (.typeMismatch (.block t.block.type cell.type)) t
  else .fail (.invalidState (.cellOutOfBounds index t.block.rows)) t

/-- Writes cells into slots in order, up to the first failure. What has been written stays. -/
def writeAll (t : Target) : List (Nat × Cell) → Outcome Target Unit
  | [] => .ok () t
  | (index, cell) :: writes =>
    match t.set index cell with
    | ⟨.error e, t⟩ => .fail e t
    | ⟨.ok (), t⟩ => t.writeAll writes

/-- Writes the same cell into every slot. -/
def fill (t : Target) (cell : Cell) : Outcome Target Unit :=
  t.writeAll ((List.range t.block.rows).map fun index => (index, cell))

end Target

end TabletDelta
