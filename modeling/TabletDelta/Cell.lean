import TabletDelta.Text.Quoted

/-!
# Column types and cells

A column holds cells of one of six types. A string cell is a byte string: its bytes need not be text
of any encoding.
-/

namespace TabletDelta

/-- The type of a column's cells. -/
inductive ColumnType where
  | bool
  | uint32
  | int32
  | uint64
  | int64
  | string
deriving DecidableEq, Repr, Inhabited

/-- The name of a type, as schemas and messages show it. -/
def ColumnType.name : ColumnType → String
  | .bool => "BOOL"
  | .uint32 => "UINT32"
  | .int32 => "INT32"
  | .uint64 => "UINT64"
  | .int64 => "INT64"
  | .string => "STRING"

/-- One value of a column. -/
inductive Cell where
  | bool (value : Bool)
  | uint32 (value : UInt32)
  | int32 (value : Int32)
  | uint64 (value : UInt64)
  | int64 (value : Int64)
  | string (bytes : Bytes)
deriving DecidableEq, Repr, Inhabited

/-- The type of the columns that a cell belongs in. -/
def Cell.type : Cell → ColumnType
  | .bool _ => .bool
  | .uint32 _ => .uint32
  | .int32 _ => .int32
  | .uint64 _ => .uint64
  | .int64 _ => .int64
  | .string _ => .string

/-- The cell that a slot of a type holds before anything is written to it. -/
def ColumnType.blank : ColumnType → Cell
  | .bool => .bool false
  | .uint32 => .uint32 0
  | .int32 => .int32 0
  | .uint64 => .uint64 0
  | .int64 => .int64 0
  | .string => .string []

@[simp] theorem ColumnType.type_blank (type : ColumnType) : type.blank.type = type := by
  cases type <;> rfl

/-- A cell as text: a truth value by name, a number in decimal, a string in quotes. -/
def Cell.text : Cell → String
  | .bool value => if value then "true" else "false"
  | .uint32 value => toString value.toNat
  | .int32 value => toString value.toInt
  | .uint64 value => toString value.toNat
  | .int64 value => toString value.toInt
  | .string bytes => quoted bytes

end TabletDelta
