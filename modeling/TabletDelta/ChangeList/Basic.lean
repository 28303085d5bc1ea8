import TabletDelta.Outcome
import TabletDelta.Schema

/-!
# Change lists

A change list records what one transaction assigns to the columns of one row. It is a byte string
without tags, counts or separators: each assignment is the column's index in four bytes followed by
the cell, whose type, and with it its length, comes from the schema.

| type             | bytes of the cell                       |
|------------------|-----------------------------------------|
| `BOOL`           | one byte, 0 or 1                        |
| `UINT32`, `INT32`| four bytes                              |
| `UINT64`, `INT64`| eight bytes                             |
| `STRING`         | the length in four bytes, then the bytes|

Numbers are little-endian, negative ones in two's complement. This module writes change lists;
`TabletDelta.ChangeList.Reader` reads them.
-/

namespace TabletDelta

/-- A new value for a column, named by its index in the schema. -/
structure Assignment where
  /-- The index of the column. -/
  column : Nat
  /-- The value assigned. -/
  value : Cell
deriving DecidableEq, Repr

/-- A column index or a string length has to be below this to fit in four bytes. -/
def wordBound : Nat := UInt32.size

/-- The bytes of a cell in a change list. -/
def Cell.bytes : Cell → Bytes
  | .bool value => [if value then 1 else 0]
  | .uint32 value => littleEndian 4 value.toNat
  | .int32 value => littleEndian 4 value.toUInt32.toNat
  | .uint64 value => littleEndian 8 value.toNat
  | .int64 value => littleEndian 8 value.toUInt64.toNat
  | .string bytes => littleEndian 4 bytes.length ++ bytes

/-- The bytes of a cell, unless it is a string whose length does not fit in four bytes. -/
def Cell.bytes? : Cell → Except EncodingFault Bytes
  | .string bytes =>
    if bytes.length < wordBound then .ok (Cell.string bytes).bytes
    else .error (.longString bytes.length)
  | cell => .ok cell.bytes

/-- The bytes of an assignment in a change list. -/
def Assignment.bytes (a : Assignment) : Bytes :=
  littleEndian 4 a.column ++ a.value.bytes

namespace ChangeList

/-- A change list under construction, against a schema. -/
structure Builder where
  /-- The schema that gives the columns their types. -/
  schema : Schema
  /-- The bytes written so far. -/
  bytes : Bytes := []

namespace Builder

/-- Appends an assignment. A column that is not in the schema, a cell of another type and a column
index of more than four bytes are refused before anything is written. The length of a string is only
looked at after the column index has been written: a string refused as too long leaves the four
bytes of the index behind. -/
def add (b : Builder) (index : Nat) (value : Cell) : Outcome Builder Unit :=
  match b.schema.column index with
  | .error e => .fail e b
  | .ok column =>
    if column.type ≠ value.type then
      .fail (.typeMismatch (.assignment column.name column.type value.type)) b
    else if index ≥ wordBound then
      .fail (.encoding (.wideColumnIndex index)) b
    else
      let started := { b with bytes := b.bytes ++ littleEndian 4 index }
      match value.bytes? with
      | .error fault => .fail (.encoding fault) started
      | .ok cell => .ok () { started with bytes := started.bytes ++ cell }

/-- Forgets what has been written. -/
def clear (b : Builder) : Builder := { b with bytes := [] }

/-- Whether nothing has been written. -/
def isEmpty (b : Builder) : Bool := b.bytes.isEmpty

/-- Appends assignments in order, up to the first that is refused. -/
def addAll (b : Builder) : List Assignment → Outcome Builder Unit
  | [] => .ok () b
  | a :: as =>
    match b.add a.column a.value with
    | ⟨.ok (), added⟩ => added.addAll as
    | ⟨.error e, left⟩ => .fail e left

end Builder

end ChangeList

end TabletDelta
