import TabletDelta.Schema
import TabletDelta.Wire.Basic

/-!
# The wire form of schemas

A type is the number of an alternative, a column its name and its type, and a schema its columns and
the number of keys. The columns and the number of keys that have been read go through
`Schema.ofColumns`, so only schemas can be read.
-/

namespace TabletDelta

namespace ColumnType

/-- The types in the order of their numbers on the wire. -/
def all : List ColumnType := [.bool, .uint32, .int32, .uint64, .int64, .string]

/-- The number of a type on the wire. -/
def tag : ColumnType → Nat
  | .bool => 0
  | .uint32 => 1
  | .int32 => 2
  | .uint64 => 3
  | .int64 => 4
  | .string => 5

/-- The type of a number on the wire. -/
def ofTag (tag : Fin 6) : ColumnType := all[tag]

@[simp] theorem ofTag_tag (type : ColumnType) (h : type.tag < 6) : ofTag ⟨type.tag, h⟩ = type := by
  cases type <;> rfl

end ColumnType

namespace Wire

instance : Wire ColumnType where
  encode type := littleEndian 4 type.tag
  reader := ColumnType.ofTag <$> WireReader.tag 6

instance : Wire Column where
  encode c := encode c.name ++ encode c.type
  reader := do
    let name ← reader
    let type ← reader
    pure ⟨name, type⟩

instance : Wire Schema where
  encode s := wireList encode s.columns ++ littleEndian 8 s.keyCount
  reader := do
    let columns ← WireReader.list reader
    let keyCount ← WireReader.number 8
    match Schema.ofColumns columns keyCount with
    | .ok s => pure s
    | .error fault => throw (.schema fault)

end Wire

end TabletDelta
