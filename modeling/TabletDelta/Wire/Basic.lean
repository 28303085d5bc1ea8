import TabletDelta.Text.Utf8

/-!
# The wire form

Schemas and snapshots travel between processes as byte strings: numbers of a fixed width with the
least significant byte first, counts in eight bytes in front of texts and lists, and for a choice
between alternatives the number of the alternative in four bytes. Parts follow each other in a fixed
order. Reading takes a value off the front and ignores what comes after it.
-/

namespace TabletDelta

/-- A step of reading: it takes bytes off the front or finds a fault. -/
abbrev WireReader (α : Type) := StateT Bytes (Except WireFault) α

namespace WireReader

variable {α : Type}

/-- Reads a number of `width` bytes. -/
def number (width : Nat) : WireReader Nat := fun bytes =>
  match splitBytes? width bytes with
  | some (head, rest) => .ok (ofLittleEndian head, rest)
  | none => .error .endOfInput

/-- Reads the number of one of `count` alternatives. -/
def tag (count : Nat) : WireReader (Fin count) := do
  let n ← number 4
  if h : n < count then pure ⟨n, h⟩ else throw (.unknownTag n count)

/-- Reads a text. -/
def text : WireReader String := do
  let length ← number 8
  let raw ← (fun bytes =>
    match splitBytes? length bytes with
    | some parts => .ok parts
    | none => .error .textPastEnd : WireReader Bytes)
  if h : (ByteArray.mk raw.toArray).IsValidUTF8 then pure (.ofByteArray ⟨raw.toArray⟩ h)
  else throw (.notUtf8 (utf8Fault 0 raw))

/-- Reads the same thing a number of times. -/
def times (item : WireReader α) : Nat → WireReader (List α)
  | 0 => pure []
  | n + 1 => do
    let a ← item
    let as ← times item n
    pure (a :: as)

/-- Reads a count and that many items. -/
def list (item : WireReader α) : WireReader (List α) := do
  let length ← number 8
  item.times length

end WireReader

/-- The bytes of a list: its length and its items. -/
def wireList {α : Type} (item : α → Bytes) (items : List α) : Bytes :=
  littleEndian 8 items.length ++ items.flatMap item

/-- A type whose values have a wire form. -/
class Wire (α : Type) where
  /-- The wire form of a value. -/
  encode : α → Bytes
  /-- Reads a value off the front. -/
  reader : WireReader α

namespace Wire

variable {α : Type} [Wire α]

/-- The value that a byte string starts with. -/
def decode (α : Type) [Wire α] (bytes : Bytes) : Except Error α :=
  match (reader : WireReader α) bytes with
  | .ok (a, _) => .ok a
  | .error fault => .error (.encoding (.undecodable fault))

instance : Wire String where
  encode s := littleEndian 8 s.toByteArray.size ++ s.toByteArray.data.toList
  reader := WireReader.text

end Wire

end TabletDelta
