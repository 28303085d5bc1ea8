import TabletDelta.Cell
import TabletDelta.Key

/-!
# Failures

Every failure of the library is an `Error`: a kind, and for most kinds a fault that says what
exactly went wrong, with the values involved. The wording is in this module alone: each fault has a
`text`, and `Error.message` puts the kind's words in front of it.
-/

namespace TabletDelta

/-- The calls that have to be made in order, as messages name them. -/
inductive Call where
  | init
  | seek
  | prepareBatch
  | applyUpdates
  | nextBlock
deriving DecidableEq, Repr

/-- The spelling of a call in messages. -/
def Call.label : Call → String
  | .init => "init"
  | .seek => "seek"
  | .prepareBatch => "prepare_batch"
  | .applyUpdates => "apply_updates"
  | .nextBlock => "next_block"

/-- Why a call does not fit the state of the object it was made on. -/
inductive StateFault where
  /-- The call needs another call to have succeeded first. -/
  | tooEarly (call needed : Call)
  /-- A scan is bound to its store only once. -/
  | alreadyInitialized
  /-- A scan does not seek below the end of a batch it has prepared. -/
  | seekBehindBatch (row : Row) (reached : Nat)
  /-- A block is too short for the prepared batch. -/
  | shortBlock (rows batch : Nat)
  /-- A block has no slot of that index. -/
  | cellOutOfBounds (index rows : Nat)
  /-- A side of an overlay failed after the other one had moved. -/
  | poisoned (call : Call) (row : Nat)
  /-- An overlay does not seek past the end of its base. -/
  | seekPastEnd (row : Row) (rows : Nat)
  /-- An overlay does not seek below rows it has produced. -/
  | seekBack (row : Row) (current : Nat)
  /-- A batch needs at least one block. -/
  | noBlocks
  /-- A source of base data reports a failure of its own. -/
  | reported (text : String)
deriving DecidableEq, Repr

/-- The words for a call that does not fit. -/
def StateFault.text : StateFault → String
  | .tooEarly call needed => s!"{call.label} before {needed.label}"
  | .alreadyInitialized => "iterator already initialized"
  | .seekBehindBatch row reached =>
    s!"cannot seek back to row {row.toNat} after preparing up to row {reached}"
  | .shortBlock rows batch => s!"block of {rows} rows cannot hold batch of {batch} rows"
  | .cellOutOfBounds index rows => s!"cell {index} out of bounds for block of {rows} rows"
  | .poisoned call row =>
    s!"{call.label} on applier poisoned by an earlier failure at row {row}"
  | .seekPastEnd row rows => s!"row {row.toNat} past end of {rows} base rows"
  | .seekBack row current => s!"cannot seek back to row {row.toNat} from row {current}"
  | .noBlocks => "no column blocks to fill"
  | .reported text => text

/-- Where two types that should agree do not. -/
inductive TypeFault where
  /-- A block holds cells of another type. -/
  | block (expected found : ColumnType)
  /-- A change list assigns a cell of another type to a column. -/
  | assignment (column : String) (declared given : ColumnType)
  /-- A block is not of the type of the column that should be written to it. -/
  | target (column : String) (declared given : ColumnType)
deriving DecidableEq, Repr

/-- The words for types that differ. -/
def TypeFault.text : TypeFault → String
  | .block expected found => s!"expected {expected.name}, found {found.name}"
  | .assignment column declared given =>
    s!"column '{column}' is {declared.name}, update is {given.name}"
  | .target column declared given =>
    s!"column {column} is {declared.name}, block is {given.name}"

/-- Why a choice of columns is no projection of a schema. -/
inductive ProjectionFault where
  /-- A schema is asked for a column that it does not have. -/
  | unknownColumn (name : String)
  /-- A scan is asked for a column that the store does not have. -/
  | notInStore (name : String)
  /-- A scan is asked for a column under another type than the store's. -/
  | otherType (name : String) (store projected : ColumnType)
deriving DecidableEq, Repr

/-- The words for a bad projection. -/
def ProjectionFault.text : ProjectionFault → String
  | .unknownColumn name => s!"unknown column '{name}'"
  | .notInStore name => s!"column {name} not in store schema"
  | .otherType name store projected =>
    s!"column {name} is {store.name} in store, {projected.name} in projection"

/-- The parts that a change list is read in. -/
inductive Field where
  | columnId
  | stringLength
  | value (type : ColumnType)
deriving DecidableEq, Repr

/-- The words for a part of a change list. -/
def Field.text : Field → String
  | .columnId => "column id"
  | .stringLength => "string length"
  | .value .bool => "bool"
  | .value .uint32 => "u32"
  | .value .int32 => "i32"
  | .value .uint64 => "u64"
  | .value .int64 => "i64"
  | .value .string => "string"

/-- Why bytes are no change list. -/
inductive CorruptionFault where
  /-- The bytes end inside a part that has a length of its own. -/
  | truncated (field : Field) (needed present : Nat)
  /-- The schema has no column of that index. -/
  | unknownColumn (index columns : Nat)
  /-- A truth value is neither 0 nor 1. -/
  | notBool (byte : UInt8)
deriving DecidableEq, Repr

/-- The words for malformed bytes; a byte is shown in hexadecimal without leading zeros. -/
def CorruptionFault.text : CorruptionFault → String
  | .truncated field needed present =>
    s!"truncated {field.text}: need {needed} bytes, have {present}"
  | .unknownColumn index columns =>
    s!"column index {index} not in schema of {columns} columns"
  | .notBool byte => s!"invalid bool byte 0x{String.ofList (Nat.toDigits 16 byte.toNat)}"

/-- Why a list of columns is no schema. -/
inductive SchemaFault where
  /-- More columns are to be keys than there are. -/
  | tooManyKeys (keys columns : Nat)
  /-- Two columns have the same name. -/
  | duplicateName (name : String)
deriving DecidableEq, Repr

/-- The words for a rejected list of columns. -/
def SchemaFault.text : SchemaFault → String
  | .tooManyKeys keys columns =>
    s!"{keys} key columns requested but only {columns} columns defined"
  | .duplicateName name => s!"duplicate column name '{name}'"

/-- Where and how a byte string stops being UTF-8. -/
structure Utf8Fault where
  /-- The length of the longest prefix of whole characters. -/
  validLength : Nat
  /-- The count of bytes after it that no character starts with; `none` if the input ends inside
  what could become a character. -/
  brokenLength : Option Nat
deriving DecidableEq, Repr

/-- The words for bytes that are not UTF-8. -/
def Utf8Fault.text : Utf8Fault → String
  | ⟨validLength, some n⟩ => s!"invalid utf-8 sequence of {n} bytes from index {validLength}"
  | ⟨validLength, none⟩ => s!"incomplete utf-8 byte sequence from index {validLength}"

/-- Why bytes are no wire form. -/
inductive WireFault where
  /-- The input ends inside a number. -/
  | endOfInput
  /-- A text is longer than the rest of the input. -/
  | textPastEnd
  /-- A text is not UTF-8. -/
  | notUtf8 (fault : Utf8Fault)
  /-- No alternative has that number. -/
  | unknownTag (tag alternatives : Nat)
  /-- The columns read form no schema. -/
  | schema (fault : SchemaFault)
  /-- The commit list of a snapshot is not strictly increasing, first at this pair. -/
  | commitOrder (previous next : Txid)
deriving DecidableEq, Repr

/-- Why something cannot be written as bytes, or read from them. -/
inductive EncodingFault where
  /-- A store takes no change list without assignments. -/
  | emptyChangeList
  /-- A column index does not fit in four bytes. -/
  | wideColumnIndex (index : Nat)
  /-- The length of a string does not fit in four bytes. -/
  | longString (length : Nat)
  /-- Bytes are no wire form. -/
  | undecodable (fault : WireFault)
deriving DecidableEq, Repr

/-- What can go wrong. -/
inductive Error where
  /-- A call was made out of order, or with an argument that the object's state rules out. -/
  | invalidState (fault : StateFault)
  /-- A transaction to be resolved is not in flight. -/
  | notInFlight (txid : Txid)
  /-- There is no column of that index. -/
  | columnOutOfRange (index columns : Nat)
  /-- A cell or a block is of another type than its place asks for. -/
  | typeMismatch (fault : TypeFault)
  /-- Columns were asked for that are not there. -/
  | projection (fault : ProjectionFault)
  /-- Bytes are no change list. -/
  | corruption (fault : CorruptionFault)
  /-- An arena cannot serve a request without breaking its limit. -/
  | arenaExhausted (requested limit : Nat)
  /-- A store holds at most one delta per key. -/
  | duplicateDelta (key : Key)
  /-- Columns do not form a schema. -/
  | invalidSchema (fault : SchemaFault)
  /-- Something cannot be written as bytes, or read from them. -/
  | encoding (fault : EncodingFault)
deriving DecidableEq, Repr

/-- The message of a rejected schema, wherever the rejection happens. -/
def SchemaFault.message (fault : SchemaFault) : String := s!"Invalid schema: {fault.text}"

/-- The words for bytes that are no wire form. Where all parts could be read and a check on the
whole fails, these are the whole message of that check. -/
def WireFault.text : WireFault → String
  | .endOfInput => "io error: unexpected end of file"
  | .textPastEnd => "io error: "
  | .notUtf8 fault => s!"string is not valid utf8: {fault.text}"
  | .unknownTag tag alternatives =>
    s!"invalid value: integer `{tag}`, expected variant index 0 <= i < {alternatives}"
  | .schema fault => fault.message
  | .commitOrder previous next =>
    "Encoding error: snapshot commit list not strictly increasing at " ++
      s!"{previous.toNat} -> {next.toNat}"

/-- The words for something that cannot be written or read. -/
def EncodingFault.text : EncodingFault → String
  | .emptyChangeList => "empty change list"
  | .wideColumnIndex index => s!"column index {index} exceeds u32"
  | .longString length => s!"string of {length} bytes is too long"
  | .undecodable fault => s!"Deserialization failed: {fault.text}"

/-- The full message of an error. -/
def Error.message : Error → String
  | .invalidState fault => s!"Invalid state: {fault.text}"
  | .notInFlight txid => s!"Transaction {txid.toNat} is not in flight"
  | .columnOutOfRange index columns => s!"Column index {index} out of range ({columns} columns)"
  | .typeMismatch fault => s!"Type mismatch: {fault.text}"
  | .projection fault => s!"Invalid projection: {fault.text}"
  | .corruption fault => s!"Corrupted change list: {fault.text}"
  | .arenaExhausted requested limit =>
    s!"Arena exhausted: cannot allocate {requested} bytes (limit {limit})"
  | .duplicateDelta key =>
    s!"Delta for row {key.row.toNat} at txid {key.txid.toNat} already exists"
  | .invalidSchema fault => fault.message
  | .encoding fault => s!"Encoding error: {fault.text}"

end TabletDelta
