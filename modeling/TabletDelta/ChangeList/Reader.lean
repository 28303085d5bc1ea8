import TabletDelta.ChangeList.Basic

/-!
# Reading change lists

A `Reader` walks through the bytes of a change list and yields its assignments one by one. At the
first malformed one it yields the fault and drops the rest, so nothing follows a fault.
`ChangeList.outcomes` is everything that a reader yields, `ChangeList.assignments` the whole list or
its fault, and `ChangeList.validate` only counts.
-/

namespace TabletDelta

namespace ChangeList

/-- Cuts the bytes of one field off the front. -/
def takeField (field : Field) (n : Nat) (bytes : Bytes) :
    Except CorruptionFault (Bytes × Bytes) :=
  match splitBytes? n bytes with
  | some parts => .ok parts
  | none => .error (.truncated field n bytes.length)

/-- Reads a number of `n` bytes off the front. -/
def takeNumber (field : Field) (n : Nat) (bytes : Bytes) : Except CorruptionFault (Nat × Bytes) :=
  (takeField field n bytes).map fun (head, rest) => (ofLittleEndian head, rest)

/-- Reads a cell of a type off the front. -/
def readCell (type : ColumnType) (bytes : Bytes) : Except CorruptionFault (Cell × Bytes) :=
  match type with
  | .bool => do
    let (n, rest) ← takeNumber (.value .bool) 1 bytes
    match n with
    | 0 => pure (.bool false, rest)
    | 1 => pure (.bool true, rest)
    | n => throw (.notBool (UInt8.ofNat n))
  | .uint32 => do
    let (n, rest) ← takeNumber (.value .uint32) 4 bytes
    pure (.uint32 (UInt32.ofNat n), rest)
  | .int32 => do
    let (n, rest) ← takeNumber (.value .int32) 4 bytes
    pure (.int32 (UInt32.ofNat n).toInt32, rest)
  | .uint64 => do
    let (n, rest) ← takeNumber (.value .uint64) 8 bytes
    pure (.uint64 (UInt64.ofNat n), rest)
  | .int64 => do
    let (n, rest) ← takeNumber (.value .int64) 8 bytes
    pure (.int64 (UInt64.ofNat n).toInt64, rest)
  | .string => do
    let (length, rest) ← takeNumber .stringLength 4 bytes
    let (string, rest) ← takeField (.value .string) length rest
    pure (.string string, rest)

/-- Reads an assignment off the front. -/
def readAssignment (schema : Schema) (bytes : Bytes) :
    Except CorruptionFault (Assignment × Bytes) := do
  let (index, rest) ← takeNumber .columnId 4 bytes
  match schema.columns[index]? with
  | none => throw (.unknownColumn index schema.size)
  | some column =>
    let (value, rest) ← readCell column.type rest
    pure (⟨index, value⟩, rest)

theorem takeField_eq_ok {field : Field} {n : Nat} {bytes head rest : Bytes}
    (h : takeField field n bytes = .ok (head, rest)) : bytes = head ++ rest ∧ head.length = n := by
  unfold takeField at h
  split at h
  · next parts hparts => cases h; exact splitBytes?_eq_some hparts
  · cases h

theorem takeNumber_eq_ok {field : Field} {n k : Nat} {bytes rest : Bytes}
    (h : takeNumber field n bytes = .ok (k, rest)) :
    ∃ head, bytes = head ++ rest ∧ head.length = n ∧ k = ofLittleEndian head := by
  unfold takeNumber at h
  cases hfield : takeField field n bytes with
  | error fault => rw [hfield] at h; cases h
  | ok parts =>
    rw [hfield] at h
    cases h
    obtain ⟨happend, hlength⟩ := takeField_eq_ok hfield
    exact ⟨parts.1, happend, hlength, rfl⟩

/-- What is left after a number is a suffix of what it was read from. -/
theorem takeNumber_suffix {field : Field} {n k : Nat} {bytes rest : Bytes}
    (h : takeNumber field n bytes = .ok (k, rest)) : rest <:+ bytes := by
  obtain ⟨head, rfl, -, -⟩ := takeNumber_eq_ok h
  exact List.suffix_append head rest

/-- What is left after a cell is a suffix of what it was read from. -/
theorem readCell_suffix {type : ColumnType} {bytes rest : Bytes} {value : Cell}
    (h : readCell type bytes = .ok (value, rest)) : rest <:+ bytes := by
  cases type <;> simp only [readCell, bind, Except.bind] at h <;> split at h <;> try cases h
  · next hn =>
    split at h <;> cases h <;> exact takeNumber_suffix hn
  · next hn => exact takeNumber_suffix hn
  · next hn => exact takeNumber_suffix hn
  · next hn => exact takeNumber_suffix hn
  · next hn => exact takeNumber_suffix hn
  · next hn =>
    split at h <;> cases h
    next hs =>
    exact List.IsSuffix.trans ⟨_, (takeField_eq_ok hs).1.symm⟩ (takeNumber_suffix hn)

/-- An assignment takes at least the four bytes of its column index. -/
theorem readAssignment_length {schema : Schema} {bytes rest : Bytes} {a : Assignment}
    (h : readAssignment schema bytes = .ok (a, rest)) : rest.length < bytes.length := by
  simp only [readAssignment, bind, Except.bind] at h
  split at h
  · cases h
  · next hn =>
    obtain ⟨head, rfl, hlength, -⟩ := takeNumber_eq_ok hn
    split at h
    · cases h
    · split at h <;> cases h
      next hcell =>
      have hle := (readCell_suffix hcell).length_le
      rw [List.length_append]
      omega

/-- A walk through the bytes of a change list. -/
structure Reader where
  /-- The schema that the list was written against. -/
  schema : Schema
  /-- The bytes not read yet. -/
  rest : Bytes
deriving DecidableEq

namespace Reader

/-- The next assignment, or the fault met in its place, or `none` at the end. Nothing follows a
fault: it drops the rest of the bytes. -/
def next (r : Reader) : Option (Except CorruptionFault Assignment) × Reader :=
  if r.rest.isEmpty then (none, r)
  else
    match readAssignment r.schema r.rest with
    | .ok (a, rest) => (some (.ok a), { r with rest })
    | .error fault => (some (.error fault), { r with rest := [] })

/-- A reader that yields something has less left to read. -/
theorem length_next {r after : Reader} {x : Except CorruptionFault Assignment}
    (h : r.next = (some x, after)) : after.rest.length < r.rest.length := by
  unfold next at h
  split at h
  · cases h
  · next hne =>
    split at h <;> cases h
    · next ha => exact readAssignment_length ha
    · exact List.length_pos_iff.2 (by simpa using hne)

/-- Everything that the reader yields until its end. -/
def toList (r : Reader) : List (Except CorruptionFault Assignment) :=
  match h : r.next with
  | (none, _) => []
  | (some x, after) =>
    have : after.rest.length < r.rest.length := length_next h
    x :: after.toList
termination_by r.rest.length

end Reader

/-- What the bytes hold: assignments, and possibly a fault after them. -/
def outcomes (schema : Schema) (bytes : Bytes) : List (Except CorruptionFault Assignment) :=
  (Reader.mk schema bytes).toList

/-- All assignments of a change list, or its first fault. -/
def assignments (schema : Schema) (bytes : Bytes) : Except CorruptionFault (List Assignment) :=
  (outcomes schema bytes).mapM id

/-- The number of assignments of a well-formed change list. -/
def validate (schema : Schema) (bytes : Bytes) : Except CorruptionFault Nat :=
  (assignments schema bytes).map List.length

end ChangeList

end TabletDelta
