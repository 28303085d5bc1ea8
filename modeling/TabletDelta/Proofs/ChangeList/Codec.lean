import TabletDelta.Proofs.Bytes
import TabletDelta.Proofs.ChangeList.Typed
import TabletDelta.Proofs.Schema

/-!
# Change lists are written and read back

A change list carries no tags, counts or separators, and still its bytes and its assignments
determine each other. What is read off the front of some bytes is an assignment that can be written,
and its bytes are those that stood there (`readAssignment_eq_ok_iff`). By induction on the
assignments, a reader yields them without a fault exactly if they can all be written and the bytes
are theirs (`outcomes_eq_iff`), which is also when a builder writes these bytes
(`Builder.addAll_eq_ok_iff`). So writing and reading are inverse to each other
(`written_iff_read`).
-/

namespace TabletDelta

/-- An assignment that can be written for a schema: it fits the schema, and neither its column index
nor the length of its string takes more than four bytes. -/
structure Assignment.Writable (schema : Schema) (a : Assignment) : Prop where
  /-- The assignment fits the schema. -/
  fits : a.Fits schema
  /-- The column index takes four bytes. -/
  column_lt : a.column < wordBound
  /-- The cell has a form in bytes. -/
  bytes?_eq : a.value.bytes? = .ok a.value.bytes

/-- A cell that has a form in bytes has no other one. -/
theorem Cell.bytes?_eq_ok {value : Cell} {bytes : Bytes} (h : value.bytes? = .ok bytes) :
    bytes = value.bytes := by
  cases value with
  | string string =>
    by_cases hlength : string.length < wordBound
    · rw [Cell.bytes?, if_pos hlength] at h
      exact (Except.ok.inj h).symm
    · rw [Cell.bytes?, if_neg hlength] at h
      cases h
  | bool | uint32 | int32 | uint64 | int64 => exact (Except.ok.inj h).symm

namespace ChangeList

/-! ## Fields -/

/-- A field is read off the front if it stands there. -/
theorem takeField_append (field : Field) (head rest : Bytes) :
    takeField field head.length (head ++ rest) = .ok (head, rest) := by
  unfold takeField
  rw [splitBytes?_append]

/-- A number is read off the front exactly if it fits in its bytes and they stand there. -/
theorem takeNumber_eq_ok_iff {field : Field} {width n : Nat} {bytes rest : Bytes} :
    takeNumber field width bytes = .ok (n, rest) ↔
      n < 256 ^ width ∧ bytes = littleEndian width n ++ rest := by
  constructor
  · intro h
    obtain ⟨head, rfl, rfl, rfl⟩ := takeNumber_eq_ok h
    exact ⟨ofLittleEndian_lt head, by rw [littleEndian_ofLittleEndian]⟩
  · rintro ⟨hn, rfl⟩
    have hfield := takeField_append field (littleEndian width n) rest
    rw [length_littleEndian] at hfield
    unfold takeNumber
    rw [hfield]
    show Except.ok (ofLittleEndian (littleEndian width n), rest) = _
    rw [ofLittleEndian_littleEndian hn]

/-- Four bytes hold the numbers below the word bound. -/
theorem wordBound_eq : 256 ^ 4 = wordBound := rfl

/-! ## Cells -/

/-- A cell that is made of a number is read off the front exactly if the number is. -/
theorem readNumber_eq_ok_iff (cell : Nat → Cell) {field : Field} {width : Nat} {value : Cell}
    {bytes rest : Bytes} :
    (do
      let parts ← takeNumber field width bytes
      pure (cell parts.1, parts.2)) = Except.ok (value, rest) ↔
      ∃ n < 256 ^ width, bytes = littleEndian width n ++ rest ∧ value = cell n := by
  constructor
  · intro h
    cases hn : takeNumber field width bytes with
    | error fault =>
      rw [hn] at h
      cases h
    | ok parts =>
      rw [hn] at h
      cases h
      obtain ⟨hlt, hbytes⟩ := takeNumber_eq_ok_iff.1 hn
      exact ⟨parts.1, hlt, hbytes, rfl⟩
  · rintro ⟨n, hlt, hbytes, rfl⟩
    rw [takeNumber_eq_ok_iff.2 ⟨hlt, hbytes⟩]
    rfl

/-- A cell is read back from its bytes. -/
theorem readCell_bytes {value : Cell} (h : value.bytes? = .ok value.bytes) (rest : Bytes) :
    readCell value.type (value.bytes ++ rest) = .ok (value, rest) := by
  cases value with
  | bool value => cases value <;> rfl
  | uint32 value =>
    have hlt : value.toNat < 256 ^ 4 := value.toNat_lt
    simp only [Cell.type, readCell]
    refine (readNumber_eq_ok_iff fun n => .uint32 (UInt32.ofNat n)).2
      ⟨value.toNat, hlt, rfl, ?_⟩
    rw [UInt32.ofNat_toNat]
  | int32 value =>
    have hlt : value.toUInt32.toNat < 256 ^ 4 := value.toUInt32.toNat_lt
    simp only [Cell.type, readCell]
    refine (readNumber_eq_ok_iff fun n => .int32 (UInt32.ofNat n).toInt32).2
      ⟨value.toUInt32.toNat, hlt, rfl, ?_⟩
    rw [UInt32.ofNat_toNat, Int32.toInt32_toUInt32]
  | uint64 value =>
    have hlt : value.toNat < 256 ^ 8 := value.toNat_lt
    simp only [Cell.type, readCell]
    refine (readNumber_eq_ok_iff fun n => .uint64 (UInt64.ofNat n)).2
      ⟨value.toNat, hlt, rfl, ?_⟩
    rw [UInt64.ofNat_toNat]
  | int64 value =>
    have hlt : value.toUInt64.toNat < 256 ^ 8 := value.toUInt64.toNat_lt
    simp only [Cell.type, readCell]
    refine (readNumber_eq_ok_iff fun n => .int64 (UInt64.ofNat n).toInt64).2
      ⟨value.toUInt64.toNat, hlt, rfl, ?_⟩
    rw [UInt64.ofNat_toNat, Int64.toInt64_toUInt64]
  | string bytes =>
    have hlength : bytes.length < 256 ^ 4 := by
      rw [wordBound_eq]
      by_contra hlong
      rw [Cell.bytes?, if_neg hlong] at h
      cases h
    have hn : takeNumber .stringLength 4 ((Cell.string bytes).bytes ++ rest) =
        .ok (bytes.length, bytes ++ rest) :=
      takeNumber_eq_ok_iff.2 ⟨hlength, List.append_assoc ..⟩
    simp only [readCell, Cell.type, hn, bind, Except.bind, pure, Except.pure, takeField_append]

/-- A cell that was read can be written, and its bytes stood there. -/
theorem bytes_of_readCell {type : ColumnType} {value : Cell} {bytes rest : Bytes}
    (h : readCell type bytes = .ok (value, rest)) :
    value.bytes? = .ok value.bytes ∧ bytes = value.bytes ++ rest := by
  cases type with
  | bool =>
    simp only [readCell, bind, Except.bind] at h
    split at h
    · cases h
    · next n hn =>
      obtain ⟨-, rfl⟩ := takeNumber_eq_ok_iff.1 hn
      split at h
      · next hzero =>
        cases h
        exact ⟨rfl, by rw [hzero]; rfl⟩
      · next hone =>
        cases h
        exact ⟨rfl, by rw [hone]; rfl⟩
      · cases h
  | uint32 =>
    simp only [readCell] at h
    obtain ⟨n, hlt, rfl, rfl⟩ :=
      (readNumber_eq_ok_iff fun n => .uint32 (UInt32.ofNat n)).1 h
    exact ⟨rfl, by rw [Cell.bytes, UInt32.toNat_ofNat_of_lt' hlt]⟩
  | int32 =>
    simp only [readCell] at h
    obtain ⟨n, hlt, rfl, rfl⟩ :=
      (readNumber_eq_ok_iff fun n => .int32 (UInt32.ofNat n).toInt32).1 h
    exact ⟨rfl, by rw [Cell.bytes, UInt32.toUInt32_toInt32, UInt32.toNat_ofNat_of_lt' hlt]⟩
  | uint64 =>
    simp only [readCell] at h
    obtain ⟨n, hlt, rfl, rfl⟩ :=
      (readNumber_eq_ok_iff fun n => .uint64 (UInt64.ofNat n)).1 h
    exact ⟨rfl, by rw [Cell.bytes, UInt64.toNat_ofNat_of_lt' hlt]⟩
  | int64 =>
    simp only [readCell] at h
    obtain ⟨n, hlt, rfl, rfl⟩ :=
      (readNumber_eq_ok_iff fun n => .int64 (UInt64.ofNat n).toInt64).1 h
    exact ⟨rfl, by rw [Cell.bytes, UInt64.toUInt64_toInt64, UInt64.toNat_ofNat_of_lt' hlt]⟩
  | string =>
    simp only [readCell, bind, Except.bind] at h
    split at h
    · cases h
    · next parts hn =>
      obtain ⟨hlt, hbytes⟩ := takeNumber_eq_ok_iff.1 hn
      split at h
      · cases h
      · next hfield =>
        obtain ⟨happend, hlength⟩ := takeField_eq_ok hfield
        cases h
        rw [← hlength, wordBound_eq] at hlt
        refine ⟨if_pos hlt, ?_⟩
        rw [hbytes, Cell.bytes, List.append_assoc, hlength, happend]

/-! ## Assignments -/

/-- What is read off the front is an assignment that can be written, and its bytes stood there. -/
theorem readAssignment_eq_ok_iff {schema : Schema} {a : Assignment} {bytes rest : Bytes} :
    readAssignment schema bytes = .ok (a, rest) ↔
      a.Writable schema ∧ bytes = a.bytes ++ rest := by
  constructor
  · intro h
    have hfits := readAssignment_fits h
    simp only [readAssignment, bind, Except.bind] at h
    split at h
    · cases h
    · next hn =>
      obtain ⟨hlt, hbytes⟩ := takeNumber_eq_ok_iff.1 hn
      split at h
      · cases h
      · split at h
        · cases h
        · next hcell =>
          obtain ⟨hvalue, hrest⟩ := bytes_of_readCell hcell
          cases h
          refine ⟨⟨hfits, hlt, hvalue⟩, ?_⟩
          rw [hbytes, hrest, Assignment.bytes, List.append_assoc]
  · rintro ⟨⟨⟨column, hcolumn, htype⟩, hlt, hvalue⟩, rfl⟩
    have hindex : takeNumber .columnId 4 (a.bytes ++ rest) =
        .ok (a.column, a.value.bytes ++ rest) :=
      takeNumber_eq_ok_iff.2 ⟨hlt, List.append_assoc ..⟩
    have hcell : readCell column.type (a.value.bytes ++ rest) = .ok (a.value, rest) := by
      rw [← htype]
      exact readCell_bytes hvalue rest
    simp only [readAssignment, hindex, bind, Except.bind, hcolumn, hcell, pure, Except.pure]

/-! ## Lists -/

variable {schema : Schema}

/-- A reader yields what it yields next, and then what it yields from there. -/
theorem Reader.toList_of_next {r after : Reader} {x : Except CorruptionFault Assignment}
    (h : r.next = (some x, after)) : r.toList = x :: after.toList := by
  rw [toList]
  split
  · next hend =>
    rw [h] at hend
    cases hend
  · next hnext =>
    rw [h] at hnext
    cases hnext
    rfl

/-- Nothing is yielded from no bytes. -/
theorem outcomes_nil : outcomes schema [] = [] := by
  unfold outcomes
  rw [Reader.toList]
  rfl

/-- An assignment that is read is yielded, and then what is yielded from the rest. -/
theorem outcomes_of_ok {a : Assignment} {bytes rest : Bytes}
    (h : readAssignment schema bytes = .ok (a, rest)) :
    outcomes schema bytes = .ok a :: outcomes schema rest := by
  have hlength := readAssignment_length h
  have hne : ¬ bytes.isEmpty = true := by
    rw [List.isEmpty_iff]
    rintro rfl
    exact absurd hlength (Nat.not_lt_zero _)
  refine Reader.toList_of_next ?_
  unfold Reader.next
  dsimp only
  rw [if_neg hne, h]

/-- A fault met is yielded, and nothing after it. -/
theorem outcomes_of_error {bytes : Bytes} {fault : CorruptionFault} (hne : bytes ≠ [])
    (h : readAssignment schema bytes = .error fault) :
    outcomes schema bytes = [.error fault] := by
  have hnext : (Reader.mk schema bytes).next = (some (.error fault), ⟨schema, []⟩) := by
    unfold Reader.next
    dsimp only
    rw [if_neg (mt List.isEmpty_iff.1 hne), h]
  rw [outcomes, Reader.toList_of_next hnext]
  exact congrArg _ outcomes_nil

/-- A reader yields assignments without a fault exactly if they can be written and the bytes are
theirs, one after the other. -/
theorem outcomes_eq_iff {as : List Assignment} {bytes : Bytes} :
    outcomes schema bytes = as.map .ok ↔
      (∀ a ∈ as, a.Writable schema) ∧ bytes = as.flatMap Assignment.bytes := by
  induction as generalizing bytes with
  | nil =>
    constructor
    · intro h
      -- From some bytes something is yielded, be it a fault.
      by_contra hne
      have hne : bytes ≠ [] := fun hnil => hne ⟨by simp, hnil⟩
      cases hread : readAssignment schema bytes with
      | ok parts =>
        rw [outcomes_of_ok hread] at h
        cases h
      | error fault =>
        rw [outcomes_of_error hne hread] at h
        cases h
    · rintro ⟨-, rfl⟩
      exact outcomes_nil
  | cons a as ih =>
    rw [List.map_cons, List.flatMap_cons, List.forall_mem_cons]
    constructor
    · intro h
      have hne : bytes ≠ [] := by
        rintro rfl
        rw [outcomes_nil] at h
        cases h
      cases hread : readAssignment schema bytes with
      | error fault =>
        rw [outcomes_of_error hne hread] at h
        cases h
      | ok parts =>
        obtain ⟨b, rest⟩ := parts
        rw [outcomes_of_ok hread] at h
        obtain ⟨hhead, htail⟩ := List.cons.inj h
        obtain rfl : b = a := Except.ok.inj hhead
        obtain ⟨hwritable, rfl⟩ := readAssignment_eq_ok_iff.1 hread
        obtain ⟨hrest, rfl⟩ := ih.1 htail
        exact ⟨⟨hwritable, hrest⟩, rfl⟩
    · rintro ⟨⟨hwritable, hrest⟩, rfl⟩
      rw [outcomes_of_ok (readAssignment_eq_ok_iff.2 ⟨hwritable, rfl⟩)]
      exact congrArg _ (ih.2 ⟨hrest, rfl⟩)

/-- A string that is read stands somewhere in the bytes of the change list. -/
theorem infix_of_assignments {bytes string : Bytes} {as : List Assignment} {a : Assignment}
    (h : assignments schema bytes = .ok as) (ha : a ∈ as) (hvalue : a.value = .string string) :
    string <:+: bytes := by
  obtain ⟨-, rfl⟩ := outcomes_eq_iff.1 (assignments_eq_ok_iff.1 h)
  have hcell : string <:+: a.bytes := by
    unfold Assignment.bytes
    rw [hvalue, Cell.bytes, ← List.append_assoc]
    exact (List.suffix_append ..).isInfix
  obtain ⟨before, after, rfl⟩ := List.append_of_mem ha
  rw [List.flatMap_append, List.flatMap_cons, ← List.append_assoc]
  exact hcell.trans (List.infix_append ..)

/-- A change list is valid exactly if its reader yields assignments without a fault, and then their
number is counted. -/
theorem validate_eq_ok_iff {bytes : Bytes} {n : Nat} :
    validate schema bytes = .ok n ↔
      ∃ as : List Assignment, outcomes schema bytes = as.map .ok ∧ as.length = n := by
  unfold validate
  constructor
  · intro h
    cases has : assignments schema bytes with
    | error fault =>
      rw [has] at h
      cases h
    | ok as =>
      rw [has] at h
      cases h
      exact ⟨as, assignments_eq_ok_iff.1 has, rfl⟩
  · rintro ⟨as, houtcomes, rfl⟩
    rw [assignments_eq_ok_iff.2 houtcomes]
    rfl

/-! ## Builders -/

namespace Builder

/-- An assignment is added exactly if it can be written, and then its bytes are appended. -/
theorem add_eq_ok_iff {b after : Builder} {a : Assignment} :
    b.add a.column a.value = .ok () after ↔
      a.Writable b.schema ∧ after = { b with bytes := b.bytes ++ a.bytes } := by
  constructor
  · intro h
    unfold add at h
    split at h
    · cases h
    · next column hcolumn =>
      -- What is refused is refused at the column, at the type, at the index, or at the string.
      split at h
      · cases h
      · next htype =>
        split at h
        · cases h
        · next hwide =>
          dsimp only at h
          split at h
          · cases h
          · next cell hcell =>
            obtain rfl := Cell.bytes?_eq_ok hcell
            refine ⟨⟨⟨column, Schema.column_eq_ok_iff.1 hcolumn, ?_⟩, Nat.lt_of_not_ge hwide,
              hcell⟩, ?_⟩
            · exact (not_not.1 htype).symm
            · rw [Assignment.bytes, ← List.append_assoc]
              exact (congrArg Outcome.state h).symm
  · rintro ⟨⟨⟨column, hcolumn, htype⟩, hlt, hvalue⟩, rfl⟩
    unfold add
    rw [Schema.column_eq_ok_iff.2 hcolumn]
    dsimp only
    rw [if_neg (not_not.2 htype.symm), if_neg (Nat.not_le_of_lt hlt), hvalue]
    dsimp only
    rw [Assignment.bytes, List.append_assoc]

/-- Assignments are all added exactly if they can all be written, and then their bytes are
appended. -/
theorem addAll_eq_ok_iff {b after : Builder} {as : List Assignment} :
    b.addAll as = .ok () after ↔ (∀ a ∈ as, a.Writable b.schema) ∧
      after = { b with bytes := b.bytes ++ as.flatMap Assignment.bytes } := by
  induction as generalizing b with
  | nil =>
    constructor
    · rintro ⟨⟩
      exact ⟨nofun, by rw [List.flatMap_nil, List.append_nil]⟩
    · rintro ⟨-, rfl⟩
      rw [List.flatMap_nil, List.append_nil]
      rfl
  | cons a as ih =>
    rw [List.forall_mem_cons, List.flatMap_cons, addAll]
    constructor
    · intro h
      split at h
      · next added hadd =>
        obtain ⟨ha, rfl⟩ := add_eq_ok_iff.1 hadd
        obtain ⟨has, rfl⟩ := ih.1 h
        exact ⟨⟨ha, has⟩, by rw [List.append_assoc]⟩
      · cases h
    · rintro ⟨⟨ha, has⟩, rfl⟩
      have hadd := add_eq_ok_iff.2 ⟨ha, rfl⟩
      unfold Outcome.ok at hadd
      rw [hadd]
      exact ih.2 ⟨has, by rw [List.append_assoc]⟩

/-- What a builder holds after adding to what was cleared. -/
theorem addAll_clear_state {b : Builder} {as : List Assignment}
    (h : (b.clear.addAll as).result = .ok ()) :
    (∀ a ∈ as, a.Writable b.schema) ∧
      (b.clear.addAll as).state.bytes = as.flatMap Assignment.bytes := by
  have hadd : b.clear.addAll as = .ok () (b.clear.addAll as).state := by
    rw [Outcome.ok, ← h]
  obtain ⟨has, hstate⟩ := addAll_eq_ok_iff.1 hadd
  exact ⟨has, congrArg bytes hstate⟩

end Builder

/-- **Writing and reading change lists are inverse to each other.** Against one schema:

* assignments that a new or cleared builder takes one after the other are exactly what a reader
  yields from its bytes, without a fault, and validation counts them;
* bytes that validate are read without a fault, and a new builder takes the assignments read and
  writes these bytes again;
* so assignments that a new builder takes are determined by the bytes written.
-/
theorem written_iff_read (schema : Schema) :
    (∀ (b : Builder) (as : List Assignment), b.schema = schema →
      (b.clear.addAll as).result = .ok () →
        outcomes schema (b.clear.addAll as).state.bytes = as.map .ok ∧
          validate schema (b.clear.addAll as).state.bytes = .ok as.length) ∧
    (∀ (bytes : Bytes) (n : Nat), validate schema bytes = .ok n →
      ∃ as : List Assignment, outcomes schema bytes = as.map .ok ∧ as.length = n ∧
        (Builder.mk schema []).addAll as = .ok () ⟨schema, bytes⟩) ∧
    (∀ as others : List Assignment,
      ((Builder.mk schema []).addAll as).result = .ok () →
      ((Builder.mk schema []).addAll others).result = .ok () →
      ((Builder.mk schema []).addAll as).state.bytes =
        ((Builder.mk schema []).addAll others).state.bytes → as = others) := by
  have hwritten : ∀ (b : Builder) (as : List Assignment), b.schema = schema →
      (b.clear.addAll as).result = .ok () →
      outcomes schema (b.clear.addAll as).state.bytes = as.map .ok := by
    rintro b as rfl h
    obtain ⟨has, hbytes⟩ := Builder.addAll_clear_state h
    exact outcomes_eq_iff.2 ⟨has, hbytes⟩
  refine ⟨?written, ?read, ?injective⟩
  case written =>
    intro b as hschema h
    have houtcomes := hwritten b as hschema h
    exact ⟨houtcomes, validate_eq_ok_iff.2 ⟨as, houtcomes, rfl⟩⟩
  case read =>
    intro bytes n h
    obtain ⟨as, houtcomes, hlength⟩ := validate_eq_ok_iff.1 h
    obtain ⟨has, hbytes⟩ := outcomes_eq_iff.1 houtcomes
    refine ⟨as, houtcomes, hlength, Builder.addAll_eq_ok_iff.2 ⟨has, ?_⟩⟩
    rw [hbytes, List.nil_append]
  case injective =>
    intro as others has hothers hbytes
    -- Both are what a reader yields from the same bytes.
    have houtcomes : as.map (Except.ok : _ → Except CorruptionFault _) = others.map .ok := by
      rw [← hwritten ⟨schema, []⟩ as rfl has, ← hwritten ⟨schema, []⟩ others rfl hothers]
      exact congrArg (outcomes schema) hbytes
    exact (List.map_inj_right fun _ _ => Except.ok.inj).1 houtcomes

/-- A column of each length: eight bytes, one byte, and as many as a string has. -/
def mixedSchema : Schema where
  columns := [⟨"balance", .int64⟩, ⟨"active", .bool⟩, ⟨"name", .string⟩]
  keyCount := 1
  keyCount_le := by decide
  nodup := by decide

/-- Assignments to its columns, not in their order and one of them twice. -/
def mixedAssignments : List Assignment :=
  [⟨2, .string [104, 105]⟩, ⟨0, .int64 (-2)⟩, ⟨1, .bool true⟩, ⟨0, .int64 3⟩, ⟨2, .string []⟩]

/-- The five assignments are written in forty-seven bytes, from which they are read back; and these
bytes are written again from what is read. -/
theorem written_iff_read_mixed :
    ((Builder.mk mixedSchema []).clear.addAll mixedAssignments).result = .ok () ∧
      ((Builder.mk mixedSchema []).clear.addAll mixedAssignments).state.bytes.length = 47 ∧
      outcomes mixedSchema
          ((Builder.mk mixedSchema []).clear.addAll mixedAssignments).state.bytes =
        mixedAssignments.map .ok ∧
      ∃ as : List Assignment, as.length = 5 ∧
        (Builder.mk mixedSchema []).addAll as =
          .ok () ⟨mixedSchema,
            ((Builder.mk mixedSchema []).clear.addAll mixedAssignments).state.bytes⟩ := by
  have hadded : ((Builder.mk mixedSchema []).clear.addAll mixedAssignments).result = .ok () := by
    decide +kernel
  obtain ⟨hwritten, hread, -⟩ := written_iff_read mixedSchema
  obtain ⟨houtcomes, hvalid⟩ := hwritten ⟨mixedSchema, []⟩ mixedAssignments rfl hadded
  obtain ⟨as, -, hlength, hagain⟩ := hread _ _ hvalid
  exact ⟨hadded, by decide +kernel, houtcomes, as, hlength, hagain⟩

end ChangeList

end TabletDelta
