import Mathlib.Data.List.Perm.Subperm
import TabletDelta.Proofs.Schema
import TabletDelta.Proofs.Wire.Reading
import TabletDelta.Wire.Schema

/-!
# The wire form of schemas

A schema is read in two steps: first its columns and its number of keys, and then they go through
`Schema.ofColumns`, as they do wherever a schema is made. The first step belongs to the writer of
the columns and the number (`SchemaFields.reads`), and a schema is made of one list of columns and
one number only. So a schema has one wire form, it is read back from it, and what `Schema.ofColumns`
refuses is refused here for the same reason (`Schema.wire_canonical`).
-/

namespace TabletDelta

/-- The fields of the wire form of a schema. -/
structure SchemaFields where
  /-- The columns, in order. -/
  columns : List Column
  /-- The number of key columns. -/
  keyCount : Nat

namespace SchemaFields

/-- The fields in bytes. -/
def wire (f : SchemaFields) : Bytes :=
  wireList Wire.encode f.columns ++ littleEndian 8 f.keyCount

/-- The counts fit in eight bytes: those of the columns, of the bytes of each name, and of the
keys. -/
def Fits (f : SchemaFields) : Prop :=
  (f.columns.length < UInt64.size ∧ ∀ c ∈ f.columns, c.name.toByteArray.size < UInt64.size) ∧
    f.keyCount < UInt64.size

instance (f : SchemaFields) : Decidable f.Fits := inferInstanceAs (Decidable ((_ ∧ _) ∧ _))

/-- Reads the fields. -/
def reader : WireReader SchemaFields := do
  let columns ← WireReader.list Wire.reader
  let keyCount ← WireReader.number 8
  pure ⟨columns, keyCount⟩

/-- The schema of the fields, if they form one. -/
def toSchema (f : SchemaFields) : Except WireFault Schema :=
  (Schema.ofColumns f.columns f.keyCount).mapError .schema

end SchemaFields

/-- The fields of a schema. -/
def Schema.fields (s : Schema) : SchemaFields := ⟨s.columns, s.keyCount⟩

/-- The schemas that there can be: those made of columns, projections, and those read from bytes.
Columns that a schema is made of are held in memory, so machine words count them and the bytes of
their names. -/
inductive Schema.Obtainable : Schema → Prop where
  | made {columns : List Column} {keyCount : Nat} {s : Schema}
    (h : Schema.ofColumns columns keyCount = .ok s) (hcolumns : columns.length < UInt64.size)
    (hnames : ∀ c ∈ columns, c.name.toByteArray.size < UInt64.size) : Obtainable s
  | projected {s p : Schema} {names : List String} (hs : Obtainable s)
    (h : s.project names = .ok p) : Obtainable p
  | decoded {bytes : Bytes} {s : Schema} (h : Wire.decode Schema bytes = .ok s) : Obtainable s

/-! ## Columns -/

/-- The alternative of a number has this number. -/
theorem ColumnType.tag_ofTag (tag : Fin 6) : (ofTag tag).tag = tag := by
  revert tag
  decide

/-- The reader of types belongs to their writer. -/
theorem WireReader.reads_type :
    Reads (Wire.reader : WireReader ColumnType) Wire.encode fun _ => True := by
  intro bytes type rest
  show (tag 6 >>= fun n => pure (ColumnType.ofTag n)) bytes = .ok (type, rest) ↔ _
  simp only [bind_eq_ok_iff, reads_tag 6 _ _ _]
  constructor
  · rintro ⟨n, left, ⟨-, rfl⟩, hpure⟩
    cases hpure
    refine ⟨trivial, ?_⟩
    show littleEndian 4 n ++ rest = littleEndian 4 (ColumnType.ofTag n).tag ++ rest
    rw [ColumnType.tag_ofTag]
  · rintro ⟨-, rfl⟩
    have hlt : type.tag < 6 := by cases type <;> decide
    refine ⟨⟨type.tag, hlt⟩, rest, ⟨?_, rfl⟩, ?_⟩
    · show type.tag < 256 ^ 4
      omega
    · rw [ColumnType.ofTag_tag]
      rfl

/-- The reader of columns belongs to the writer of the columns whose names fit. -/
theorem WireReader.reads_column :
    Reads (Wire.reader : WireReader Column) Wire.encode fun c =>
      c.name.toByteArray.size < UInt64.size := by
  intro bytes c rest
  show (text >>= fun name => (Wire.reader : WireReader ColumnType) >>= fun type =>
    pure (⟨name, type⟩ : Column)) bytes = .ok (c, rest) ↔ _
  simp only [bind_eq_ok_iff, reads_text _ _ _, reads_type _ _ _]
  constructor
  · rintro ⟨name, left, ⟨hname, rfl⟩, type, left', ⟨-, rfl⟩, hpure⟩
    cases hpure
    exact ⟨hname, (List.append_assoc ..).symm⟩
  · rintro ⟨hname, rfl⟩
    exact ⟨c.name, Wire.encode c.type ++ rest, ⟨hname, List.append_assoc ..⟩, c.type, rest,
      ⟨trivial, rfl⟩, rfl⟩

/-! ## The fields -/

namespace SchemaFields

/-- The reader of the fields belongs to their writer. -/
theorem reads : WireReader.Reads reader wire Fits := by
  intro bytes f rest
  have hlist := WireReader.reads_column.list
  unfold reader wire Fits
  simp only [WireReader.bind_eq_ok_iff, hlist _ _ _, WireReader.reads_number 8 _ _ _]
  constructor
  · rintro ⟨columns, left, ⟨hcolumns, rfl⟩, keyCount, left', ⟨hkeys, rfl⟩, hpure⟩
    cases hpure
    exact ⟨⟨hcolumns, hkeys⟩, (List.append_assoc ..).symm⟩
  · rintro ⟨⟨hcolumns, hkeys⟩, rfl⟩
    exact ⟨f.columns, littleEndian 8 f.keyCount ++ rest, ⟨hcolumns, List.append_assoc ..⟩,
      f.keyCount, rest, ⟨hkeys, rfl⟩, rfl⟩

/-- The fields form the schema that has them. -/
theorem toSchema_eq_ok_iff {f : SchemaFields} {s : Schema} :
    f.toSchema = .ok s ↔ s.fields = f := by
  have hfields : s.fields = f ↔ s.columns = f.columns ∧ s.keyCount = f.keyCount := by
    cases f
    exact SchemaFields.mk.injEq .. ▸ .rfl
  rw [hfields, ← Schema.ofColumns_eq_ok_iff]
  unfold toSchema
  cases Schema.ofColumns f.columns f.keyCount with
  | error fault => exact iff_of_false nofun nofun
  | ok s' =>
    constructor
    · rintro ⟨⟩
      rfl
    · rintro ⟨⟩
      rfl

/-- A schema is made of its fields. -/
theorem madeOf : WireReader.MadeOf reader toSchema := by
  have hbind : (Wire.reader : WireReader Schema) =
      reader >>= fun f bytes => f.toSchema.map fun s => (s, bytes) := by
    unfold reader
    simp only [bind_assoc, pure_bind]
    refine congrArg (WireReader.list Wire.reader >>= ·) (funext fun columns => ?_)
    refine congrArg (WireReader.number 8 >>= ·) (funext fun keyCount => funext fun left => ?_)
    unfold toSchema
    cases Schema.ofColumns columns keyCount <;> rfl
  intro bytes
  rw [hbind]
  rfl

/-- What is decoded from the bytes of fields is the schema of the fields, if they form one. -/
theorem decode_wire {f : SchemaFields} (h : f.Fits) (rest : Bytes) :
    Wire.decode Schema (f.wire ++ rest) =
      f.toSchema.mapError fun fault => .encoding (.undecodable fault) :=
  madeOf.decode_write reads h rest

end SchemaFields

/-! ## Schemas -/

namespace Schema

/-- A schema is decoded from the bytes that start with its wire form, and from no others. -/
theorem decode_eq_ok_iff {bytes : Bytes} {s : Schema} :
    Wire.decode Schema bytes = .ok s ↔
      s.fields.Fits ∧ ∃ rest, bytes = Wire.encode s ++ rest := by
  rw [SchemaFields.madeOf.decode_eq_ok_iff SchemaFields.reads]
  constructor
  · rintro ⟨f, rest, hfits, rfl, hmade⟩
    obtain rfl := SchemaFields.toSchema_eq_ok_iff.1 hmade
    exact ⟨hfits, rest, rfl⟩
  · rintro ⟨hfits, rest, rfl⟩
    exact ⟨s.fields, rest, hfits, rfl, SchemaFields.toSchema_eq_ok_iff.2 rfl⟩

/-- A projection of a schema whose counts fit has counts that fit. -/
theorem fits_project {s p : Schema} {names : List String} (hs : s.fields.Fits)
    (h : s.project names = .ok p) : p.fields.Fits := by
  obtain ⟨⟨hcolumns, hnames⟩, -⟩ := hs
  obtain ⟨-, hsub, -⟩ := project_eq_ok_iff.1 h
  -- No column is chosen twice, so there are no more of them than in the schema.
  have hlength : p.columns.length ≤ s.columns.length :=
    (p.nodup.of_map.subperm hsub).length_le
  have hlt : p.columns.length < UInt64.size := Nat.lt_of_le_of_lt hlength hcolumns
  exact ⟨⟨hlt, fun c hc => hnames c (hsub hc)⟩, Nat.lt_of_le_of_lt p.keyCount_le hlt⟩

/-- The counts of a schema that there can be fit in eight bytes. -/
theorem Obtainable.fits {s : Schema} (h : s.Obtainable) : s.fields.Fits := by
  induction h with
  | @made columns keyCount s h hcolumns hnames =>
    obtain ⟨rfl, rfl⟩ := ofColumns_eq_ok_iff.1 h
    exact ⟨⟨hcolumns, hnames⟩, Nat.lt_of_le_of_lt s.keyCount_le hcolumns⟩
  | projected hs h ih => exact fits_project ih h
  | decoded h => exact (decode_eq_ok_iff.1 h).1

/-- The wire form of schemas is canonical. The schemas that there can be are decoded from their wire
form whatever comes after it, and not from less of it, and each of their columns is found by its
name at its own place. What is decoded from bytes is a schema, with names that differ and no more
keys than columns, and the bytes start with its wire form. Columns and a number of keys that form no
schema are refused with the message of this fault. -/
theorem wire_canonical :
    (∀ s : Schema, s.Obtainable →
      (∀ rest, Wire.decode Schema (Wire.encode s ++ rest) = .ok s) ∧
        (∀ bytes missing, Wire.encode s = bytes ++ missing → missing ≠ [] →
          ∃ fault, Wire.decode Schema bytes = .error (.encoding (.undecodable fault))) ∧
        ∀ i < s.size, ∃ c, s.column i = .ok c ∧ s.indexOf? c.name = some i) ∧
      (∀ bytes s, Wire.decode Schema bytes = .ok s →
        (s.columns.map Column.name).Nodup ∧ s.keyCount ≤ s.size ∧ Wire.encode s <+: bytes) ∧
      ∀ f : SchemaFields, f.Fits → ∀ fault,
        Schema.ofColumns f.columns f.keyCount = .error fault →
          (∀ rest, Wire.decode Schema (f.wire ++ rest) =
            .error (.encoding (.undecodable (.schema fault)))) ∧
          (Error.encoding (.undecodable (.schema fault))).message =
            "Encoding error: Deserialization failed: " ++ (Error.invalidSchema fault).message := by
  refine ⟨fun s hs => ⟨fun rest => ?_, fun bytes missing hbytes hmissing => ?_, fun i hi => ?_⟩,
    fun bytes s hdecode => ⟨s.nodup, s.keyCount_le, ?_⟩, fun f hfits fault hfault =>
      ⟨fun rest => ?_, ?_⟩⟩
  · exact decode_eq_ok_iff.2 ⟨hs.fits, rest, rfl⟩
  · obtain ⟨fault, -, hdecode⟩ :=
      SchemaFields.madeOf.decode_cut SchemaFields.reads hs.fits hbytes hmissing
    exact ⟨fault, hdecode⟩
  · have hc : s.columns[i]? = some s.columns[i] := List.getElem?_eq_getElem hi
    exact ⟨s.columns[i], column_eq_ok_iff.2 hc, indexOf?_eq_some_iff.2 ⟨_, hc, rfl⟩⟩
  · obtain ⟨-, rest, rfl⟩ := decode_eq_ok_iff.1 hdecode
    exact List.prefix_append ..
  · rw [SchemaFields.decode_wire hfits]
    unfold SchemaFields.toSchema
    rw [hfault]
    rfl
  · rfl

/-- A text key and a number, whose name is not of plain letters only. -/
def keyedFields : SchemaFields := ⟨[⟨"key", .string⟩, ⟨"größe", .uint64⟩], 1⟩

/-- Two columns of one name. -/
def clashingFields : SchemaFields := ⟨[⟨"a", .bool⟩, ⟨"b", .int32⟩, ⟨"a", .int64⟩], 2⟩

/-- A schema is decoded in front of another byte, and its second column is found, but it is not
decoded without its last byte. Two columns of one name are refused. -/
theorem wire_canonical_keyed :
    ∃ s : Schema, s.fields = keyedFields ∧
      Wire.decode Schema (Wire.encode s ++ [9]) = .ok s ∧ s.indexOf? "größe" = some 1 ∧
      (∃ fault, Wire.decode Schema (Wire.encode s).dropLast =
        .error (.encoding (.undecodable fault))) ∧
      Wire.encode s <+: Wire.encode s ++ [9] ∧
      Wire.decode Schema clashingFields.wire =
        .error (.encoding (.undecodable (.schema (.duplicateName "a")))) ∧
      (Error.encoding (.undecodable (.schema (.duplicateName "a")))).message =
        "Encoding error: Deserialization failed: Invalid schema: duplicate column name 'a'" := by
  obtain ⟨hobtainable, hdecoded, hrefused⟩ := wire_canonical
  let s : Schema := ⟨keyedFields.columns, keyedFields.keyCount, by decide, by decide⟩
  have hs : s.Obtainable :=
    .made (ofColumns_eq_ok_iff.2 ⟨rfl, rfl⟩) (by decide) (by decide +kernel)
  obtain ⟨happend, hcut, hfound⟩ := hobtainable s hs
  obtain ⟨hclash, hmessage⟩ :=
    hrefused clashingFields (by decide +kernel) (.duplicateName "a") (by decide +kernel)
  refine ⟨s, rfl, happend [9], ?_, ?_, ?_, ?_, ?_⟩
  · obtain ⟨c, hc, hindex⟩ := hfound 1 (by decide)
    obtain rfl := Option.some.inj (column_eq_ok_iff.1 hc)
    exact hindex
  · exact hcut _ [0] (by decide +kernel) (by decide)
  · exact (hdecoded _ s (happend [9])).2.2
  · have hclash := hclash []
    rwa [List.append_nil] at hclash
  · rw [hmessage]
    decide +kernel

end Schema

end TabletDelta
