import TabletDelta.ChangeList.Reader
import TabletDelta.Proofs.Traversal

/-!
# What readers yield is typed

A change list carries no types: a reader takes them from the schema, column by column. So whatever
it yields assigns a cell of the column's own type to a column that the schema has, and all that is
left to go wrong when such a cell is written to a block is the memory.
-/

namespace TabletDelta

/-- An assignment fits a schema if the column is there and the value is of its type. -/
def Assignment.Fits (schema : Schema) (a : Assignment) : Prop :=
  ∃ column, schema.columns[a.column]? = some column ∧ a.value.type = column.type

namespace ChangeList

/-- A cell is of the type that it was read as. -/
theorem readCell_type {type : ColumnType} {bytes rest : Bytes} {value : Cell}
    (h : readCell type bytes = .ok (value, rest)) : value.type = type := by
  cases type with
  | bool =>
    simp only [readCell, bind, Except.bind] at h
    split at h
    · cases h
    · split at h <;> cases h <;> rfl
  | uint32 | int32 | uint64 | int64 =>
    simp only [readCell, bind, Except.bind] at h
    split at h <;> cases h
    rfl
  | string =>
    simp only [readCell, bind, Except.bind] at h
    split at h
    · cases h
    · split at h <;> cases h
      rfl

/-- An assignment fits the schema that it was read against. -/
theorem readAssignment_fits {schema : Schema} {bytes rest : Bytes} {a : Assignment}
    (h : readAssignment schema bytes = .ok (a, rest)) : a.Fits schema := by
  simp only [readAssignment, bind, Except.bind] at h
  split at h
  · cases h
  · split at h
    · cases h
    · next column hcolumn =>
      split at h
      · cases h
      · next parts hcell =>
        cases h
        exact ⟨column, hcolumn, readCell_type hcell⟩

/-- Everything that a reader yields fits its schema, up to a fault. -/
theorem Reader.fits_of_mem {r : Reader} {a : Assignment} (h : .ok a ∈ r.toList) :
    a.Fits r.schema := by
  -- By induction on the bytes left, of which every step of the reader takes some.
  induction hlength : r.rest.length using Nat.strongRecOn generalizing r with
  | ind n ih =>
    unfold Reader.toList at h
    split at h
    · exact absurd h List.not_mem_nil
    · next x after hnext =>
      have hshorter := length_next hnext
      have hschema : after.schema = r.schema ∧ ∀ b, x = .ok b → b.Fits r.schema := by
        unfold Reader.next at hnext
        split at hnext
        · cases hnext
        · split at hnext <;> cases hnext
          · next hread =>
            refine ⟨rfl, ?_⟩
            rintro b ⟨⟩
            exact readAssignment_fits hread
          · refine ⟨rfl, ?_⟩
            rintro b ⟨⟩
      rcases List.mem_cons.1 h with hx | hafter
      · exact hschema.2 a hx.symm
      · rw [← hschema.1]
        exact ih _ (hlength ▸ hshorter) hafter rfl

/-- The assignments of a change list are what its reader yields, if that is without a fault. -/
theorem assignments_eq_ok_iff {schema : Schema} {bytes : Bytes} {as : List Assignment} :
    assignments schema bytes = .ok as ↔ outcomes schema bytes = as.map .ok := by
  unfold assignments
  rw [mapM_eq_ok_iff, List.map_id]

/-- The assignments of a change list fit the schema that it is read against. -/
theorem fits_of_assignments {schema : Schema} {bytes : Bytes} {as : List Assignment}
    (h : assignments schema bytes = .ok as) : ∀ a ∈ as, a.Fits schema := by
  intro a ha
  -- A change list is accepted only if its reader yields no fault, so all that it yields is here.
  have houtcomes := assignments_eq_ok_iff.1 h
  have hmem : .ok a ∈ (Reader.mk schema bytes).toList := by
    show .ok a ∈ outcomes schema bytes
    rw [houtcomes]
    exact List.mem_map_of_mem ha
  exact Reader.fits_of_mem hmem

end ChangeList

end TabletDelta
