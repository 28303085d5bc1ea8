import TabletDelta.ChangeList.Reader

/-!
# Change lists as text

A change list is shown as `SET a=1, b="x"`. If its bytes are malformed, the assignments before the
fault are shown and then the fault, between angle brackets.
-/

namespace TabletDelta

namespace ChangeList

/-- One thing that a reader yields, as text. -/
def outcomeText (schema : Schema) : Except CorruptionFault Assignment → String
  | .ok a =>
    let name := match schema.columns[a.column]? with
      | some column => column.name
      | none => "?"
    s!"{name}={a.value.text}"
  | .error fault => s!"<{(Error.corruption fault).message}>"

/-- An assignment to a column of the schema is shown with the column's name. -/
theorem outcomeText_of_column {schema : Schema} {a : Assignment} {column : Column}
    (h : schema.columns[a.column]? = some column) :
    outcomeText schema (.ok a) = column.name ++ "=" ++ a.value.text := by
  simp only [outcomeText, h]
  rfl

/-- The bytes of a change list, as text. -/
def text (schema : Schema) (bytes : Bytes) : String :=
  "SET " ++ ", ".intercalate ((outcomes schema bytes).map (outcomeText schema))

/-- The change list of a delta with the row and the transaction in front of it. -/
def deltaText (schema : Schema) (key : Key) (bytes : Bytes) : String :=
  s!"@{key.row.toNat} txid {key.txid.toNat}: {text schema bytes}"

end ChangeList

end TabletDelta
