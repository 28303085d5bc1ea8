import TabletDelta.Error

/-!
# Schemas

A schema is an ordered list of typed columns with distinct names, the first few of which form the
row key. `Schema.ofColumns` is the one way in from unchecked columns, and `Schema.project` chooses
columns by name.
-/

namespace TabletDelta

/-- A named column of one type. -/
structure Column where
  /-- The name, compared character by character. -/
  name : String
  /-- The type of the column's cells. -/
  type : ColumnType
deriving DecidableEq, Repr

/-- The first name of a list that occurs before it in the list, or among the names seen earlier. -/
def firstRepeat (seen : List String) : List String → Option String
  | [] => none
  | name :: names => if name ∈ seen then some name else firstRepeat (name :: seen) names

/-- There is no repetition exactly when the names differ from each other and from those seen. -/
theorem firstRepeat_eq_none_iff {seen names : List String} :
    firstRepeat seen names = none ↔ names.Nodup ∧ ∀ name ∈ names, name ∉ seen := by
  induction names generalizing seen with
  | nil => simp [firstRepeat]
  | cons name names ih =>
    by_cases h : name ∈ seen
    · simp [firstRepeat, h]
    · simp only [firstRepeat, h, if_false, ih, List.nodup_cons, List.mem_cons]
      constructor
      · rintro ⟨hnodup, hseen⟩
        refine ⟨⟨fun hmem => hseen name hmem (.inl rfl), hnodup⟩, ?_⟩
        rintro other (rfl | hother)
        · exact h
        · exact fun hm => hseen other hother (.inr hm)
      · rintro ⟨⟨hfresh, hnodup⟩, hseen⟩
        refine ⟨hnodup, fun other hother => ?_⟩
        rintro (rfl | hm)
        · exact hfresh hother
        · exact hseen other (.inr hother) hm

/-- An ordered list of columns, the first `keyCount` of which form the row key. -/
structure Schema where
  /-- The columns, in order. -/
  columns : List Column
  /-- The number of key columns. -/
  keyCount : Nat
  /-- No more columns are keys than there are. -/
  keyCount_le : keyCount ≤ columns.length
  /-- No name is used twice. -/
  nodup : (columns.map Column.name).Nodup
deriving DecidableEq

namespace Schema

/-- The schema of these columns. Too many keys are reported before a repeated name. -/
def ofColumns (columns : List Column) (keyCount : Nat) : Except SchemaFault Schema :=
  if hkeys : keyCount ≤ columns.length then
    match hnames : firstRepeat [] (columns.map Column.name) with
    | none => .ok ⟨columns, keyCount, hkeys, (firstRepeat_eq_none_iff.1 hnames).1⟩
    | some name => .error (.duplicateName name)
  else
    .error (.tooManyKeys keyCount columns.length)

/-- The number of columns. -/
def size (s : Schema) : Nat := s.columns.length

/-- Whether the column of an index is part of the row key. -/
def isKey (s : Schema) (index : Nat) : Bool := index < s.keyCount

/-- The column of an index. -/
def column (s : Schema) (index : Nat) : Except Error Column :=
  match s.columns[index]? with
  | some c => .ok c
  | none => .error (.columnOutOfRange index s.size)

/-- The index of the column of a name. -/
def indexOf? (s : Schema) (name : String) : Option Nat :=
  s.columns.findIdx? (·.name = name)

/-- The column of a name. -/
def named? (s : Schema) (name : String) : Option Column :=
  s.columns.find? (·.name = name)

/-- The schema of the named columns, in the order of the names and without key columns. A name that
is no column is reported before a repeated one. -/
def project (s : Schema) (names : List String) : Except Error Schema := do
  let columns ← names.mapM fun name =>
    match s.named? name with
    | some c => .ok c
    | none => .error (.projection (.unknownColumn name))
  (ofColumns columns 0).mapError .invalidSchema

/-- A column with its place in a schema, as text. -/
def columnText (s : Schema) (index : Nat) (c : Column) : String :=
  s!"{c.name} {c.type.name}" ++ if s.isKey index then " (key)" else ""

/-- A schema as text: its columns with their types, keys marked. -/
def text (s : Schema) : String :=
  "Schema [" ++ ", ".intercalate (s.columns.mapIdx s.columnText) ++ "]"

end Schema

end TabletDelta
