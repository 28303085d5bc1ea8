import Mathlib.Data.List.Nodup
import TabletDelta.Proofs.Traversal
import TabletDelta.Schema

/-!
# Columns by place and by name

A schema has its columns in order, and no two of one name, so a column is known by its place as well
as by its name. Looking up one gives the other (`Schema.indexOf?_eq_some_iff`), and what is found by
a name is the one column that has it (`Schema.named?_eq_some_iff`). Whichever way a schema has been
made, it consists of the columns that were given, and a projection of the columns of the schema that
were named, in the order of the names (`Schema.project_eq_ok_iff`).
-/

namespace TabletDelta.Schema

/-- A schema answers for an index exactly with the column that it has there. -/
theorem column_eq_ok_iff {s : Schema} {index : Nat} {c : Column} :
    s.column index = .ok c ↔ s.columns[index]? = some c := by
  unfold column
  cases s.columns[index]? with
  | none => exact ⟨nofun, nofun⟩
  | some other => exact ⟨fun h => congrArg some (Except.ok.inj h),
      fun h => congrArg Except.ok (Option.some.inj h)⟩

/-- Names are unique, so a column is found by its name at its own place. -/
theorem indexOf?_eq_some_iff {s : Schema} {name : String} {i : Nat} :
    s.indexOf? name = some i ↔ ∃ c, s.columns[i]? = some c ∧ c.name = name := by
  unfold indexOf?
  rw [List.findIdx?_eq_some_iff_getElem]
  constructor
  · rintro ⟨hi, hname, -⟩
    exact ⟨s.columns[i], List.getElem?_eq_getElem hi, by simpa using hname⟩
  · rintro ⟨c, hc, hname⟩
    obtain ⟨hi, hc⟩ := List.getElem?_eq_some_iff.1 hc
    refine ⟨hi, by simp [hc, hname], ?_⟩
    intro j hj hother
    -- An earlier column of the same name would repeat it.
    have hlength : j < (s.columns.map Column.name).length := by
      rw [List.length_map]
      omega
    have hsame : (s.columns.map Column.name)[j]? = (s.columns.map Column.name)[i]? := by
      rw [List.getElem?_map, List.getElem?_map, List.getElem?_eq_getElem hi,
        List.getElem?_eq_getElem (Nat.lt_trans hj hi)]
      simpa [hc, hname] using hother
    have heq := (List.getElem?_inj hlength s.nodup).1 hsame
    omega

/-- A column found by name has the name and is one of the columns. -/
theorem named?_eq_some {s : Schema} {name : String} {c : Column} (h : s.named? name = some c) :
    c.name = name ∧ ∃ i : Nat, s.columns[i]? = some c :=
  ⟨by simpa using List.find?_some h, List.getElem?_of_mem (List.mem_of_find?_eq_some h)⟩

/-- A name is that of a column exactly if the column is found by it. -/
theorem named?_eq_some_iff {s : Schema} {name : String} {c : Column} :
    s.named? name = some c ↔ c ∈ s.columns ∧ c.name = name := by
  constructor
  · intro h
    exact ⟨List.mem_of_find?_eq_some h, (named?_eq_some h).1⟩
  · rintro ⟨hmem, rfl⟩
    -- Some column is found, and no other one has the name.
    cases hfound : s.named? c.name with
    | none =>
      have hno := List.find?_eq_none.1 hfound c hmem
      simp at hno
    | some d =>
      have hd := List.mem_of_find?_eq_some hfound
      rw [List.inj_on_of_nodup_map s.nodup hd hmem (named?_eq_some hfound).1]

/-- In a list of names the first one is found that occurs before it, or among those seen. -/
theorem firstRepeat_append {seen before : List String} {name : String} (hbefore : before.Nodup)
    (hfresh : ∀ n ∈ before, n ∉ seen) (hname : name ∈ before ∨ name ∈ seen) (later : List String) :
    firstRepeat seen (before ++ name :: later) = some name := by
  induction before generalizing seen with
  | nil =>
    show (if name ∈ seen then some name else _) = _
    rw [if_pos (hname.resolve_left List.not_mem_nil)]
  | cons n before ih =>
    obtain ⟨hn, hrest⟩ := List.nodup_cons.1 hbefore
    obtain ⟨hnew, hfresh⟩ := List.forall_mem_cons.1 hfresh
    show (if n ∈ seen then some n else firstRepeat (n :: seen) (before ++ name :: later)) = _
    rw [if_neg hnew]
    refine ih hrest (fun other hother => ?_) ?_
    · rw [List.mem_cons, not_or]
      exact ⟨fun heq => hn (heq ▸ hother), hfresh other hother⟩
    · rw [List.mem_cons] at hname ⊢
      tauto

/-- The schema of columns has these columns and keys, and no others. -/
theorem ofColumns_eq_ok_iff {columns : List Column} {keyCount : Nat} {s : Schema} :
    ofColumns columns keyCount = .ok s ↔ s.columns = columns ∧ s.keyCount = keyCount := by
  unfold ofColumns
  constructor
  · intro h
    split at h
    · split at h
      · cases h
        exact ⟨rfl, rfl⟩
      · cases h
    · cases h
  · rintro ⟨rfl, rfl⟩
    rw [dif_pos s.keyCount_le]
    split
    · rfl
    · next name hrepeat =>
      -- The names of a schema differ from each other, so there is no repetition.
      rw [firstRepeat_eq_none_iff.2 ⟨s.nodup, fun _ _ => List.not_mem_nil⟩] at hrepeat
      cases hrepeat

/-- Names of columns are those of a list of columns. -/
theorem exists_columns {s : Schema} {names : List String}
    (h : ∀ name ∈ names, name ∈ s.columns.map Column.name) :
    ∃ columns ⊆ s.columns, columns.map Column.name = names := by
  induction names with
  | nil => exact ⟨[], List.nil_subset _, rfl⟩
  | cons name names ih =>
    obtain ⟨hname, hnames⟩ := List.forall_mem_cons.1 h
    obtain ⟨c, hc, rfl⟩ := List.mem_map.1 hname
    obtain ⟨columns, hcolumns, rfl⟩ := ih hnames
    exact ⟨c :: columns, List.cons_subset.2 ⟨hc, hcolumns⟩, rfl⟩

/-- The column of a name, or a report that there is none. -/
def lookUp (s : Schema) (name : String) : Except Error Column :=
  match s.named? name with
  | some c => .ok c
  | none => .error (.projection (.unknownColumn name))

/-- A name is looked up with success if it is that of a column, and gives the column. -/
theorem lookUp_eq_ok_iff {s : Schema} {name : String} {c : Column} :
    s.lookUp name = .ok c ↔ c ∈ s.columns ∧ c.name = name := by
  rw [← named?_eq_some_iff]
  unfold lookUp
  cases s.named? name with
  | none => exact iff_of_false nofun nofun
  | some other => exact ⟨fun h => congrArg some (Except.ok.inj h),
      fun h => congrArg Except.ok (Option.some.inj h)⟩

/-- A name that no column has is reported. -/
theorem lookUp_eq_error {s : Schema} {name : String} (h : name ∉ s.columns.map Column.name) :
    s.lookUp name = .error (.projection (.unknownColumn name)) := by
  unfold lookUp
  cases hfound : s.named? name with
  | none => rfl
  | some c =>
    obtain ⟨hc, hname⟩ := named?_eq_some_iff.1 hfound
    exact absurd (List.mem_map.2 ⟨c, hc, hname⟩) h

/-- The names of columns are looked up with success, and give these columns. -/
theorem mapM_lookUp_eq_ok_iff {s : Schema} {names : List String} {columns : List Column} :
    names.mapM s.lookUp = .ok columns ↔ columns ⊆ s.columns ∧ columns.map Column.name = names := by
  rw [mapM_eq_ok_iff]
  induction names generalizing columns with
  | nil => cases columns <;> simp
  | cons name names ih =>
    cases columns with
    | nil => simp
    | cons c columns =>
      rw [List.map_cons, List.map_cons, List.map_cons, List.cons.injEq, List.cons.injEq, ih,
        lookUp_eq_ok_iff, List.cons_subset, and_and_and_comm]

/-- Projecting looks up all names, and then makes a schema of the columns found. -/
theorem project_eq (s : Schema) (names : List String) :
    s.project names =
      names.mapM s.lookUp >>= fun columns => (ofColumns columns 0).mapError .invalidSchema :=
  rfl

/-- The names of columns are projected to a schema of these columns, if they form one. -/
theorem project_names {s : Schema} {columns : List Column} (h : columns ⊆ s.columns) :
    s.project (columns.map Column.name) = (ofColumns columns 0).mapError .invalidSchema := by
  rw [project_eq, mapM_lookUp_eq_ok_iff.2 ⟨h, rfl⟩]
  rfl

/-- A projection has the named columns, in the order of the names, and no keys. -/
theorem project_eq_ok_iff {s p : Schema} {names : List String} :
    s.project names = .ok p ↔
      p.columns.map Column.name = names ∧ p.columns ⊆ s.columns ∧ p.keyCount = 0 := by
  constructor
  · intro h
    rw [project_eq, bind_eq_ok_iff] at h
    obtain ⟨columns, hfound, hmade⟩ := h
    obtain ⟨hsub, hnames⟩ := mapM_lookUp_eq_ok_iff.1 hfound
    cases hof : ofColumns columns 0 with
    | error fault =>
      rw [hof] at hmade
      cases hmade
    | ok p' =>
      rw [hof] at hmade
      cases hmade
      obtain ⟨rfl, hkeys⟩ := ofColumns_eq_ok_iff.1 hof
      exact ⟨hnames, hsub, hkeys⟩
  · rintro ⟨rfl, hsub, hkeys⟩
    rw [project_names hsub, ofColumns_eq_ok_iff.2 ⟨rfl, hkeys⟩]
    rfl

/-- A name that is no column's is reported if all before it are those of columns, whatever is
repeated. -/
theorem project_unknown {s : Schema} {known : List String} {name : String}
    (hknown : ∀ n ∈ known, n ∈ s.columns.map Column.name)
    (hname : name ∉ s.columns.map Column.name) (later : List String) :
    s.project (known ++ name :: later) = .error (.projection (.unknownColumn name)) := by
  obtain ⟨columns, hcolumns⟩ := exists_columns hknown
  rw [project_eq, mapM_of_error (mapM_lookUp_eq_ok_iff.2 hcolumns) (lookUp_eq_error hname)]
  rfl

/-- A name that occurs again is reported if all names are those of columns. -/
theorem project_repeated {s : Schema} {before later : List String} {name : String}
    (hknown : ∀ n ∈ before ++ name :: later, n ∈ s.columns.map Column.name)
    (hbefore : before.Nodup) (hname : name ∈ before) :
    s.project (before ++ name :: later) = .error (.invalidSchema (.duplicateName name)) := by
  obtain ⟨columns, hsub, hnames⟩ := exists_columns hknown
  rw [← hnames, project_names hsub]
  have hrepeat : firstRepeat [] (columns.map Column.name) = some name := by
    rw [hnames]
    exact firstRepeat_append hbefore (fun _ _ => List.not_mem_nil) (.inl hname) later
  unfold ofColumns
  rw [dif_pos (Nat.zero_le _)]
  split
  · next hnone =>
    rw [hrepeat] at hnone
    cases hnone
  · next other hother =>
    rw [hrepeat, Option.some_inj] at hother
    rw [hother]
    rfl

end TabletDelta.Schema
