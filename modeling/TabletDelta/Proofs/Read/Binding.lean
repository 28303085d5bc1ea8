import TabletDelta.Proofs.ChangeList.Typed
import TabletDelta.Proofs.Schema
import TabletDelta.Read.Scan

/-!
# What a scan is bound to

Binding a scan to the schema of a store goes through the projected columns and overwrites, for each
of them, the route of the column that feeds it. Names are unique in both schemas, so what comes of
it is a map by name (`routeColumns_eq`): binding succeeds if every projected column is there with
its type, and then each of them is fed by exactly one column of the store, and no column feeds two
(`route_eq_some_iff`). A scan that cannot be bound stays as it is (`init_cases`).
-/

namespace TabletDelta

namespace Schema

/-- The column of a schema that has the name of a projected column. -/
def source? (schema projection : Schema) (column : Nat) : Option Nat :=
  projection.columns[column]?.bind fun c => schema.indexOf? c.name

end Schema

namespace Scan

/-- A scan is bound to a schema when it knows for each column which projected one it feeds, and
every projected column is there with its type. -/
structure Bound (schema : Schema) (s : Scan) : Prop where
  /-- The routes follow the names. -/
  routes_eq : s.routes = schema.columns.map fun column => s.projection.indexOf? column.name
  /-- Every projected column is in the schema, with its type. -/
  found : ∀ c ∈ s.projection.columns, ∃ stored, schema.named? c.name = some stored ∧
    stored.type = c.type

variable {schema : Schema} {s : Scan}

/-- A projected column is fed by the column of the store that is the same, if there is one. -/
theorem feeder_eq_ok_iff {c : Column} {j : Nat} :
    feeder schema c = .ok j ↔ schema.columns[j]? = some c := by
  unfold feeder
  constructor
  · intro h
    cases hindex : schema.indexOf? c.name with
    | none =>
      rw [hindex] at h
      cases h
    | some i =>
      obtain ⟨stored, hstored, hname⟩ := Schema.indexOf?_eq_some_iff.1 hindex
      rw [hindex] at h
      dsimp only at h
      rw [Schema.column_eq_ok_iff.2 hstored] at h
      dsimp only at h
      split at h
      · next htype =>
        cases h
        have hsame : stored = c := by
          cases stored
          cases c
          cases hname
          cases htype
          rfl
        rw [hstored, hsame]
      · cases h
  · intro hc
    rw [Schema.indexOf?_eq_some_iff.2 ⟨c, hc, rfl⟩]
    dsimp only
    rw [Schema.column_eq_ok_iff.2 hc]
    exact if_pos rfl

/-- A projected column that the store does not have is reported as such. -/
theorem feeder_unfit {c : Column} (h : c ∉ schema.columns) :
    ∃ fault, feeder schema c = .error (.projection fault) := by
  cases hfeeder : feeder schema c with
  | ok j => exact absurd (List.mem_of_getElem? (feeder_eq_ok_iff.1 hfeeder)) h
  | error e =>
    unfold feeder at hfeeder
    split at hfeeder
    · cases hfeeder
      exact ⟨_, rfl⟩
    · next i hindex =>
      obtain ⟨stored, hstored, -⟩ := Schema.indexOf?_eq_some_iff.1 hindex
      rw [Schema.column_eq_ok_iff.2 hstored] at hfeeder
      dsimp only at hfeeder
      split at hfeeder
      · cases hfeeder
      · cases hfeeder
        exact ⟨_, rfl⟩

/-- Columns are all routed if the schema has them all, and otherwise one of them is reported. -/
theorem routeColumns_cases (schema : Schema) (index : Nat) (columns : List Column)
    (routes : List (Option Nat)) :
    (columns ⊆ schema.columns ∧ ∃ after, routeColumns schema index columns routes = .ok after) ∨
      ¬ columns ⊆ schema.columns ∧
        ∃ fault, routeColumns schema index columns routes = .error (.projection fault) := by
  induction columns generalizing index routes with
  | nil => exact .inl ⟨List.nil_subset _, routes, rfl⟩
  | cons c columns ih =>
    unfold routeColumns
    by_cases hc : c ∈ schema.columns
    · obtain ⟨j, hj⟩ := List.getElem?_of_mem hc
      rw [feeder_eq_ok_iff.2 hj, List.cons_subset, and_iff_right hc]
      exact ih (index + 1) (routes.set j (some index))
    · obtain ⟨fault, hfault⟩ := feeder_unfit hc
      rw [hfault, List.cons_subset]
      exact .inr ⟨fun h => hc h.1, fault, rfl⟩

/-- Where columns are routed, the place of the first one overwrites the route of the column of the
store that it equals, and the others are routed after it. -/
theorem routeColumns_cons_eq_ok {index : Nat} {c : Column} {columns : List Column}
    {routes after : List (Option Nat)}
    (h : routeColumns schema index (c :: columns) routes = .ok after) :
    ∃ i, schema.columns[i]? = some c ∧
      routeColumns schema (index + 1) columns (routes.set i (some index)) = .ok after := by
  unfold routeColumns at h
  cases hfeeder : feeder schema c with
  | error e =>
    rw [hfeeder] at h
    cases h
  | ok i =>
    rw [hfeeder] at h
    exact ⟨i, feeder_eq_ok_iff.1 hfeeder, h⟩

/-- The routes are as many as before. -/
theorem length_routeColumns {index : Nat} {columns : List Column} {routes after : List (Option Nat)}
    (h : routeColumns schema index columns routes = .ok after) : after.length = routes.length := by
  induction columns generalizing index routes with
  | nil =>
    cases h
    rfl
  | cons c columns ih =>
    obtain ⟨i, -, hrest⟩ := routeColumns_cons_eq_ok h
    rw [ih hrest, List.length_set]

/-- Routing overwrites the route of a column of the store with the place of the projected column
that has its name, and leaves it alone if there is none. Names are unique on both sides, so nothing
is overwritten twice. -/
theorem getElem?_routeColumns {index : Nat} {columns : List Column}
    {routes after : List (Option Nat)} (hnodup : (columns.map Column.name).Nodup)
    (h : routeColumns schema index columns routes = .ok after) {j : Nat} {stored : Column}
    (hj : schema.columns[j]? = some stored) :
    after[j]? = routes[j]?.map fun old =>
      ((columns.findIdx? (·.name = stored.name)).map (index + ·)).or old := by
  induction columns generalizing index routes with
  | nil =>
    cases h
    simp
  | cons c columns ih =>
    obtain ⟨hfresh, hnodup⟩ := List.nodup_cons.1 hnodup
    obtain ⟨i, hi, hrest⟩ := routeColumns_cons_eq_ok h
    rw [ih hnodup hrest, List.getElem?_set, List.findIdx?_cons]
    by_cases hname : c.name = stored.name
    · -- The column of that name is fed now, and no later one is.
      have hsame : i = j := by
        have hindex := Schema.indexOf?_eq_some_iff.2 ⟨c, hi, rfl⟩
        rw [hname, Schema.indexOf?_eq_some_iff.2 ⟨stored, hj, rfl⟩] at hindex
        exact (Option.some.inj hindex).symm
      have hlater : columns.findIdx? (·.name = stored.name) = none := by
        rw [List.findIdx?_eq_none_iff]
        intro other hother
        rw [decide_eq_false_iff_not, ← hname]
        exact fun heq => hfresh (heq ▸ List.mem_map_of_mem hother)
      rw [hlater, if_pos hsame, hsame]
      by_cases hlt : j < routes.length <;> simp [hlt, hname]
    · have hother : i ≠ j := by
        rintro rfl
        rw [hi, Option.some_inj] at hj
        exact hname (congrArg Column.name hj)
      rw [if_neg hother]
      cases columns.findIdx? (·.name = stored.name) with
      | none => simp [hname]
      | some k => simp [hname, Nat.add_right_comm, Nat.add_assoc]

/-- Routing all columns of a projection routes each column of the store by its name. -/
theorem routeColumns_eq {projection : Schema} {after : List (Option Nat)}
    (h : routeColumns schema 0 projection.columns (List.replicate schema.size none) = .ok after) :
    after = schema.columns.map fun column => projection.indexOf? column.name := by
  have hlength := length_routeColumns h
  rw [List.length_replicate] at hlength
  refine List.ext_getElem? fun j => ?_
  rw [List.getElem?_map]
  cases hj : schema.columns[j]? with
  | none =>
    have hle : schema.size ≤ j := List.getElem?_eq_none_iff.1 hj
    exact List.getElem?_eq_none (hlength ▸ hle)
  | some stored =>
    have hlt : j < schema.size := (List.getElem?_eq_some_iff.1 hj).1
    rw [getElem?_routeColumns projection.nodup h hj, List.getElem?_replicate, if_pos hlt]
    show some (((projection.indexOf? stored.name).map (0 + ·)).or none) = _
    simp

/-- A fresh scan is bound if the schema has all its columns, and goes on no row by that. If the
schema does not, or if the scan is not fresh, the scan stays as it is. -/
theorem init_cases (schema : Schema) (s : Scan) :
    (s.phase = .fresh ∧ s.projection.columns ⊆ schema.columns ∧ ∃ routes,
      s.init schema = .ok () { s with phase := .bound, routes } ∧
        ({ s with phase := .bound, routes } : Scan).Bound schema) ∨
    (s.phase = .fresh ∧ ¬ s.projection.columns ⊆ schema.columns ∧
      ∃ fault, s.init schema = .fail (.projection fault) s) ∨
    s.phase ≠ .fresh ∧ s.init schema = .fail (.invalidState .alreadyInitialized) s := by
  unfold init
  by_cases hfresh : s.phase = .fresh
  · rw [if_pos hfresh]
    rcases routeColumns_cases schema 0 s.projection.columns (List.replicate schema.size none) with
      ⟨hcolumns, after, h⟩ | ⟨hcolumns, fault, h⟩
    · rw [h]
      refine .inl ⟨hfresh, hcolumns, after, rfl, routeColumns_eq h, fun c hc => ?_⟩
      exact ⟨c, Schema.named?_eq_some_iff.2 ⟨hcolumns hc, rfl⟩, rfl⟩
    · rw [h]
      exact .inr (.inl ⟨hfresh, hcolumns, fault, rfl⟩)
  · rw [if_neg hfresh]
    exact .inr (.inr ⟨hfresh, rfl⟩)

/-- A scan is bound once, and then to its store's schema; it goes on no row by that. -/
theorem init_eq_ok {after : Scan} (h : s.init schema = .ok () after) :
    s.phase = .fresh ∧ after = { s with phase := .bound, routes := after.routes } ∧
      after.Bound schema := by
  rcases init_cases schema s with
    ⟨hfresh, -, routes, hinit, hbound⟩ | ⟨-, -, fault, hinit⟩ | ⟨-, hinit⟩
  · rw [hinit] at h
    cases h
    exact ⟨hfresh, rfl, hbound⟩
  · rw [hinit] at h
    cases h
  · rw [hinit] at h
    cases h

/-- A scan can be bound if it is fresh and the schema has all its columns. -/
theorem init_result_iff :
    (s.init schema).result = .ok () ↔
      s.phase = .fresh ∧ s.projection.columns ⊆ schema.columns := by
  rcases init_cases schema s with
    ⟨hfresh, hcolumns, routes, hinit, -⟩ | ⟨-, hcolumns, fault, hinit⟩ | ⟨hfresh, hinit⟩
  · rw [hinit]
    exact iff_of_true rfl ⟨hfresh, hcolumns⟩
  · rw [hinit]
    exact iff_of_false nofun fun h => hcolumns h.2
  · rw [hinit]
    exact iff_of_false nofun fun h => hfresh h.1

/-- Every projected column has a source, of the same name and type. -/
theorem Bound.source?_eq_some (h : s.Bound schema) {column : Nat} {c : Column}
    (hc : s.projection.columns[column]? = some c) :
    ∃ j stored, schema.source? s.projection column = some j ∧ schema.columns[j]? = some stored ∧
      stored.name = c.name ∧ stored.type = c.type := by
  obtain ⟨stored, hnamed, htype⟩ := h.found c (List.mem_of_getElem? hc)
  obtain ⟨hname, j, hj⟩ := Schema.named?_eq_some hnamed
  refine ⟨j, stored, ?_, hj, hname, htype⟩
  rw [Schema.source?, hc, Option.bind_some, Schema.indexOf?_eq_some_iff]
  exact ⟨stored, hj, hname⟩

/-- A column of the store feeds a projected column exactly if it is the source of it. -/
theorem Bound.route_eq_some_iff (h : s.Bound schema) {j column : Nat} :
    s.route j = some column ↔ schema.source? s.projection column = some j := by
  unfold route Schema.source?
  rw [h.routes_eq, List.getElem?_map]
  constructor
  · intro hroute
    cases hj : schema.columns[j]? with
    | none =>
      rw [hj] at hroute
      cases hroute
    | some stored =>
      rw [hj, Option.map_some, Option.join_some, Schema.indexOf?_eq_some_iff] at hroute
      obtain ⟨c, hc, hname⟩ := hroute
      rw [hc, Option.bind_some, Schema.indexOf?_eq_some_iff]
      exact ⟨stored, hj, hname.symm⟩
  · intro hsource
    obtain ⟨c, hc, hindex⟩ := Option.bind_eq_some_iff.1 hsource
    obtain ⟨stored, hj, hname⟩ := Schema.indexOf?_eq_some_iff.1 hindex
    rw [hj, Option.map_some, Option.join_some, Schema.indexOf?_eq_some_iff]
    exact ⟨c, hc, hname.symm⟩

/-- An assignment that feeds a projected column is of the column's type. -/
theorem Bound.type_of_route (h : s.Bound schema) {a : Assignment} {column : Nat}
    (ha : a.Fits schema) (hroute : s.route a.column = some column) :
    ∃ c, s.projection.columns[column]? = some c ∧ a.value.type = c.type := by
  -- The column written and the column of the assignment have one name, and binding has compared
  -- their types.
  have hsource := h.route_eq_some_iff.1 hroute
  obtain ⟨c, hc, -⟩ := Option.bind_eq_some_iff.1 hsource
  obtain ⟨j, stored, hj, hstored, -, htype⟩ := h.source?_eq_some hc
  rw [hsource, Option.some_inj] at hj
  obtain ⟨stored', hstored', hvalue⟩ := ha
  rw [hj, hstored, Option.some_inj] at hstored'
  exact ⟨c, hc, by rw [hvalue, ← hstored', htype]⟩

end Scan

end TabletDelta
