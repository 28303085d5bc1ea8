import TabletDelta.Proofs.Read.Binding

/-!
# Projecting and binding

Names of columns are looked up twice: when a schema is projected, and when a scan of the projection
is bound to a store. The two agree. What projecting by a list of names accepts, and what it reports
otherwise, is a matter of the names alone (`Schema.ProjectsBy`). Binding accepts any projection of
columns that the store has, with their types, and then each projected column is fed by the one
column of the store that has its name (`Schema.BindsTo`). So a projection of the store's schema is
always accepted (`Schema.projection_binds_by_name`).
-/

namespace TabletDelta

namespace Schema

/-- What comes of projecting a schema by a list of names. -/
structure ProjectsBy (s : Schema) (names : List String) : Prop where
  /-- There is a projection if all names are those of columns, and none occurs twice. -/
  ok_iff : (∃ p, s.project names = .ok p) ↔
    (∀ name ∈ names, name ∈ s.columns.map Column.name) ∧ names.Nodup
  /-- The first name that is no column's is reported, whatever is repeated. -/
  unknown : ∀ known name later, names = known ++ name :: later →
    (∀ n ∈ known, n ∈ s.columns.map Column.name) → name ∉ s.columns.map Column.name →
      s.project names = .error (.projection (.unknownColumn name))
  /-- If all names are those of columns, the first one that occurs again is reported. -/
  repeated : (∀ name ∈ names, name ∈ s.columns.map Column.name) →
    ∀ before name later, names = before ++ name :: later → before.Nodup → name ∈ before →
      s.project names = .error (.invalidSchema (.duplicateName name))
  /-- A projection has the named columns of the schema, with their types, in the order of the names,
  and no keys. -/
  columns_eq : ∀ p, s.project names = .ok p →
    p.columns.map Column.name = names ∧ p.columns ⊆ s.columns ∧ p.keyCount = 0
  /-- A scan of a projection is accepted by every store of the schema. -/
  accepted : ∀ p, s.project names = .ok p → ∀ (store : Store) (snapshot : Snapshot),
    store.schema = s → (DeltaSource.init store (Scan.start p snapshot)).result = .ok ()
  /-- Projecting a projection by names of its columns is projecting the schema by these names. -/
  again : ∀ p, s.project names = .ok p → ∀ chosen ⊆ names, p.project chosen = s.project chosen

/-- What comes of binding a scan of a projection to a store of a schema. -/
structure BindsTo (schema projection : Schema) : Prop where
  /-- A new scan is accepted if for each projected column there is a column of the same name and
  type in the store. -/
  init_iff : ∀ (store : Store) (snapshot : Snapshot), store.schema = schema →
    ((DeltaSource.init store (Scan.start projection snapshot)).result = .ok () ↔
      ∀ c ∈ projection.columns, ∃ stored ∈ schema.columns,
        stored.name = c.name ∧ stored.type = c.type)
  /-- Then a column of the store feeds the projected column of its name, and no other one. -/
  route_iff : ∀ (store : Store) (snapshot : Snapshot), store.schema = schema →
    (DeltaSource.init store (Scan.start projection snapshot)).result = .ok () →
      ∀ j i, (DeltaSource.init store (Scan.start projection snapshot)).state.route j = some i ↔
        ∃ stored c, schema.columns[j]? = some stored ∧ projection.columns[i]? = some c ∧
          stored.name = c.name
  /-- Every projected column is fed by one column of the store, and by no other one. -/
  fed_once : ∀ (store : Store) (snapshot : Snapshot), store.schema = schema →
    (DeltaSource.init store (Scan.start projection snapshot)).result = .ok () →
      ∀ i < projection.size,
        ∃! j, (DeltaSource.init store (Scan.start projection snapshot)).state.route j = some i

/-- A column is one of a schema's if there is one of the same name and type. -/
theorem mem_columns_iff {s : Schema} {c : Column} :
    c ∈ s.columns ↔ ∃ stored ∈ s.columns, stored.name = c.name ∧ stored.type = c.type := by
  constructor
  · exact fun hc => ⟨c, hc, rfl, rfl⟩
  · rintro ⟨⟨name, type⟩, hstored, rfl, rfl⟩
    exact hstored

end Schema

namespace Scan

variable {projection : Schema} {store : Store} {snapshot : Snapshot}

/-- A new scan is accepted by a store that has all its columns. -/
theorem init_start_iff :
    (DeltaSource.init store (start projection snapshot)).result = .ok () ↔
      projection.columns ⊆ store.schema.columns :=
  init_result_iff.trans (and_iff_right rfl)

/-- A new scan that a store has accepted is bound to the store's schema. -/
theorem bound_of_init
    (h : (DeltaSource.init store (start projection snapshot)).result = .ok ()) :
    (DeltaSource.init store (start projection snapshot)).state.projection = projection ∧
      (DeltaSource.init store (start projection snapshot)).state.Bound store.schema := by
  change ((start projection snapshot).init store.schema).result = _ at h
  show ((start projection snapshot).init store.schema).state.projection = _ ∧
    ((start projection snapshot).init store.schema).state.Bound store.schema
  rcases init_cases store.schema (start projection snapshot) with
    ⟨-, -, routes, hinit, hbound⟩ | ⟨-, -, fault, hinit⟩ | ⟨hfresh, -⟩
  · rw [hinit]
    exact ⟨rfl, hbound⟩
  · rw [hinit] at h
    cases h
  · exact absurd rfl hfresh

end Scan

namespace Schema

/-- Projecting goes by the names. -/
theorem projectsBy (s : Schema) (names : List String) : s.ProjectsBy names where
  ok_iff := by
    constructor
    · rintro ⟨p, hp⟩
      obtain ⟨rfl, hsub, -⟩ := project_eq_ok_iff.1 hp
      exact ⟨fun name hname => List.map_subset _ hsub hname, p.nodup⟩
    · rintro ⟨hknown, hnodup⟩
      obtain ⟨columns, hsub, rfl⟩ := exists_columns hknown
      exact ⟨⟨columns, 0, Nat.zero_le _, hnodup⟩, project_eq_ok_iff.2 ⟨rfl, hsub, rfl⟩⟩
  unknown known name later hnames hknown hname := by
    rw [hnames, project_unknown hknown hname]
  repeated hknown before name later hnames hbefore hname := by
    rw [hnames] at hknown ⊢
    rw [project_repeated hknown hbefore hname]
  columns_eq p hp := project_eq_ok_iff.1 hp
  accepted p hp store snapshot hschema := by
    obtain ⟨-, hsub, -⟩ := project_eq_ok_iff.1 hp
    exact Scan.init_start_iff.2 (hschema ▸ hsub)
  again p hp chosen hchosen := by
    obtain ⟨rfl, hsub, -⟩ := project_eq_ok_iff.1 hp
    -- The columns of these names are columns of the projection, and so of the schema.
    obtain ⟨columns, hcolumns, rfl⟩ := exists_columns (s := p) fun name hname => hchosen hname
    rw [project_names hcolumns, project_names (List.Subset.trans hcolumns hsub)]

/-- Binding goes by the names. -/
theorem bindsTo (schema projection : Schema) : schema.BindsTo projection where
  init_iff store snapshot hschema := by
    rw [Scan.init_start_iff, hschema]
    exact forall₂_congr fun c _ => mem_columns_iff
  route_iff store snapshot hschema hok j i := by
    obtain ⟨hprojection, hbound⟩ := Scan.bound_of_init hok
    rw [hbound.route_eq_some_iff, hprojection, hschema, source?, Option.bind_eq_some_iff]
    constructor
    · rintro ⟨c, hc, hindex⟩
      obtain ⟨stored, hj, hname⟩ := indexOf?_eq_some_iff.1 hindex
      exact ⟨stored, c, hj, hc, hname⟩
    · rintro ⟨stored, c, hj, hc, hname⟩
      exact ⟨c, hc, indexOf?_eq_some_iff.2 ⟨stored, hj, hname⟩⟩
  fed_once store snapshot hschema hok i hi := by
    obtain ⟨hprojection, hbound⟩ := Scan.bound_of_init hok
    obtain ⟨c, hc⟩ : ∃ c, projection.columns[i]? = some c := ⟨_, List.getElem?_eq_getElem hi⟩
    rw [← hprojection] at hc
    obtain ⟨j, -, hsource, -⟩ := hbound.source?_eq_some hc
    refine ⟨j, hbound.route_eq_some_iff.2 hsource, fun other hother => ?_⟩
    -- A projected column has one source only.
    have hsource' := hbound.route_eq_some_iff.1 hother
    rw [hsource, Option.some_inj] at hsource'
    exact hsource'.symm

/-- Projecting and binding agree. For every schema, projecting by a list of names succeeds if these
are names of columns, each occurring once; otherwise the first one that is no column's is reported,
or if there is none, the first one that occurs again. A projection is accepted by every store of the
schema. And for any projection, binding a scan of it to a store succeeds if the store has its
columns, and leads the cells of each to it by the name. -/
theorem projection_binds_by_name (s : Schema) :
    (∀ names, s.ProjectsBy names) ∧ ∀ projection, s.BindsTo projection :=
  ⟨s.projectsBy, s.bindsTo⟩

/-- A text key and two numbers. -/
def countedSchema : Schema :=
  ⟨[⟨"key", .string⟩, ⟨"insert_id", .uint32⟩, ⟨"update_count", .uint32⟩], 1, by decide, by decide⟩

/-- The last column and the key are projected in this order, without keys, and the last column of a
store then feeds the first one projected. A name that is no column's is reported although another
one is repeated before it, and a key under another type is not accepted. -/
theorem projection_binds_by_name_counted :
    (∃ p, countedSchema.project ["update_count", "key"] = .ok p ∧ p.keyCount = 0 ∧
      (DeltaSource.init (Store.empty countedSchema {})
        (Scan.start p .includingAll)).state.route 2 = some 0) ∧
      countedSchema.project ["key", "key", "missing", "key"] =
        .error (.projection (.unknownColumn "missing")) ∧
      countedSchema.project ["key", "insert_id", "key"] =
        .error (.invalidSchema (.duplicateName "key")) ∧
      (DeltaSource.init (Store.empty countedSchema {})
        (Scan.start ⟨[⟨"key", .uint64⟩], 0, by decide, by decide⟩ .includingAll)).result ≠
          .ok () := by
  obtain ⟨hproject, hbind⟩ := projection_binds_by_name countedSchema
  refine ⟨?_, ?_, ?_, fun hok => ?_⟩
  · have hnames := hproject ["update_count", "key"]
    obtain ⟨p, hp⟩ := hnames.ok_iff.2 ⟨by decide, by decide⟩
    obtain ⟨hcolumns, -, hkeys⟩ := hnames.columns_eq p hp
    refine ⟨p, hp, hkeys, ?_⟩
    have hfirst : (p.columns.map Column.name)[0]? = some "update_count" := by rw [hcolumns]; rfl
    rw [List.getElem?_map, Option.map_eq_some_iff] at hfirst
    obtain ⟨c, hc, hname⟩ := hfirst
    have haccepted := hnames.accepted p hp (.empty countedSchema {}) .includingAll rfl
    refine ((hbind p).route_iff _ _ rfl haccepted 2 0).2
      ⟨⟨"update_count", .uint32⟩, c, rfl, hc, hname.symm⟩
  · exact (hproject _).unknown ["key", "key"] "missing" ["key"] rfl (by decide) (by decide)
  · exact (hproject _).repeated (by decide) ["key", "insert_id"] "key" [] rfl (by decide)
      (by decide)
  · obtain ⟨stored, hstored, hname, htype⟩ :=
      ((hbind _).init_iff _ _ rfl).1 hok ⟨"key", .uint64⟩ List.mem_cons_self
    simp only [countedSchema, List.mem_cons, List.not_mem_nil, or_false] at hstored
    rcases hstored with rfl | rfl | rfl
    · cases htype
    · exact absurd hname (by decide)
    · exact absurd hname (by decide)

end Schema

end TabletDelta
