import TabletDelta.Proofs.Arena.Room
import TabletDelta.Proofs.Run
import TabletDelta.Store

/-!
# Stores under updates

A store as a machine whose calls are updates. An update can still fail when it has begun to change
the store: the arena may refuse the copy, and the copy may be lost to an entry under its key. But
the arena is as it was when it refuses, and no copy is lost where no other update comes in between.
So an update that fails changes nothing, whatever the reason (`update_verdict`).

The store keeps exactly the deltas that it has accepted, in strictly increasing key order, and each
of them can be read (`Store.Holds`); this is the invariant of every run (`holds_of_run`), and all
that readers need of a store. In key order, a range of rows is the entries whose rows lie in it
(`range_eq_filter`).
-/

namespace TabletDelta

namespace Key

/-- Keys are ordered transitively. -/
theorem lt_trans {a b c : Key} (hab : a < b) (hbc : b < c) : a < c := by
  rcases hab with hab | ⟨hrow, hab⟩
  · rcases hbc with hbc | ⟨hrow, -⟩
    · exact .inl (UInt32.lt_trans hab hbc)
    · exact .inl (hrow ▸ hab)
  · rcases hbc with hbc | ⟨hrow', hbc⟩
    · exact .inl (hrow ▸ hbc)
    · exact .inr ⟨hrow.trans hrow', UInt64.lt_trans hab hbc⟩

/-- No key is below itself. -/
theorem lt_irrefl (a : Key) : ¬ a < a := by
  rintro (h | ⟨-, h⟩)
  · exact UInt32.lt_irrefl _ h
  · exact UInt64.lt_irrefl _ h

/-- Of two keys of which the first is not below the second, the second is below the first, unless
they are the same. -/
theorem lt_of_not_lt {a b : Key} (h : ¬ a < b) (hne : a ≠ b) : b < a := by
  -- Rows decide first; only in the same row do transactions count.
  rcases UInt32.lt_or_le b.row a.row with hrow | hrow
  · exact .inl hrow
  · rcases UInt32.lt_or_eq_of_le hrow with hlt | heq
    · exact absurd (.inl hlt) h
    · refine .inr ⟨heq.symm, ?_⟩
      have hle : b.txid ≤ a.txid := UInt64.not_lt.1 fun hlt => h (.inr ⟨heq, hlt⟩)
      refine UInt64.lt_of_le_of_ne hle fun hid => hne ?_
      cases a
      cases b
      cases heq
      cases hid
      rfl

end Key

/-- An insertion adds its entry and keeps all others. -/
theorem mem_insertEntry {e f : Entry} {entries : List Entry} :
    f ∈ insertEntry e entries ↔ f = e ∨ f ∈ entries := by
  induction entries with
  | nil => simp [insertEntry]
  | cons g gs ih =>
    unfold insertEntry
    split
    · rw [List.mem_cons]
    · rw [List.mem_cons, ih, List.mem_cons]
      exact or_left_comm

/-- An insertion under a new key keeps the key order. -/
theorem pairwise_insertEntry {e : Entry} {entries : List Entry}
    (h : entries.Pairwise fun a b => a.key < b.key) (hnew : ∀ f ∈ entries, f.key ≠ e.key) :
    (insertEntry e entries).Pairwise fun a b => a.key < b.key := by
  induction entries with
  | nil => simp [insertEntry]
  | cons g gs ih =>
    obtain ⟨hhead, htail⟩ := List.pairwise_cons.1 h
    unfold insertEntry
    split
    · next hlt =>
      refine List.pairwise_cons.2 ⟨?_, h⟩
      intro f hf
      rcases List.mem_cons.1 hf with rfl | hf
      · exact hlt
      · exact Key.lt_trans hlt (hhead f hf)
    · next hge =>
      -- The new entry lands somewhere in the tail. It is above the head: keys that are not below
      -- each other either way are the same, and the key is new.
      refine List.pairwise_cons.2 ⟨?_, ih htail fun f hf => hnew f (List.mem_cons_of_mem _ hf)⟩
      intro f hf
      rcases mem_insertEntry.1 hf with rfl | hf
      · exact Key.lt_of_not_lt hge (Ne.symm (hnew g List.mem_cons_self))
      · exact hhead f hf

/-- Where a test that fails once fails from there on, the elements before the first failure are
those that pass. -/
theorem takeWhile_eq_filter {α : Type} {p : α → Bool} {l : List α}
    (h : l.Pairwise fun a b => p b = true → p a = true) : l.takeWhile p = l.filter p := by
  induction l with
  | nil => rfl
  | cons a l ih =>
    obtain ⟨hhead, htail⟩ := List.pairwise_cons.1 h
    by_cases ha : p a = true
    · rw [List.takeWhile_cons_of_pos ha, List.filter_cons_of_pos ha, ih htail]
    · rw [List.takeWhile_cons_of_neg ha, List.filter_cons_of_neg ha]
      exact (List.filter_eq_nil_iff.2 fun b hb hpb => ha (hhead b hb hpb)).symm

/-- Where a test that fails once fails from there on, the elements from the first failure on are
those that fail. -/
theorem dropWhile_eq_filter {α : Type} {p : α → Bool} {l : List α}
    (h : l.Pairwise fun a b => p b = true → p a = true) : l.dropWhile p = l.filter (!p ·) := by
  induction l with
  | nil => rfl
  | cons a l ih =>
    obtain ⟨hhead, htail⟩ := List.pairwise_cons.1 h
    by_cases ha : p a = true
    · rw [List.dropWhile_cons_of_pos ha, List.filter_cons_of_neg (by simp [ha]), ih htail]
    · rw [List.dropWhile_cons_of_neg ha]
      refine (List.filter_eq_self.2 fun b hb => ?_).symm
      rcases List.mem_cons.1 hb with rfl | hb
      · simpa using ha
      · simpa using fun hpb => ha (hhead b hb hpb)

namespace Store

/-- In key order, the entries of a range of rows are those whose rows lie in it. -/
theorem range_eq_filter {s : Store} (h : s.entries.Pairwise fun a b => a.key < b.key)
    (start stop : Nat) :
    s.range start stop =
      s.entries.filter fun e => start ≤ e.key.row.toNat && e.key.row.toNat < stop := by
  -- Rows do not go down along the entries, so for either bound of the range the rows below it come
  -- first.
  have hrows : s.entries.Pairwise fun a b => a.key.row.toNat ≤ b.key.row.toNat := by
    refine h.imp fun hlt => ?_
    rcases hlt with hlt | ⟨heq, -⟩
    · exact Nat.le_of_lt (UInt32.lt_iff_toNat_lt.1 hlt)
    · exact Nat.le_of_eq (congrArg UInt32.toNat heq)
  have hbound : ∀ n, s.entries.Pairwise fun a b =>
      decide (b.key.row.toNat < n) = true → decide (a.key.row.toNat < n) = true := by
    intro n
    refine hrows.imp fun hle hb => ?_
    simp only [decide_eq_true_eq] at hb ⊢
    omega
  unfold range
  rw [dropWhile_eq_filter (hbound start), takeWhile_eq_filter ((hbound stop).filter _),
    List.filter_filter]
  refine List.filter_congr fun e _ => ?_
  rw [Bool.eq_iff_iff]
  simp [and_comm]

/-- There is an entry under a key exactly if the store looks it up. -/
theorem contains_iff {s : Store} {key : Key} :
    s.contains key = true ↔ ∃ f ∈ s.entries, f.key = key := by
  simp only [contains, List.any_eq_true, decide_eq_true_eq]

/-- A copy is lost if there is an entry under its key, and neither the entries nor the count change
then. Otherwise it is put in its place and counted. -/
theorem insertCopy_eq (s : Store) (key : Key) (copy : Bytes) :
    s.insertCopy key copy =
      if s.contains key then .fail (.duplicateDelta key) s
      else .ok () { s with
        entries := insertEntry ⟨key, copy⟩ s.entries
        added := s.added + 1 } := by
  unfold insertCopy getOrInsert
  cases hfind : s.entries.find? (·.key = key) with
  | some old =>
    have hold : s.contains key = true :=
      contains_iff.2 ⟨old, List.mem_of_find?_eq_some hfind, by simpa using List.find?_some hfind⟩
    rw [if_pos hold]
  | none =>
    have hnone : ¬ s.contains key = true := fun h => by
      obtain ⟨f, hf, hkey⟩ := contains_iff.1 h
      exact List.find?_eq_none.1 hfind f hf (by simpa using hkey)
    rw [if_neg hnone]

/-- A change list that a store can take: it is not empty, and it can be read. -/
def Storable (schema : Schema) (changes : Bytes) : Prop :=
  changes ≠ [] ∧ ∃ n, ChangeList.validate schema changes = .ok n

/-- What an update does. It is refused for one of four reasons, by its change list, by the keys of
the entries, and by the room in the memory, and then the store stays as it is; or there is a new
entry, for which a copy has been made. -/
inductive Verdict (s : Store) (e : Entry) : Outcome Store Unit → Prop where
  | empty (h : e.changes = []) : Verdict s e (.fail (.encoding .emptyChangeList) s)
  | corrupt (h : e.changes ≠ []) {fault : CorruptionFault}
    (hfault : ChangeList.validate s.schema e.changes = .error fault) :
    Verdict s e (.fail (.corruption fault) s)
  | duplicate (h : Storable s.schema e.changes) (hkey : ∃ f ∈ s.entries, f.key = e.key) :
    Verdict s e (.fail (.duplicateDelta e.key) s)
  | exhausted (h : Storable s.schema e.changes) (hkey : ∀ f ∈ s.entries, f.key ≠ e.key)
    (hroom : ¬ s.arena.HasRoom e.changes.length) {limit : UInt64}
    (hlimit : s.arena.config.limit = some limit) :
    Verdict s e (.fail (.arenaExhausted e.changes.length limit.toNat) s)
  | accept (h : Storable s.schema e.changes) (hkey : ∀ f ∈ s.entries, f.key ≠ e.key)
    (hroom : s.arena.HasRoom e.changes.length) {arena : Arena}
    (hcopy : s.arena.copy e.changes = .ok e.changes arena) :
    Verdict s e (.ok () { s with
      entries := insertEntry e s.entries
      arena
      added := s.added + 1 })

/-- The reasons are looked at in order. The arena refuses a copy before it changes anything, and the
copy is not lost, since no other update comes between the look for the key and the insertion. -/
theorem update_verdict (s : Store) (e : Entry) : Verdict s e (s.update e.key e.changes) := by
  unfold update
  by_cases hempty : e.changes.isEmpty = true
  · rw [if_pos hempty]
    exact .empty (List.isEmpty_iff.1 hempty)
  · rw [if_neg hempty]
    have hchanges : e.changes ≠ [] := fun h => hempty (List.isEmpty_iff.2 h)
    cases hvalid : ChangeList.validate s.schema e.changes with
    | error fault => exact .corrupt hchanges hvalid
    | ok n =>
      have hstorable : Storable s.schema e.changes := ⟨hchanges, n, hvalid⟩
      dsimp only
      by_cases hkey : s.contains e.key = true
      · rw [if_pos hkey]
        exact .duplicate hstorable (contains_iff.1 hkey)
      · rw [if_neg hkey]
        have hnew : ∀ f ∈ s.entries, f.key ≠ e.key := fun f hf hsame =>
          hkey (contains_iff.2 ⟨f, hf, hsame⟩)
        rcases s.arena.copy_cases e.changes with
          ⟨hroom, arena, hcopy, -⟩ | ⟨hroom, limit, hlimit, hcopy⟩
        · have hstill : ¬ ({ s with arena } : Store).contains e.key = true := hkey
          rw [hcopy]
          show Verdict s e (({ s with arena } : Store).insertCopy e.key e.changes)
          rw [insertCopy_eq, if_neg hstill]
          exact .accept hstorable hnew hroom hcopy
        · rw [hcopy]
          exact .exhausted hstorable hnew hroom hlimit

/-- The store as a machine whose calls are updates, each a change list under its key. -/
def step (e : Entry) (s : Store) : Except Error Unit × Store :=
  ((s.update e.key e.changes).result, (s.update e.key e.changes).state)

/-- The updates made to a store, with their answers. -/
abbrev History := List (Event Entry (Except Error Unit))

/-- The delta that an update has added. -/
def acceptedBy : Event Entry (Except Error Unit) → Option Entry
  | ⟨e, .ok ()⟩ => some e
  | _ => none

/-- The deltas that updates have added, in the order of the updates. -/
def deltas (events : History) : List Entry := events.filterMap acceptedBy

/-- The deltas added before a cut and after it. -/
theorem deltas_append (before after : History) :
    deltas (before ++ after) = deltas before ++ deltas after :=
  List.filterMap_append

/-- A delta was added by an update that succeeded. -/
theorem mem_deltas {events : History} {e : Entry} : e ∈ deltas events ↔ ⟨e, .ok ()⟩ ∈ events := by
  unfold deltas
  rw [List.mem_filterMap]
  constructor
  · rintro ⟨⟨f, result⟩, hmem, haccepted⟩
    cases result with
    | error fault => cases haccepted
    | ok u =>
      cases haccepted
      exact hmem
  · exact fun hmem => ⟨_, hmem, rfl⟩

/-- A store of a schema holds exactly the given deltas: they are in key order, and each of them can
be read. -/
structure Holds (s : Store) (schema : Schema) (deltas : List Entry) : Prop where
  /-- The change lists are written against this schema. -/
  schema_eq : s.schema = schema
  /-- The entries are in key order, and no two are under the same key. -/
  sorted : s.entries.Pairwise fun a b => a.key < b.key
  /-- The entries are the deltas. -/
  mem_entries : ∀ e, e ∈ s.entries ↔ e ∈ deltas
  /-- Every entry can be read. -/
  readable : ∀ e ∈ s.entries, ∃ as, ChangeList.assignments schema e.changes = .ok as

/-- A store that can be reached by updates from an empty one. -/
def Reachable (schema : Schema) (s : Store) : Prop :=
  ∃ config events, Run step (.empty schema config) events s

/-- A change list that passes the check can be read. -/
theorem assignments_of_validate {schema : Schema} {changes : Bytes} {n : Nat}
    (h : ChangeList.validate schema changes = .ok n) :
    ∃ as, ChangeList.assignments schema changes = .ok as := by
  unfold ChangeList.validate at h
  cases has : ChangeList.assignments schema changes with
  | error fault =>
    rw [has] at h
    cases h
  | ok as => exact ⟨as, rfl⟩

/-- An update fails and changes nothing, or it adds an entry that can be read, under a new key, for
which it has made a copy. -/
theorem step_cases (e : Entry) (s : Store) :
    (∃ fault, step e s = (.error fault, s)) ∨
    (∃ as, ChangeList.assignments s.schema e.changes = .ok as) ∧
      (∀ f ∈ s.entries, f.key ≠ e.key) ∧
      ∃ arena, s.arena.copy e.changes = .ok e.changes arena ∧ step e s = (.ok (), { s with
        entries := insertEntry e s.entries
        arena
        added := s.added + 1 }) := by
  have hverdict := s.update_verdict e
  unfold step
  generalize s.update e.key e.changes = updated at hverdict ⊢
  cases hverdict with
  | empty | corrupt | duplicate | exhausted => exact .inl ⟨_, rfl⟩
  | accept h hkey hroom hcopy =>
    obtain ⟨-, n, hvalid⟩ := h
    exact .inr ⟨assignments_of_validate hvalid, hkey, _, hcopy, rfl⟩

/-- An update does not change what change lists are written against. -/
theorem step_schema (e : Entry) (s : Store) : (step e s).2.schema = s.schema := by
  rcases step_cases e s with ⟨fault, h⟩ | ⟨-, -, arena, -, h⟩ <;> rw [h]

/-- A refused update adds no delta. -/
theorem deltas_snoc_refused {e : Entry} {s s' : Store} {fault : Error} (past : History)
    (h : step e s = (.error fault, s')) : deltas (past ++ [eventOf step e s]) = deltas past := by
  have hnone : deltas [eventOf step e s] = [] := by
    unfold eventOf
    rw [h]
    rfl
  rw [deltas_append, hnone, List.append_nil]

/-- An update that succeeds adds its delta behind those accepted before. -/
theorem deltas_snoc_accepted {e : Entry} {s s' : Store} (past : History)
    (h : step e s = (.ok (), s')) : deltas (past ++ [eventOf step e s]) = deltas past ++ [e] := by
  have hone : deltas [eventOf step e s] = [e] := by
    unfold eventOf
    rw [h]
    rfl
  rw [deltas_append, hone]

/-- Each update keeps the store to the deltas accepted so far. -/
theorem Holds.snoc {s : Store} {schema : Schema} {past : History} (e : Entry)
    (h : s.Holds schema (deltas past)) :
    (step e s).2.Holds schema (deltas (past ++ [eventOf step e s])) := by
  rcases step_cases e s with ⟨fault, hstep⟩ | ⟨hreadable, hnew, arena, -, hstep⟩
  · rw [deltas_snoc_refused past hstep, hstep]
    exact h
  · rw [deltas_snoc_accepted past hstep, hstep]
    -- What the update checks is what the new entry needs: its key is new, and it can be read.
    refine ⟨h.schema_eq, pairwise_insertEntry h.sorted hnew, fun f => ?_, fun f hf => ?_⟩
    · rw [mem_insertEntry, h.mem_entries, List.mem_append, List.mem_singleton, or_comm]
    · rcases mem_insertEntry.1 hf with rfl | hf
      · rwa [h.schema_eq] at hreadable
      · exact h.readable f hf

/-- After any updates, the store holds the deltas accepted. -/
theorem holds_of_run {schema : Schema} {config : ArenaConfig} {events : History} {s : Store}
    (h : Run step (.empty schema config) events s) : s.Holds schema (deltas events) :=
  h.invariant (fun past s => s.Holds schema (deltas past)) (fun _ _ e hs => hs.snoc e)
    ⟨rfl, .nil, fun e => by simp [empty, deltas], fun e he => by simp [empty] at he⟩

/-- A reachable store holds its own entries. -/
theorem Reachable.holds {schema : Schema} {s : Store} (h : Reachable schema s) :
    s.Holds schema s.entries := by
  obtain ⟨config, events, hrun⟩ := h
  have hholds := holds_of_run hrun
  exact ⟨hholds.schema_eq, hholds.sorted, fun e => .rfl, hholds.readable⟩

end Store

end TabletDelta
