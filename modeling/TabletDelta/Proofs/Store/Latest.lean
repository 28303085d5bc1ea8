import Mathlib.Data.List.MinMax
import TabletDelta.Proofs.Store.Updates

/-!
# The latest value of a cell

What a reader of one cell should find: among the deltas of the cell's row that the reader sees and
that change the cell's column, the one of the last transaction counts, and in its change list the
last assignment to the column (`latest`). This is said of a list of deltas in any order, and
`latest_congr` shows that the order does not matter. A store lists its deltas in key order, where
the latest value is simply the last one (`getLast?_values_eq_latest`).
-/

namespace TabletDelta

/-- The values that a change list gives to a column, in the order of its assignments; none if it
cannot be read. -/
def Entry.values (schema : Schema) (column : Nat) (e : Entry) : List Cell :=
  match ChangeList.assignments schema e.changes with
  | .ok as => as.filterMap fun a => if a.column = column then some a.value else none
  | .error _ => []

/-- The place of a delta among the deltas of its row: later transactions have larger numbers. -/
def Entry.rank (e : Entry) : Nat := e.key.txid.toNat

/-- The deltas of a row that are seen and change a column. -/
def candidates (schema : Schema) (deltas : List Entry) (sees : Txid → Bool) (row column : Nat) :
    List Entry :=
  deltas.filter fun e =>
    e.key.row.toNat = row && sees e.key.txid && !(e.values schema column).isEmpty

/-- The delta of the last transaction among those of a row that are seen and change a column. -/
def newest (schema : Schema) (deltas : List Entry) (sees : Txid → Bool) (row column : Nat) :
    Option Entry :=
  (candidates schema deltas sees row column).argmax Entry.rank

/-- The last value that the deltas seen give to a column of a row: first by transaction, and then
by the place in the change list. -/
def latest (schema : Schema) (deltas : List Entry) (sees : Txid → Bool) (row column : Nat) :
    Option Cell :=
  (newest schema deltas sees row column).bind fun e => (e.values schema column).getLast?

variable {schema : Schema} {deltas : List Entry} {sees : Txid → Bool} {row column : Nat}

/-- A delta is a candidate if it is of the row, seen, and changes the column. -/
theorem mem_candidates {e : Entry} :
    e ∈ candidates schema deltas sees row column ↔ e ∈ deltas ∧ e.key.row.toNat = row ∧
      sees e.key.txid = true ∧ e.values schema column ≠ [] := by
  simp [candidates, and_assoc]

/-- Candidates of one transaction are under one key. -/
theorem key_eq_of_mem_candidates {e f : Entry}
    (he : e ∈ candidates schema deltas sees row column)
    (hf : f ∈ candidates schema deltas sees row column)
    (hrank : e.rank = f.rank) : e.key = f.key := by
  have hrow : e.key.row = f.key.row :=
    UInt32.toNat_inj.1 ((mem_candidates.1 he).2.1.trans (mem_candidates.1 hf).2.1.symm)
  have hid : e.key.txid = f.key.txid := UInt64.toNat_inj.1 hrank
  calc e.key = ⟨e.key.row, e.key.txid⟩ := rfl
    _ = ⟨f.key.row, f.key.txid⟩ := by rw [hrow, hid]
    _ = f.key := rfl

/-- Where no two candidates are under one key, the newest delta is the candidate that no other one
is above. -/
theorem newest_eq_some_iff {e : Entry}
    (hkeys : ∀ e ∈ candidates schema deltas sees row column,
      ∀ f ∈ candidates schema deltas sees row column, e.key = f.key → e = f) :
    newest schema deltas sees row column = some e ↔
      e ∈ candidates schema deltas sees row column ∧
        ∀ f ∈ candidates schema deltas sees row column, f.rank ≤ e.rank := by
  unfold newest
  constructor
  · intro h
    exact ⟨List.argmax_mem h, fun f hf => List.le_of_mem_argmax hf h⟩
  · rintro ⟨he, hmax⟩
    cases hnewest : (candidates schema deltas sees row column).argmax Entry.rank with
    | none =>
      rw [List.argmax_eq_none] at hnewest
      rw [hnewest] at he
      exact absurd he List.not_mem_nil
    | some f =>
      -- The delta found and the one given are each not above the other, so they are of one
      -- transaction, and then under one key.
      have hf := List.argmax_mem hnewest
      have hle := List.le_of_mem_argmax he hnewest
      have hkey := key_eq_of_mem_candidates he hf (Nat.le_antisymm hle (hmax f hf))
      rw [hkeys e he f hf hkey]

/-- The latest value depends only on which deltas are candidates, not on their order. -/
theorem latest_congr {other : List Entry} {sees' : Txid → Bool}
    (hkeys : ∀ e ∈ deltas, ∀ f ∈ deltas, e.key = f.key → e = f)
    (hsame : ∀ e, e ∈ candidates schema deltas sees row column ↔
      e ∈ candidates schema other sees' row column) :
    latest schema deltas sees row column = latest schema other sees' row column := by
  have hkeys : ∀ e ∈ candidates schema deltas sees row column,
      ∀ f ∈ candidates schema deltas sees row column, e.key = f.key → e = f :=
    fun e he f hf => hkeys e (mem_candidates.1 he).1 f (mem_candidates.1 hf).1
  have hnewest : newest schema deltas sees row column = newest schema other sees' row column := by
    refine Option.ext fun e => ?_
    rw [newest_eq_some_iff hkeys, newest_eq_some_iff]
    · simp only [hsame]
    · simpa only [hsame] using hkeys
  unfold latest
  rw [hnewest]

/-- Where no delta is under the key of a later one, and all later ones of a row are of later
transactions, a latest value among the later ones counts before one among the others. -/
theorem latest_append {older newer : List Entry}
    (hkeys : ∀ e ∈ older ++ newer, ∀ f ∈ older ++ newer, e.key = f.key → e = f)
    (hlater : ∀ e ∈ older, ∀ f ∈ newer, e.key.row = f.key.row → e.key.txid < f.key.txid) :
    latest schema (older ++ newer) sees row column =
      (latest schema newer sees row column).or (latest schema older sees row column) := by
  have hcandidates : candidates schema (older ++ newer) sees row column =
      candidates schema older sees row column ++ candidates schema newer sees row column :=
    List.filter_append ..
  cases hnewest : newest schema newer sees row column with
  | none =>
    -- Without a candidate among the later ones, the candidates are the earlier ones.
    have hnone : candidates schema newer sees row column = [] := List.argmax_eq_none.1 hnewest
    have hboth : newest schema (older ++ newer) sees row column =
        newest schema older sees row column := by
      unfold newest
      rw [hcandidates, hnone, List.append_nil]
    unfold latest
    rw [hboth, hnewest]
    rfl
  | some f =>
    have hf : f ∈ candidates schema newer sees row column := List.argmax_mem hnewest
    have hboth : newest schema (older ++ newer) sees row column = some f := by
      rw [newest_eq_some_iff fun e he f hf => hkeys e (mem_candidates.1 he).1 f
        (mem_candidates.1 hf).1, hcandidates]
      refine ⟨List.mem_append_right _ hf, fun e he => ?_⟩
      rcases List.mem_append.1 he with he | he
      · -- An earlier candidate is of the same row, so its transaction is an earlier one.
        obtain ⟨hemem, herow, -⟩ := mem_candidates.1 he
        obtain ⟨hfmem, hfrow, -⟩ := mem_candidates.1 hf
        have hlt := hlater e hemem f hfmem (UInt32.toNat_inj.1 (herow.trans hfrow.symm))
        exact Nat.le_of_lt (UInt64.lt_iff_toNat_lt.1 hlt)
      · exact List.le_of_mem_argmax he hnewest
    obtain ⟨v, hv⟩ := Option.ne_none_iff_exists'.1
      (mt List.getLast?_eq_none_iff.1 (mem_candidates.1 hf).2.2.2)
    simp only [latest, hboth, hnewest, Option.bind_some, hv, Option.some_or]

/-- Entries in key order that are under one key are the same. -/
theorem eq_of_sorted {entries : List Entry} (h : entries.Pairwise fun a b => a.key < b.key) :
    ∀ e ∈ entries, ∀ f ∈ entries, e.key = f.key → e = f := by
  induction entries with
  | nil => simp
  | cons g gs ih =>
    obtain ⟨hhead, htail⟩ := List.pairwise_cons.1 h
    intro e he f hf hkey
    rcases List.mem_cons.1 he with rfl | hegs
    · rcases List.mem_cons.1 hf with rfl | hfgs
      · rfl
      · exact absurd (hkey ▸ hhead f hfgs) (Key.lt_irrefl _)
    · rcases List.mem_cons.1 hf with rfl | hfgs
      · exact absurd (hkey ▸ hhead e hegs) (Key.lt_irrefl _)
      · exact ih htail e hegs f hfgs hkey

/-- A store holds one delta under a key at most. -/
theorem Store.Holds.eq_of_key {s : Store} (h : s.Holds schema deltas) :
    ∀ e ∈ deltas, ∀ f ∈ deltas, e.key = f.key → e = f :=
  fun e he f hf => eq_of_sorted h.sorted e ((h.mem_entries e).2 he) f ((h.mem_entries f).2 hf)

/-- In key order, the latest value of a cell is the last of the values that the deltas seen of its
row give to its column. -/
theorem getLast?_values_eq_latest (h : deltas.Pairwise fun a b => a.key < b.key) :
    ((deltas.filter fun e => e.key.row.toNat = row && sees e.key.txid).flatMap
      (Entry.values schema column)).getLast? = latest schema deltas sees row column := by
  -- By induction from the end of the list, where the delta of the largest key stands.
  induction deltas using List.reverseRecOn with
  | nil => rfl
  | append_singleton deltas e ih =>
    have hkeys := eq_of_sorted h
    obtain ⟨hsorted, -, hlast⟩ := List.pairwise_append.1 h
    have hlast : ∀ d ∈ deltas, d.key < e.key := fun d hd => hlast d hd e List.mem_cons_self
    rw [List.filter_append, List.flatMap_append, List.getLast?_append, ih hsorted]
    have hcandidates : candidates schema (deltas ++ [e]) sees row column =
        candidates schema deltas sees row column ++ candidates schema [e] sees row column :=
      List.filter_append ..
    by_cases hmem : e ∈ candidates schema [e] sees row column
    · -- A candidate at the end of the list is the newest, and its last value comes last.
      obtain ⟨-, hrow, hsees, hvalues⟩ := mem_candidates.1 hmem
      have hnewest : newest schema (deltas ++ [e]) sees row column = some e := by
        rw [newest_eq_some_iff fun d hd f hf => hkeys d (mem_candidates.1 hd).1 f
          (mem_candidates.1 hf).1]
        refine ⟨by rw [hcandidates]; exact List.mem_append_right _ hmem, fun f hf => ?_⟩
        rw [hcandidates] at hf
        rcases List.mem_append.1 hf with hf | hf
        · -- An earlier candidate is of the same row, so the key order compares transactions.
          obtain ⟨hfmem, hfrow, -, -⟩ := mem_candidates.1 hf
          rcases hlast f hfmem with hlt | ⟨-, hlt⟩
          · rw [UInt32.lt_iff_toNat_lt] at hlt
            omega
          · exact Nat.le_of_lt (UInt64.lt_iff_toNat_lt.1 hlt)
        · rw [List.mem_singleton.1 (mem_candidates.1 hf).1]
      obtain ⟨v, hv⟩ := Option.ne_none_iff_exists'.1 (mt List.getLast?_eq_none_iff.1 hvalues)
      simp [latest, hnewest, hrow, hsees, hv]
    · -- Any other entry at the end of the list changes nothing.
      have hnone : candidates schema [e] sees row column = [] := by
        refine List.eq_nil_iff_forall_not_mem.2 fun f hf => hmem ?_
        rwa [List.mem_singleton.1 (mem_candidates.1 hf).1] at hf
      have hlatest : latest schema (deltas ++ [e]) sees row column =
          latest schema deltas sees row column := by
        simp only [latest, newest, hcandidates, hnone, List.append_nil]
      rw [hlatest]
      rw [mem_candidates] at hmem
      by_cases hseen : (e.key.row.toNat = row && sees e.key.txid) = true
      · have hvalues : e.values schema column = [] := by
          by_contra hne
          simp only [Bool.and_eq_true, decide_eq_true_eq] at hseen
          exact hmem ⟨List.mem_cons_self, hseen.1, hseen.2, hne⟩
        simp [hseen, hvalues]
      · simp [hseen]

/-- The schema of one column of numbers. -/
def Schema.numbers : Schema := ⟨[⟨"n", .uint32⟩], 0, by decide, by decide⟩

-- Transaction 3 is not seen, and 2 is later than 1 although it was added first.
example : latest .numbers
    [⟨⟨5, 2⟩, [0, 0, 0, 0, 8, 0, 0, 0, 0, 0, 0, 0, 7, 0, 0, 0]⟩, ⟨⟨5, 1⟩, [0, 0, 0, 0, 3, 0, 0, 0]⟩,
      ⟨⟨5, 3⟩, [0, 0, 0, 0, 9, 0, 0, 0]⟩] (· ≠ 3) 5 0 = some (.uint32 7) := by decide +kernel

end TabletDelta
