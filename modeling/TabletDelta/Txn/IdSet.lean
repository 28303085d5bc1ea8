import TabletDelta.Key

/-!
# Finite sets of transactions

A `TxidSet` lists its members in strictly increasing order. The order makes the list canonical, so
two sets with the same members are equal, and it is the order in which members are shown and written
to the wire.
-/

namespace TabletDelta

/-- The list with `t` put in its place; a list that has `t` is left as it is. -/
def insertTxid (t : Txid) : List Txid → List Txid
  | [] => [t]
  | u :: us => if t < u then t :: u :: us else if t = u then u :: us else u :: insertTxid t us

theorem mem_insertTxid {t u : Txid} {ids : List Txid} :
    u ∈ insertTxid t ids ↔ u = t ∨ u ∈ ids := by
  induction ids with
  | nil => simp [insertTxid]
  | cons v vs ih => grind [insertTxid]

theorem pairwise_insertTxid {t : Txid} {ids : List Txid} (h : ids.Pairwise (· < ·)) :
    (insertTxid t ids).Pairwise (· < ·) := by
  induction ids with
  | nil => simp [insertTxid]
  | cons u us ih =>
    obtain ⟨hhead, htail⟩ := List.pairwise_cons.1 h
    unfold insertTxid
    split
    · next hlt =>
      refine List.pairwise_cons.2 ⟨fun v hv => ?_, h⟩
      rcases List.mem_cons.1 hv with rfl | hv
      · exact hlt
      · exact UInt64.lt_trans hlt (hhead v hv)
    · split
      · exact h
      · next hge hne =>
        refine List.pairwise_cons.2 ⟨fun v hv => ?_, ih htail⟩
        rcases mem_insertTxid.1 hv with rfl | hv
        · exact UInt64.lt_of_le_of_ne (UInt64.not_lt.1 hge) (Ne.symm hne)
        · exact hhead v hv

/-- The first two neighbours of a list that are not in strictly increasing order. -/
def firstDescent : List Txid → Option (Txid × Txid)
  | t :: u :: us => if t < u then firstDescent (u :: us) else some (t, u)
  | _ => none

/-- A list without such neighbours is strictly increasing throughout. -/
theorem firstDescent_eq_none_iff {ids : List Txid} :
    firstDescent ids = none ↔ ids.Pairwise (· < ·) := by
  induction ids with
  | nil => simp [firstDescent]
  | cons t ids ih =>
    cases ids with
    | nil => simp [firstDescent]
    | cons u us =>
      by_cases h : t < u
      · rw [firstDescent, if_pos h, ih, List.pairwise_cons (a := t)]
        refine ⟨fun hrest => ⟨fun v hv => ?_, hrest⟩, And.right⟩
        rcases List.mem_cons.1 hv with rfl | hv
        · exact h
        · exact UInt64.lt_trans h ((List.pairwise_cons.1 hrest).1 v hv)
      · simp [firstDescent, h]

/-- A finite set of transactions. -/
structure TxidSet where
  /-- The members. -/
  ids : List Txid
  /-- The members are listed in strictly increasing order. -/
  sorted : ids.Pairwise (· < ·)
deriving DecidableEq

namespace TxidSet

/-- The set without members. -/
def empty : TxidSet := ⟨[], .nil⟩

instance : Inhabited TxidSet := ⟨empty⟩

/-- The set with one more member. -/
def insert (s : TxidSet) (t : Txid) : TxidSet := ⟨insertTxid t s.ids, pairwise_insertTxid s.sorted⟩

/-- The members of a list as a set. -/
def ofList (ids : List Txid) : TxidSet := ids.foldl insert empty

/-- The members that satisfy a test. -/
def filter (s : TxidSet) (p : Txid → Bool) : TxidSet := ⟨s.ids.filter p, s.sorted.filter p⟩

/-- The set without a member. -/
def erase (s : TxidSet) (t : Txid) : TxidSet := s.filter (· ≠ t)

/-- The members that are at least `t`. -/
def atLeast (s : TxidSet) (t : Txid) : TxidSet := s.filter (t ≤ ·)

/-- Whether `t` is a member. Members below `t` are passed over, and the next one decides. -/
def contains (s : TxidSet) (t : Txid) : Bool := (s.ids.dropWhile (· < t)).head? = some t

/-- Takes a member out of the set, and answers whether it was there. -/
def remove (s : TxidSet) (t : Txid) : Bool × TxidSet := (s.contains t, s.erase t)

/-- The least member. -/
def min? (s : TxidSet) : Option Txid := s.ids.head?

/-- The number of members. -/
def size (s : TxidSet) : Nat := s.ids.length

/-- Whether there is no member. -/
def isEmpty (s : TxidSet) : Bool := s.ids.isEmpty

instance : Membership Txid TxidSet where
  mem s t := t ∈ s.ids

instance (s : TxidSet) (t : Txid) : Decidable (t ∈ s) := inferInstanceAs (Decidable (t ∈ s.ids))

theorem mem_def {s : TxidSet} {t : Txid} : t ∈ s ↔ t ∈ s.ids := .rfl

@[simp] theorem not_mem_empty (t : Txid) : t ∉ empty := by simp [mem_def, empty]

@[simp] theorem mem_insert {s : TxidSet} {t u : Txid} : u ∈ s.insert t ↔ u = t ∨ u ∈ s :=
  mem_insertTxid

@[simp] theorem mem_filter {s : TxidSet} {p : Txid → Bool} {t : Txid} :
    t ∈ s.filter p ↔ t ∈ s ∧ p t = true :=
  List.mem_filter

@[simp] theorem mem_erase {s : TxidSet} {t u : Txid} : u ∈ s.erase t ↔ u ∈ s ∧ u ≠ t := by
  simp [erase]

@[simp] theorem mem_atLeast {s : TxidSet} {t u : Txid} : u ∈ s.atLeast t ↔ u ∈ s ∧ t ≤ u := by
  simp [atLeast]

/-- Strictly increasing lists with the same members are equal: the least member heads both. -/
theorem eq_of_pairwise_of_mem_iff {l₁ l₂ : List Txid} (h₁ : l₁.Pairwise (· < ·))
    (h₂ : l₂.Pairwise (· < ·)) (h : ∀ t, t ∈ l₁ ↔ t ∈ l₂) : l₁ = l₂ := by
  induction l₁ generalizing l₂ with
  | nil => exact (List.eq_nil_iff_forall_not_mem.2 fun t ht => by simpa using (h t).2 ht).symm
  | cons t ts ih =>
    cases l₂ with
    | nil => exact absurd ((h t).1 List.mem_cons_self) List.not_mem_nil
    | cons u us =>
      obtain ⟨hts, hts'⟩ := List.pairwise_cons.1 h₁
      obtain ⟨hus, hus'⟩ := List.pairwise_cons.1 h₂
      have hmem := h
      simp only [List.mem_cons] at hmem
      -- Were the heads different, each would be above the other.
      have heq : t = u := by
        rcases (hmem t).1 (.inl rfl) with heq | ht
        · exact heq
        · rcases (hmem u).2 (.inl rfl) with heq | hu
          · exact heq.symm
          · exact absurd (UInt64.lt_trans (hts u hu) (hus t ht)) (UInt64.lt_irrefl t)
      subst heq
      refine congrArg (t :: ·) (ih hts' hus' fun v => ⟨fun hv => ?_, fun hv => ?_⟩)
      · rcases (hmem v).1 (.inr hv) with rfl | hv'
        · exact absurd (hts v hv) (UInt64.lt_irrefl v)
        · exact hv'
      · rcases (hmem v).2 (.inr hv) with rfl | hv'
        · exact absurd (hus v hv) (UInt64.lt_irrefl v)
        · exact hv'

/-- A set is determined by its members. -/
@[ext] theorem ext {s t : TxidSet} (h : ∀ u, u ∈ s ↔ u ∈ t) : s = t := by
  cases s with | mk ids hids =>
  cases t with | mk ids' hids' =>
  cases eq_of_pairwise_of_mem_iff hids hids' h
  rfl

/-- What is not in a set cannot be taken out of it. -/
theorem erase_of_not_mem {s : TxidSet} {t : Txid} (h : t ∉ s) : s.erase t = s := by
  ext u
  rw [mem_erase]
  exact ⟨And.left, fun hu => ⟨hu, fun heq => h (heq ▸ hu)⟩⟩

/-- In a strictly increasing list, the first element that is not below `t` is `t` exactly when the
list has `t`: everything after a larger element is larger still. -/
theorem head?_dropWhile_eq_some_iff {t : Txid} {ids : List Txid} (h : ids.Pairwise (· < ·)) :
    (ids.dropWhile (· < t)).head? = some t ↔ t ∈ ids := by
  induction ids with
  | nil => simp
  | cons u us ih =>
    obtain ⟨hhead, htail⟩ := List.pairwise_cons.1 h
    by_cases hlt : u < t
    · have hne : t ≠ u := fun heq => UInt64.lt_irrefl u (heq ▸ hlt)
      simp [hlt, ih htail, hne]
    · have hrest : t ∈ us → t = u := fun hmem => absurd (hhead t hmem) hlt
      simp only [hlt, decide_false, Bool.false_eq_true, not_false_eq_true,
        List.dropWhile_cons_of_neg, List.head?_cons, Option.some.injEq, List.mem_cons]
      exact ⟨fun heq => .inl heq.symm, fun hmem => (hmem.elim id hrest).symm⟩

/-- The test for members finds exactly the members. -/
@[simp] theorem contains_iff_mem {s : TxidSet} {t : Txid} : s.contains t = true ↔ t ∈ s := by
  simp [contains, head?_dropWhile_eq_some_iff s.sorted, mem_def]

/-- The members in order, as text. -/
def text (s : TxidSet) : String := ",".intercalate (s.ids.map fun t => toString t.toNat)

end TxidSet

end TabletDelta
