import Mathlib.Data.List.Perm.Subperm
import Mathlib.Tactic.Tauto
import TabletDelta.Txn.IdSet

/-!
# Counting sets of transactions

A set lists its members in strictly increasing order, so each of them once, and its size is the
number of its members. It is at most the length of any list that has them all (`TxidSet.size_le`),
and a set that has all the members of another one without being larger is the same set
(`TxidSet.eq_of_size_le`). The set of a list is determined by the members of the list.
-/

namespace TabletDelta

/-- A list in strictly increasing order names no transaction twice. -/
theorem nodup_of_increasing {ids : List Txid} (h : ids.Pairwise (· < ·)) : ids.Nodup := by
  refine h.imp ?_
  rintro t u hlt rfl
  exact UInt64.lt_irrefl t hlt

namespace TxidSet

/-- The members of a list are added to those that are there. -/
theorem mem_foldl_insert {ids : List Txid} {s : TxidSet} {t : Txid} :
    t ∈ ids.foldl insert s ↔ t ∈ s ∨ t ∈ ids := by
  induction ids generalizing s with
  | nil => simp
  | cons u ids ih =>
    rw [List.foldl_cons, ih, mem_insert, List.mem_cons]
    tauto

/-- The set of a list has the members of the list. -/
theorem mem_ofList {ids : List Txid} {t : Txid} : t ∈ ofList ids ↔ t ∈ ids := by
  unfold ofList
  rw [mem_foldl_insert]
  exact or_iff_right (not_mem_empty t)

/-- A set with the members of a list is the set of the list. -/
theorem eq_ofList {s : TxidSet} {ids : List Txid} (h : ∀ t, t ∈ s ↔ t ∈ ids) : s = ofList ids :=
  ext fun t => (h t).trans mem_ofList.symm

/-- A set is not larger than a list that has its members. -/
theorem size_le {s : TxidSet} {ids : List Txid} (h : ∀ t ∈ s, t ∈ ids) : s.size ≤ ids.length := by
  have hsub : s.ids ⊆ ids := fun t ht => h t ht
  exact ((nodup_of_increasing s.sorted).subperm hsub).length_le

/-- A set that has all the members of another one and is not larger is the same set. -/
theorem eq_of_size_le {s t : TxidSet} (h : ∀ u ∈ s, u ∈ t) (hsize : t.size ≤ s.size) : s = t := by
  have hsub : s.ids ⊆ t.ids := fun u hu => h u hu
  have hperm : s.ids.Perm t.ids :=
    ((nodup_of_increasing s.sorted).subperm hsub).perm_of_length_le hsize
  exact ext fun u => hperm.mem_iff

end TxidSet

end TabletDelta
