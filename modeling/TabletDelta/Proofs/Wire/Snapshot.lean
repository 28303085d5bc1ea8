import TabletDelta.Proofs.Txn.Resolution
import TabletDelta.Proofs.Wire.Reading
import TabletDelta.Wire.Snapshot

/-!
# The wire form of snapshots

A snapshot is read in two steps: first its three fields, and then the check that its commits are in
order. The first step belongs to the writer of the fields (`SnapshotFields.reads`). What the second
step accepts makes a snapshot, which may be written in other bytes than those it was read from, as
the aborts lose their order and their repetitions. That snapshot is read back nevertheless
(`Snapshot.wire_exact`).
-/

namespace TabletDelta

/-- The fields of the wire form of a snapshot. -/
structure SnapshotFields where
  /-- The watermark. -/
  watermark : Txid
  /-- The commits, in the order in which they are written. -/
  commits : List Txid
  /-- The aborts, in the order in which they are written. -/
  aborts : List Txid

namespace SnapshotFields

/-- The fields in bytes. -/
def wire (f : SnapshotFields) : Bytes :=
  wireTxid f.watermark ++ wireList wireTxid f.commits ++ wireList wireTxid f.aborts

/-- The lengths of both lists fit in eight bytes. -/
def Fits (f : SnapshotFields) : Prop :=
  f.commits.length < UInt64.size ∧ f.aborts.length < UInt64.size

instance (f : SnapshotFields) : Decidable f.Fits := inferInstanceAs (Decidable (_ ∧ _))

/-- Reads the fields. -/
def reader : WireReader SnapshotFields := do
  let watermark ← WireReader.txid
  let commits ← WireReader.list WireReader.txid
  let aborts ← WireReader.list WireReader.txid
  pure ⟨watermark, commits, aborts⟩

/-- These are the fields of a snapshot: the commits as they are listed there, and the aborts in any
order and with any repetitions. -/
def Describes (f : SnapshotFields) (s : Snapshot) : Prop :=
  s.watermark = f.watermark ∧ s.committed.ids = f.commits ∧ ∀ t, t ∈ s.aborted ↔ t ∈ f.aborts

/-- The snapshot of the fields, if the commits are in order. -/
def toSnapshot (f : SnapshotFields) : Except WireFault Snapshot :=
  (TxidSet.ofIncreasing f.commits).map fun committed => ⟨f.watermark, committed, .ofList f.aborts⟩

/-- Makes a snapshot of fields that have been read, and reads nothing more. -/
def check (f : SnapshotFields) : WireReader Snapshot := fun bytes =>
  f.toSnapshot.map fun s => (s, bytes)

end SnapshotFields

/-- The fields of a snapshot. -/
def Snapshot.fields (s : Snapshot) : SnapshotFields := ⟨s.watermark, s.committed.ids, s.aborted.ids⟩

/-- The snapshots that there can be: those taken of a ledger, the two that see everything and
nothing, and those read from bytes. The sets of a ledger are held in memory, so a machine word
counts their members; in a run in which the numbers have not run out there are no more of them
anyway (`Obtainable.of_run`). -/
inductive Snapshot.Obtainable : Snapshot → Prop where
  | taken {events : Ledger.History} {l : Ledger} (h : Run Ledger.step .empty events l)
    (hcommitted : l.committed.size < UInt64.size) (haborted : l.aborted.size < UInt64.size) :
    Obtainable l.snapshot
  | includingAll : Obtainable .includingAll
  | includingNone : Obtainable .includingNone
  | decoded {bytes : Bytes} {s : Snapshot} (h : Wire.decode Snapshot bytes = .ok s) : Obtainable s

/-! ## Commits in order -/

namespace TxidSet

/-- The two neighbours found are the first ones that are out of order. -/
theorem firstDescent_eq_some {ids : List Txid} {t u : Txid} (h : firstDescent ids = some (t, u)) :
    ∃ before after, ids = before ++ t :: u :: after ∧ (before ++ [t]).Pairwise (· < ·) ∧
      ¬ t < u := by
  induction ids with
  | nil => cases h
  | cons v ids ih =>
    cases ids with
    | nil => cases h
    | cons w ids =>
      unfold firstDescent at h
      split at h
      · next hlt =>
        obtain ⟨before, after, hids, hsorted, hdescent⟩ := ih h
        -- What goes before the pair starts with `w`, which is above `v`.
        obtain ⟨tail, htail⟩ : ∃ tail, before ++ [t] = w :: tail := by
          cases before with
          | nil => exact ⟨[], by rw [(List.cons.inj hids).1]; rfl⟩
          | cons x before => exact ⟨before ++ [t], by rw [(List.cons.inj hids).1]; rfl⟩
        refine ⟨v :: before, after, congrArg (v :: ·) hids, ?_, hdescent⟩
        rw [List.cons_append, htail]
        rw [htail] at hsorted
        refine List.pairwise_cons.2 ⟨fun x hx => ?_, hsorted⟩
        rcases List.mem_cons.1 hx with rfl | hx
        · exact hlt
        · exact UInt64.lt_trans hlt ((List.pairwise_cons.1 hsorted).1 x hx)
      · next hnot =>
        cases h
        exact ⟨[], ids, rfl, List.pairwise_singleton .., hnot⟩

/-- The set of an increasing list has the list as its members. -/
theorem ofIncreasing_eq_ok_iff {ids : List Txid} {s : TxidSet} :
    ofIncreasing ids = .ok s ↔ s.ids = ids := by
  unfold ofIncreasing
  split
  · next hsorted =>
    constructor
    · intro h
      cases h
      rfl
    · rintro rfl
      rfl
  · next t u hdescent =>
    refine iff_of_false nofun ?_
    rintro rfl
    rw [firstDescent_eq_none_iff.2 s.sorted] at hdescent
    cases hdescent

/-- A list that is not increasing is refused with its first two neighbours that are out of order. -/
theorem ofIncreasing_eq_error {ids : List Txid} (h : ¬ ids.Pairwise (· < ·)) :
    ∃ before t u after, ids = before ++ t :: u :: after ∧ (before ++ [t]).Pairwise (· < ·) ∧
      ¬ t < u ∧ ofIncreasing ids = .error (.commitOrder t u) := by
  unfold ofIncreasing
  split
  · next hsorted => exact absurd (firstDescent_eq_none_iff.1 hsorted) h
  · next t u hdescent =>
    obtain ⟨before, after, hids, hbefore, hpair⟩ := firstDescent_eq_some hdescent
    exact ⟨before, t, u, after, hids, hbefore, hpair, rfl⟩

end TxidSet

/-! ## The fields -/

/-- The reader of transactions belongs to their writer. -/
theorem WireReader.reads_txid : WireReader.txid.Reads wireTxid fun _ => True := by
  intro bytes t rest
  show (WireReader.number 8 >>= fun n => pure (UInt64.ofNat n)) bytes = .ok (t, rest) ↔ _
  rw [bind_eq_ok_iff]
  simp only [WireReader.reads_number 8 _ _ _]
  constructor
  · rintro ⟨n, left, ⟨hn, rfl⟩, hpure⟩
    cases hpure
    refine ⟨trivial, ?_⟩
    unfold wireTxid
    rw [UInt64.toNat_ofNat_of_lt' hn]
  · rintro ⟨-, rfl⟩
    exact ⟨t.toNat, rest, ⟨t.toNat_lt, rfl⟩, by rw [UInt64.ofNat_toNat]; rfl⟩

/-- The bytes of a transaction can only be too few. -/
theorem WireReader.faultsIn_txid {faults : WireFault → Prop} (hend : faults .endOfInput) :
    WireReader.txid.FaultsIn faults :=
  (faultsIn_number hend 8).bind fun n => faultsIn_pure (UInt64.ofNat n)

namespace SnapshotFields

/-- The reader of the fields belongs to their writer. -/
theorem reads : WireReader.Reads reader wire Fits := by
  intro bytes f rest
  have hlist := WireReader.reads_txid.list
  unfold reader wire Fits
  simp only [WireReader.bind_eq_ok_iff, WireReader.reads_txid _ _ _, hlist _ _ _]
  constructor
  · rintro ⟨watermark, left, ⟨-, rfl⟩, commits, left', ⟨⟨hcommits, -⟩, rfl⟩, aborts, left'',
      ⟨⟨haborts, -⟩, rfl⟩, hpure⟩
    cases hpure
    exact ⟨⟨hcommits, haborts⟩, by simp⟩
  · rintro ⟨⟨hcommits, haborts⟩, rfl⟩
    exact ⟨f.watermark, _, ⟨trivial, by rw [List.append_assoc, List.append_assoc]⟩, f.commits, _,
      ⟨⟨hcommits, fun _ _ => trivial⟩, rfl⟩, f.aborts, rest, ⟨⟨haborts, fun _ _ => trivial⟩, rfl⟩,
      rfl⟩

/-- The bytes of the fields can only be too few. -/
theorem faultsIn : WireReader.FaultsIn reader (· = .endOfInput) := by
  have htxid : WireReader.txid.FaultsIn (· = .endOfInput) := WireReader.faultsIn_txid rfl
  exact htxid.bind fun _ => (htxid.list rfl).bind fun _ => (htxid.list rfl).bind fun _ =>
    WireReader.faultsIn_pure _

/-- The fields give the snapshot that they describe. -/
theorem toSnapshot_eq_ok_iff {f : SnapshotFields} {s : Snapshot} :
    f.toSnapshot = .ok s ↔ f.Describes s := by
  unfold toSnapshot Describes
  cases hcommits : TxidSet.ofIncreasing f.commits with
  | error fault =>
    refine iff_of_false nofun ?_
    rintro ⟨-, hids, -⟩
    rw [TxidSet.ofIncreasing_eq_ok_iff.2 hids] at hcommits
    cases hcommits
  | ok committed =>
    have hids := TxidSet.ofIncreasing_eq_ok_iff.1 hcommits
    constructor
    · intro hok
      cases hok
      exact ⟨rfl, hids, fun t => TxidSet.mem_ofList⟩
    · rintro ⟨hwatermark, hcommitted, haborted⟩
      have hset : s.committed = committed := TxidSet.ext fun t => by
        rw [TxidSet.mem_def, TxidSet.mem_def, hcommitted, hids]
      rw [← hwatermark, ← hset, ← TxidSet.eq_ofList haborted]
      rfl

/-- The fields of a snapshot describe it. -/
theorem describes_fields (s : Snapshot) : s.fields.Describes s := ⟨rfl, rfl, fun _ => .rfl⟩

/-- A snapshot is read by its fields, which are then checked. -/
theorem reader_eq (bytes : Bytes) : (Wire.reader : WireReader Snapshot) bytes =
    reader bytes >>= fun p => p.1.check p.2 := by
  have hbind : (Wire.reader : WireReader Snapshot) = reader >>= check := by
    unfold reader
    simp only [bind_assoc, pure_bind]
    refine congrArg (WireReader.txid >>= ·) (funext fun watermark => ?_)
    refine congrArg (WireReader.txid.list >>= ·) (funext fun commits => ?_)
    refine congrArg (WireReader.txid.list >>= ·) (funext fun aborts => funext fun left => ?_)
    unfold check toSnapshot
    cases TxidSet.ofIncreasing commits <;> rfl
  rw [hbind]
  rfl

/-- A snapshot is made of its fields. -/
theorem madeOf : WireReader.MadeOf reader toSnapshot := reader_eq

/-- What is decoded from the bytes of fields is the snapshot of the fields, if there is one. -/
theorem decode_wire {f : SnapshotFields} (h : f.Fits) (rest : Bytes) :
    Wire.decode Snapshot (f.wire ++ rest) =
      f.toSnapshot.mapError fun fault => .encoding (.undecodable fault) :=
  madeOf.decode_write reads h rest

/-- A snapshot is decoded from the bytes that hold fields which describe it, and from no others. -/
theorem decode_eq_ok_iff {bytes : Bytes} {s : Snapshot} :
    Wire.decode Snapshot bytes = .ok s ↔
      ∃ (f : SnapshotFields) (rest : Bytes), f.Fits ∧ bytes = f.wire ++ rest ∧ f.Describes s := by
  simp only [madeOf.decode_eq_ok_iff reads, toSnapshot_eq_ok_iff]

/-- From bytes that end before the fields do, no snapshot is decoded. -/
theorem decode_cut {f : SnapshotFields} (h : f.Fits) {bytes missing : Bytes}
    (hbytes : f.wire = bytes ++ missing) (hmissing : missing ≠ []) :
    Wire.decode Snapshot bytes = .error (.encoding (.undecodable .endOfInput)) := by
  obtain ⟨fault, hread, hdecode⟩ := madeOf.decode_cut reads h hbytes hmissing
  obtain rfl := faultsIn _ _ hread
  exact hdecode

end SnapshotFields

/-! ## Snapshots -/

namespace Snapshot

/-- A snapshot taken in a run in which the numbers have not run out is obtainable. -/
theorem Obtainable.of_run {events : Ledger.History} {l : Ledger}
    (hrun : Run Ledger.step .empty events l)
    (hroom : (Ledger.begun events).length < UInt64.size - 1) : l.snapshot.Obtainable := by
  have hrecords := Ledger.records_of_run hrun hroom
  -- Both sets list transactions begun, each of them once.
  have hsize (ids : TxidSet) (hids : ∀ t ∈ ids, t ∈ Ledger.begun events) :
      ids.size < UInt64.size :=
    Nat.lt_of_le_of_lt (TxidSet.size_le hids) (Nat.lt_of_lt_of_le hroom (Nat.sub_le ..))
  refine .taken hrun (hsize _ fun t ht => ?_) (hsize _ fun t ht => ?_)
  · exact hrecords.begun_of_commits t ((hrecords.mem_committed t).1 ht).1
  · exact hrecords.begun_of_aborts t ((hrecords.mem_aborted t).1 ht)

/-- The lists of an obtainable snapshot are as short as the wire form needs. -/
theorem Obtainable.fits {s : Snapshot} (h : s.Obtainable) : s.fields.Fits := by
  cases h with
  | taken hrun hcommitted haborted => exact ⟨hcommitted, haborted⟩
  | includingAll | includingNone => exact ⟨by decide, by decide⟩
  | decoded hdecode =>
    obtain ⟨f, rest, ⟨hcommits, haborts⟩, -, -, hcommitted, haborted⟩ :=
      SnapshotFields.decode_eq_ok_iff.1 hdecode
    refine ⟨?_, ?_⟩
    · show s.committed.ids.length < UInt64.size
      rwa [hcommitted]
    · exact Nat.lt_of_le_of_lt (TxidSet.size_le fun t ht => (haborted t).1 ht) haborts

/-- An obtainable snapshot is decoded from its wire form, whatever comes after it. -/
theorem Obtainable.decode_append {s : Snapshot} (h : s.Obtainable) (rest : Bytes) :
    Wire.decode Snapshot (Wire.encode s ++ rest) = .ok s :=
  SnapshotFields.decode_eq_ok_iff.2 ⟨s.fields, rest, h.fits, rfl, SnapshotFields.describes_fields s⟩

/-- The wire form carries snapshots exactly. The snapshots that there can be are decoded from their
wire form whatever comes after it, and not from less of it. A snapshot is decoded from the bytes
that hold fields which describe it, and from no others; its commits are then in order, so that
searching them finds what is listed, and it is decoded from its own wire form again. Of fields with
commits out of order, the first two neighbours that are so are reported. -/
theorem wire_exact :
    (∀ s : Snapshot, s.Obtainable →
      (∀ rest, Wire.decode Snapshot (Wire.encode s ++ rest) = .ok s) ∧
        ∀ bytes missing, Wire.encode s = bytes ++ missing → missing ≠ [] →
          Wire.decode Snapshot bytes = .error (.encoding (.undecodable .endOfInput))) ∧
      (∀ bytes s, Wire.decode Snapshot bytes = .ok s ↔
        ∃ (f : SnapshotFields) (rest : Bytes), f.Fits ∧ bytes = f.wire ++ rest ∧ f.Describes s) ∧
      (∀ bytes s, Wire.decode Snapshot bytes = .ok s →
        s.committed.ids.Pairwise (· < ·) ∧
          (∀ t, s.committed.contains t = true ↔ t ∈ s.committed.ids) ∧
          Wire.decode Snapshot (Wire.encode s) = .ok s) ∧
      ∀ f : SnapshotFields, f.Fits → ¬ f.commits.Pairwise (· < ·) →
        ∃ before t u after, f.commits = before ++ t :: u :: after ∧
          (before ++ [t]).Pairwise (· < ·) ∧ ¬ t < u ∧
            ∀ rest, Wire.decode Snapshot (f.wire ++ rest) =
              .error (.encoding (.undecodable (.commitOrder t u))) := by
  refine ⟨fun s hs => ⟨hs.decode_append, fun bytes missing hbytes hmissing => ?_⟩,
    fun bytes s => SnapshotFields.decode_eq_ok_iff, fun bytes s hdecode =>
      ⟨s.committed.sorted, fun t => TxidSet.contains_iff_mem, ?_⟩, fun f hfits hdisorder => ?_⟩
  · exact SnapshotFields.decode_cut hs.fits hbytes hmissing
  · have hself := (Obtainable.decoded hdecode).decode_append []
    rwa [List.append_nil] at hself
  · obtain ⟨before, t, u, after, hcommits, hbefore, hpair, herror⟩ :=
      TxidSet.ofIncreasing_eq_error hdisorder
    refine ⟨before, t, u, after, hcommits, hbefore, hpair, fun rest => ?_⟩
    rw [SnapshotFields.decode_wire hfits]
    unfold SnapshotFields.toSnapshot
    rw [herror]
    rfl

/-- Fields with commits above and below the watermark, and with aborts out of order. -/
def looseFields : SnapshotFields := ⟨5, [3, 7], [4, 2, 4]⟩

/-- Fields with a commit listed twice. -/
def repeatedFields : SnapshotFields := ⟨5, [3, 7, 7, 1], []⟩

/-- Loose fields are decoded in front of other bytes, to a snapshot that has another wire form and
is decoded from that as well, but not without its last byte. A commit listed twice is reported. -/
theorem wire_exact_loose :
    Wire.decode Snapshot (looseFields.wire ++ [9]) = .ok ⟨5, .ofList [3, 7], .ofList [2, 4]⟩ ∧
      Wire.encode (⟨5, .ofList [3, 7], .ofList [2, 4]⟩ : Snapshot) ≠ looseFields.wire ∧
      Wire.decode Snapshot (Wire.encode (⟨5, .ofList [3, 7], .ofList [2, 4]⟩ : Snapshot)) =
        .ok ⟨5, .ofList [3, 7], .ofList [2, 4]⟩ ∧
      Wire.decode Snapshot
          (Wire.encode (⟨5, .ofList [3, 7], .ofList [2, 4]⟩ : Snapshot)).dropLast =
        .error (.encoding (.undecodable .endOfInput)) ∧
      Wire.decode Snapshot repeatedFields.wire =
        .error (.encoding (.undecodable (.commitOrder 7 7))) := by
  obtain ⟨hobtainable, hiff, hself, hdisorder⟩ := wire_exact
  have hdecode : Wire.decode Snapshot (looseFields.wire ++ [9]) =
      .ok ⟨5, .ofList [3, 7], .ofList [2, 4]⟩ :=
    (hiff _ _).2 ⟨looseFields, [9], by decide, rfl, rfl, rfl, fun t => by
      rw [TxidSet.mem_ofList]
      simp only [looseFields, List.mem_cons]
      tauto⟩
  refine ⟨hdecode, by decide, (hself _ _ hdecode).2.2, ?_, ?_⟩
  · exact (hobtainable _ (.decoded hdecode)).2 _ [0] (by decide) (by decide)
  · obtain ⟨before, t, u, after, hcommits, hbefore, hpair, herror⟩ :=
      hdisorder repeatedFields (by decide) (by decide)
    -- The pair cannot come earlier, as 3 is below 7, nor later, as what is before it increases.
    rcases before with _ | ⟨a, _ | ⟨b, _ | ⟨c, before⟩⟩⟩
    · cases hcommits
      exact absurd (by decide) hpair
    · cases hcommits
      exact List.append_nil repeatedFields.wire ▸ herror []
    · cases hcommits
      exact absurd hbefore (by decide)
    · have hlength := congrArg List.length hcommits
      simp only [repeatedFields, List.length_append, List.length_cons, List.length_nil] at hlength
      omega

end Snapshot

end TabletDelta
