import TabletDelta.Proofs.Bytes
import TabletDelta.Wire.Basic

/-!
# Reading what was written

A reader and a writer belong together when the reader takes off the front of a byte string just what
the writer has put there (`WireReader.Reads`). The readers of numbers, alternatives and texts belong
to their writers, and a reader of lists does so if the reader of its items does. It follows that
what is read does not depend on what comes after it (`Reads.append`), and that nothing is read from
bytes that have been cut short (`Reads.cut`). Which faults a reader may find then instead is said by
`FaultsIn`.

Whole values are decoded in two steps: their fields are read, and the value is made of them if they
pass a check (`MadeOf`). What is decoded follows from the reader of the fields and the check.
-/

namespace TabletDelta

namespace WireReader

variable {α β : Type}

/-- The reader belongs to the writer of the valid values: it reads a value if the bytes start with
what is written for the value, and leaves the bytes after it. -/
def Reads (reader : WireReader α) (write : α → Bytes) (valid : α → Prop) : Prop :=
  ∀ bytes a rest, reader bytes = .ok (a, rest) ↔ valid a ∧ bytes = write a ++ rest

/-- The reader finds no faults but these. -/
def FaultsIn (reader : WireReader α) (faults : WireFault → Prop) : Prop :=
  ∀ bytes fault, reader bytes = .error fault → faults fault

variable {reader item : WireReader α} {next : α → WireReader β} {write : α → Bytes}
  {valid : α → Prop} {faults : WireFault → Prop}

/-! ## Two readers in a row -/

/-- Two readers succeed in a row if the second one does after the first one. -/
theorem bind_eq_ok_iff {bytes rest : Bytes} {b : β} :
    (reader >>= next) bytes = .ok (b, rest) ↔
      ∃ a left, reader bytes = .ok (a, left) ∧ next a left = .ok (b, rest) := by
  show (reader bytes >>= fun p => next p.1 p.2) = .ok (b, rest) ↔ _
  cases hread : reader bytes with
  | error fault => exact iff_of_false nofun fun ⟨_, _, hok, _⟩ => nomatch hok
  | ok p =>
    constructor
    · exact fun hnext => ⟨p.1, p.2, rfl, hnext⟩
    · rintro ⟨a, left, hok, hnext⟩
      cases hok
      exact hnext

/-- Two readers in a row find the faults that either of them finds. -/
theorem FaultsIn.bind (h : FaultsIn reader faults) (hnext : ∀ a, FaultsIn (next a) faults) :
    FaultsIn (reader >>= next) faults := by
  intro bytes fault herror
  change (reader bytes >>= fun p => next p.1 p.2) = .error fault at herror
  cases hread : reader bytes with
  | error other =>
    rw [hread] at herror
    cases herror
    exact h bytes fault hread
  | ok p =>
    rw [hread] at herror
    exact hnext p.1 p.2 fault herror

/-- Where nothing is read, no fault is found. -/
theorem faultsIn_pure (a : α) : FaultsIn (pure a) faults := by
  intro bytes fault herror
  cases herror

/-! ## Numbers and lists -/

/-- The reader of numbers of a width belongs to the writer of the numbers that fit. -/
theorem reads_number (width : Nat) :
    Reads (number width) (littleEndian width) (· < 256 ^ width) := by
  intro bytes n rest
  unfold number
  constructor
  · intro h
    split at h
    · next head left hsplit =>
      cases h
      obtain ⟨rfl, rfl⟩ := splitBytes?_eq_some hsplit
      exact ⟨ofLittleEndian_lt head, by rw [littleEndian_ofLittleEndian]⟩
    · cases h
  · rintro ⟨hn, rfl⟩
    have hsplit := splitBytes?_append (littleEndian width n) rest
    rw [length_littleEndian] at hsplit
    rw [hsplit]
    dsimp only
    rw [ofLittleEndian_littleEndian hn]

/-- The bytes of a number can only be too few. -/
theorem faultsIn_number (hend : faults .endOfInput) (width : Nat) :
    FaultsIn (number width) faults := by
  intro bytes fault herror
  unfold number at herror
  split at herror
  · cases herror
  · cases herror
    exact hend

/-- The reader of alternatives belongs to the writer of their numbers. -/
theorem reads_tag (count : Nat) :
    Reads (tag count) (fun n => littleEndian 4 n) fun n : Fin count => n.val < 256 ^ 4 := by
  intro bytes n rest
  unfold tag
  simp only [bind_eq_ok_iff, reads_number 4 _ _ _]
  constructor
  · rintro ⟨m, left, ⟨hm, rfl⟩, hnext⟩
    split at hnext
    · cases hnext
      exact ⟨hm, rfl⟩
    · cases hnext
  · rintro ⟨hn, rfl⟩
    refine ⟨n, rest, ⟨hn, rfl⟩, ?_⟩
    rw [dif_pos n.isLt]
    rfl

/-- The reader of texts belongs to the writer of the texts whose lengths fit in eight bytes. -/
theorem reads_text :
    Reads text Wire.encode fun s : String => s.toByteArray.size < UInt64.size := by
  intro bytes s rest
  unfold text
  simp only [bind_eq_ok_iff, reads_number 8 _ _ _]
  constructor
  · rintro ⟨n, left, ⟨hn, rfl⟩, raw, left', hraw, hnext⟩
    split at hraw
    · next parts hsplit =>
      cases hraw
      obtain ⟨rfl, rfl⟩ := splitBytes?_eq_some hsplit
      split at hnext
      · -- The bytes of the text read are those that stood there.
        cases hnext
        exact ⟨hn, (List.append_assoc ..).symm⟩
      · cases hnext
    · cases hraw
  · rintro ⟨hs, rfl⟩
    have hlength : s.toByteArray.size = s.toByteArray.data.toList.length := Array.length_toList.symm
    refine ⟨s.toByteArray.size, s.toByteArray.data.toList ++ rest,
      ⟨hs, List.append_assoc ..⟩, s.toByteArray.data.toList, rest, ?_, ?_⟩
    · rw [hlength, splitBytes?_append]
    · rw [dif_pos s.isValidUTF8]
      rfl

/-- As many items are read as asked for, from what is written for them in a row. -/
theorem Reads.times (h : Reads item write valid) (n : Nat) :
    Reads (item.times n) (List.flatMap write) fun as => as.length = n ∧ ∀ a ∈ as, valid a := by
  induction n with
  | zero =>
    intro bytes as rest
    show Except.ok ([], bytes) = .ok (as, rest) ↔ _
    constructor
    · intro hok
      cases hok
      exact ⟨⟨rfl, nofun⟩, rfl⟩
    · rintro ⟨⟨hlength, -⟩, rfl⟩
      rw [List.length_eq_zero_iff.1 hlength]
      rfl
  | succ n ih =>
    intro bytes as rest
    unfold WireReader.times
    simp only [bind_eq_ok_iff, h _ _ _, ih _ _ _]
    constructor
    · rintro ⟨a, left, ⟨ha, rfl⟩, as', left', ⟨⟨rfl, has⟩, rfl⟩, hpure⟩
      cases hpure
      exact ⟨⟨rfl, List.forall_mem_cons.2 ⟨ha, has⟩⟩, by simp⟩
    · rintro ⟨⟨hlength, hall⟩, rfl⟩
      cases as with
      | nil => cases hlength
      | cons a as =>
        obtain ⟨ha, has⟩ := List.forall_mem_cons.1 hall
        exact ⟨a, as.flatMap write ++ rest, ⟨ha, by simp⟩, as, rest,
          ⟨⟨Nat.succ.inj hlength, has⟩, rfl⟩, rfl⟩

/-- Items in a row have the faults of each item. -/
theorem FaultsIn.times (h : FaultsIn item faults) (n : Nat) : FaultsIn (item.times n) faults := by
  induction n with
  | zero => exact faultsIn_pure []
  | succ n ih => exact h.bind fun a => ih.bind fun as => faultsIn_pure (a :: as)

/-- The reader of lists belongs to the writer of the lists whose lengths fit in eight bytes. -/
theorem Reads.list (h : Reads item write valid) :
    Reads item.list (wireList write) fun as => as.length < UInt64.size ∧ ∀ a ∈ as, valid a := by
  intro bytes as rest
  unfold WireReader.list wireList
  simp only [bind_eq_ok_iff, reads_number 8 _ _ _, h.times _ _ _ _]
  constructor
  · rintro ⟨n, left, ⟨hn, rfl⟩, ⟨rfl, has⟩, rfl⟩
    exact ⟨⟨hn, has⟩, by simp⟩
  · rintro ⟨⟨hn, has⟩, rfl⟩
    exact ⟨as.length, as.flatMap write ++ rest, ⟨hn, by simp⟩, ⟨rfl, has⟩, rfl⟩

/-- A list has the faults of its items, and its length can end too early. -/
theorem FaultsIn.list (h : FaultsIn item faults) (hend : faults .endOfInput) :
    FaultsIn item.list faults := (faultsIn_number hend 8).bind fun n => h.times n

/-! ## What follows for a reader that belongs to a writer -/

/-- What is written for a value is read back, whatever comes after it. -/
theorem Reads.append (h : Reads reader write valid) {a : α} (ha : valid a) (rest : Bytes) :
    reader (write a ++ rest) = .ok (a, rest) := (h ..).2 ⟨ha, rfl⟩

/-- From what is written for a value nothing can be read once its end is missing. -/
theorem Reads.cut (h : Reads reader write valid) {a : α} (ha : valid a) {bytes missing : Bytes}
    (hbytes : write a = bytes ++ missing) (hmissing : missing ≠ []) :
    ∃ fault, reader bytes = .error fault := by
  cases hread : reader bytes with
  | error fault => exact ⟨fault, rfl⟩
  | ok p =>
    obtain ⟨b, rest⟩ := p
    obtain ⟨hb, rfl⟩ := (h ..).1 hread
    -- The whole would be read as this other value too, with something left over.
    have hwhole := h.append ha []
    rw [List.append_nil, hbytes, List.append_assoc, h.append hb] at hwhole
    have hnil : rest ++ missing = [] := congrArg Prod.snd (Except.ok.inj hwhole)
    exact absurd (List.append_eq_nil_iff.1 hnil).2 hmissing

/-! ## Values made of fields -/

/-- A value is decoded by reading its fields and making it of them, which reads nothing more. -/
def MadeOf (fields : WireReader α) [Wire β] (make : α → Except WireFault β) : Prop :=
  ∀ bytes, (Wire.reader : WireReader β) bytes =
    fields bytes >>= fun p => (make p.1).map fun b => (b, p.2)

namespace MadeOf

variable {fields : WireReader α} [Wire β] {make : α → Except WireFault β}

/-- What is decoded from the bytes of fields is the value that is made of them, or the fault found
in making it. -/
theorem decode_write (h : MadeOf fields make) (hreads : Reads fields write valid) {a : α}
    (ha : valid a) (rest : Bytes) :
    Wire.decode β (write a ++ rest) =
      (make a).mapError fun fault => .encoding (.undecodable fault) := by
  have hread : (Wire.reader : WireReader β) (write a ++ rest) =
      (make a).map fun b => (b, rest) := by
    rw [h, hreads.append ha]
    rfl
  unfold Wire.decode
  rw [hread]
  cases make a <;> rfl

/-- A value is decoded from the bytes of fields that it is made of, and from no others. -/
theorem decode_eq_ok_iff (h : MadeOf fields make) (hreads : Reads fields write valid)
    {bytes : Bytes} {b : β} :
    Wire.decode β bytes = .ok b ↔
      ∃ a rest, valid a ∧ bytes = write a ++ rest ∧ make a = .ok b := by
  constructor
  · intro hdecode
    cases hread : fields bytes with
    | error fault =>
      unfold Wire.decode at hdecode
      rw [h, hread] at hdecode
      cases hdecode
    | ok p =>
      obtain ⟨a, rest⟩ := p
      obtain ⟨ha, rfl⟩ := (hreads ..).1 hread
      refine ⟨a, rest, ha, rfl, ?_⟩
      rw [h.decode_write hreads ha] at hdecode
      cases hmake : make a with
      | error fault =>
        rw [hmake] at hdecode
        cases hdecode
      | ok b' =>
        rw [hmake] at hdecode
        cases hdecode
        rfl
  · rintro ⟨a, rest, ha, rfl, hmake⟩
    rw [h.decode_write hreads ha, hmake]
    rfl

/-- From bytes that end before the fields do, no value is decoded. The fault is the one that the
reader of the fields finds. -/
theorem decode_cut (h : MadeOf fields make) (hreads : Reads fields write valid) {a : α}
    (ha : valid a) {bytes missing : Bytes} (hbytes : write a = bytes ++ missing)
    (hmissing : missing ≠ []) :
    ∃ fault, fields bytes = .error fault ∧
      Wire.decode β bytes = .error (.encoding (.undecodable fault)) := by
  obtain ⟨fault, hread⟩ := hreads.cut ha hbytes hmissing
  refine ⟨fault, hread, ?_⟩
  unfold Wire.decode
  rw [h, hread]
  rfl

end MadeOf

end WireReader

end TabletDelta
