import TabletDelta.ChangeList.Text
import TabletDelta.Proofs.ChangeList.Codec

/-!
# Reading bytes that are no change list

Any bytes are read as far as they go. They fall into assignments that can be written and a rest that
starts with none (`Splits`). There is only one way to do so, as the bytes of one assignment are
never the beginning of those of another one (`Assignment.eq_of_bytes_prefix`). A reader yields these
assignments, then a fault if there is a rest, and nothing more (`reads_longest_prefix`). A change
list that is cut off inside an assignment is such a case, with the beginning of that assignment for
a rest.
-/

namespace TabletDelta

/-- If the bytes of one assignment begin with those of another one, it is the same assignment. -/
theorem Assignment.eq_of_bytes_prefix {schema : Schema} {a b : Assignment}
    (ha : a.Writable schema) (hb : b.Writable schema) (h : a.bytes <+: b.bytes) : a = b := by
  obtain ⟨rest, hrest⟩ := h
  have hread : ChangeList.readAssignment schema b.bytes = .ok (b, []) :=
    ChangeList.readAssignment_eq_ok_iff.2 ⟨hb, (List.append_nil _).symm⟩
  have hread' : ChangeList.readAssignment schema b.bytes = .ok (a, rest) :=
    ChangeList.readAssignment_eq_ok_iff.2 ⟨ha, hrest.symm⟩
  rw [hread] at hread'
  exact (Prod.mk.inj (Except.ok.inj hread')).1.symm

namespace ChangeList

/-! ## One call after the other -/

namespace Reader

/-- The reader after a number of calls. -/
def after (r : Reader) : Nat → Reader
  | 0 => r
  | calls + 1 => r.next.2.after calls

/-- What the reader answers after a number of calls. -/
def answer (r : Reader) (calls : Nat) : Option (Except CorruptionFault Assignment) :=
  (r.after calls).next.1

/-- A reader that has come to its end stays there and yields nothing. -/
theorem toList_of_next_none {r after : Reader} (h : r.next = (none, after)) :
    after = r ∧ r.toList = [] := by
  constructor
  · unfold next at h
    split at h
    · exact (Prod.mk.inj h).2.symm
    · split at h <;> cases h
  · rw [toList]
    split
    · rfl
    · next hsome =>
      rw [h] at hsome
      cases hsome

/-- The calls on a reader are answered with what it yields, in order, and then with nothing. -/
theorem answer_eq (r : Reader) (calls : Nat) : r.answer calls = r.toList[calls]? := by
  induction calls generalizing r with
  | zero =>
    show r.next.1 = r.toList[0]?
    cases hnext : r.next with
    | mk x after =>
      cases x with
      | none =>
        rw [(toList_of_next_none hnext).2]
        rfl
      | some x =>
        rw [toList_of_next hnext]
        rfl
  | succ calls ih =>
    show r.next.2.answer calls = r.toList[calls + 1]?
    rw [ih]
    cases hnext : r.next with
    | mk x after =>
      cases x with
      | none =>
        obtain ⟨rfl, hend⟩ := toList_of_next_none hnext
        rw [hend]
        rfl
      | some x =>
        rw [toList_of_next hnext]
        rfl

end Reader

/-! ## Assignments and a rest -/

variable {schema : Schema} {bytes rest : Bytes} {as : List Assignment}

/-- The bytes fall into assignments that can be written, one after the other, and a rest that is
empty or starts with no such assignment. -/
structure Splits (schema : Schema) (bytes : Bytes) (as : List Assignment) (rest : Bytes) :
    Prop where
  /-- The assignments can be written. -/
  writable : ∀ a ∈ as, a.Writable schema
  /-- Their bytes are followed by the rest. -/
  bytes_eq : bytes = as.flatMap Assignment.bytes ++ rest
  /-- No assignment can be taken from the rest. -/
  stuck : rest = [] ∨ ∀ a : Assignment, a.Writable schema → ¬ a.bytes <+: rest

/-- Nothing can be read off the front of bytes that start with no assignment, and only of these. -/
theorem readAssignment_eq_error_iff : (∃ fault, readAssignment schema bytes = .error fault) ↔
    ∀ a : Assignment, a.Writable schema → ¬ a.bytes <+: bytes := by
  cases hread : readAssignment schema bytes with
  | error fault =>
    refine iff_of_true ⟨fault, rfl⟩ fun a ha hstart => ?_
    obtain ⟨rest, hrest⟩ := hstart
    rw [readAssignment_eq_ok_iff.2 ⟨ha, hrest.symm⟩] at hread
    cases hread
  | ok parts =>
    obtain ⟨ha, hbytes⟩ := readAssignment_eq_ok_iff.1 hread
    refine iff_of_false ?_ fun hnone => hnone parts.1 ha ⟨parts.2, hbytes.symm⟩
    rintro ⟨fault, herror⟩
    cases herror

/-- All bytes can be split. -/
theorem exists_splits (schema : Schema) (bytes : Bytes) : ∃ as rest, Splits schema bytes as rest := by
  -- By induction on the number of bytes, of which an assignment takes some.
  induction hlength : bytes.length using Nat.strongRecOn generalizing bytes with
  | ind n ih =>
    cases hread : readAssignment schema bytes with
    | error fault =>
      exact ⟨[], bytes, List.forall_mem_nil _, rfl,
        .inr (readAssignment_eq_error_iff.1 ⟨fault, hread⟩)⟩
    | ok parts =>
      have hshorter := readAssignment_length hread
      obtain ⟨ha, hbytes⟩ := readAssignment_eq_ok_iff.1 hread
      obtain ⟨as, rest, hsplits⟩ := ih _ (hlength ▸ hshorter) parts.2 rfl
      refine ⟨parts.1 :: as, rest, List.forall_mem_cons.2 ⟨ha, hsplits.writable⟩, ?_, hsplits.stuck⟩
      rw [List.flatMap_cons, List.append_assoc, ← hsplits.bytes_eq]
      exact hbytes

namespace Splits

/-- An assignment can be taken from bytes exactly if it is the first one that they split into. -/
theorem head_eq {a : Assignment} (h : Splits schema bytes as rest) (ha : a.Writable schema)
    {others : Bytes} (hbytes : bytes = a.bytes ++ others) :
    ∃ later, as = a :: later ∧ Splits schema others later rest := by
  have hread : readAssignment schema bytes = .ok (a, others) :=
    readAssignment_eq_ok_iff.2 ⟨ha, hbytes⟩
  obtain ⟨hwritable, heq, hstuck⟩ := h
  cases as with
  | nil =>
    -- The bytes are the rest, which starts with the assignment and so is not empty.
    rw [List.flatMap_nil, List.nil_append] at heq
    subst heq
    rcases hstuck with rfl | hnone
    · exact absurd (readAssignment_length hread) (Nat.not_lt_zero _)
    · exact absurd ⟨others, hbytes.symm⟩ (hnone a ha)
  | cons b later =>
    obtain ⟨hb, hlater⟩ := List.forall_mem_cons.1 hwritable
    rw [List.flatMap_cons, List.append_assoc] at heq
    rw [readAssignment_eq_ok_iff.2 ⟨hb, heq⟩] at hread
    cases hread
    exact ⟨later, rfl, hlater, rfl, hstuck⟩

/-- Bytes can be split in one way only. -/
theorem unique {as' : List Assignment} {rest' : Bytes} (h : Splits schema bytes as rest)
    (h' : Splits schema bytes as' rest') : as' = as ∧ rest' = rest := by
  induction as' generalizing bytes as with
  | nil =>
    cases as with
    | nil => exact ⟨rfl, h'.bytes_eq.symm.trans h.bytes_eq⟩
    | cons a later =>
      have hbytes : bytes = a.bytes ++ (later.flatMap Assignment.bytes ++ rest) := by
        rw [h.bytes_eq, List.flatMap_cons, List.append_assoc]
      obtain ⟨others, hcons, hothers⟩ := h'.head_eq (h.writable a List.mem_cons_self) hbytes
      cases hcons
  | cons a later ih =>
    have hbytes : bytes = a.bytes ++ (later.flatMap Assignment.bytes ++ rest') := by
      rw [h'.bytes_eq, List.flatMap_cons, List.append_assoc]
    obtain ⟨others, rfl, hothers⟩ := h.head_eq (h'.writable a List.mem_cons_self) hbytes
    have hlater : Splits schema (later.flatMap Assignment.bytes ++ rest') later rest' :=
      ⟨(List.forall_mem_cons.1 h'.writable).2, rfl, h'.stuck⟩
    obtain ⟨rfl, rfl⟩ := ih hothers hlater
    exact ⟨rfl, rfl⟩

end Splits

/-- A reader yields the assignments that bytes begin with, and then what it yields from the others. -/
theorem outcomes_append (h : ∀ a ∈ as, a.Writable schema) (rest : Bytes) :
    outcomes schema (as.flatMap Assignment.bytes ++ rest) = as.map .ok ++ outcomes schema rest := by
  induction as with
  | nil => rfl
  | cons a as ih =>
    obtain ⟨ha, has⟩ := List.forall_mem_cons.1 h
    have hread : readAssignment schema ((a :: as).flatMap Assignment.bytes ++ rest) =
        .ok (a, as.flatMap Assignment.bytes ++ rest) := by
      rw [List.flatMap_cons, List.append_assoc]
      exact readAssignment_eq_ok_iff.2 ⟨ha, rfl⟩
    rw [outcomes_of_ok hread, ih has, List.map_cons, List.cons_append]

/-- A reader yields the assignments that bytes split into, and then a fault if there is a rest. -/
theorem Splits.outcomes_eq (h : Splits schema bytes as rest) :
    ∃ ending : Option CorruptionFault, (ending = none ↔ rest = []) ∧
      outcomes schema bytes = as.map .ok ++ ending.toList.map .error := by
  obtain ⟨hwritable, rfl, hstuck⟩ := h
  rw [outcomes_append hwritable]
  by_cases hrest : rest = []
  · refine ⟨none, iff_of_true rfl hrest, ?_⟩
    rw [hrest, outcomes_nil]
    rfl
  · obtain ⟨fault, hfault⟩ := readAssignment_eq_error_iff.2 (hstuck.resolve_left hrest)
    refine ⟨some fault, iff_of_false nofun hrest, ?_⟩
    rw [outcomes_of_error hrest hfault]
    rfl

/-- Bytes are validated by what a reader yields: its assignments are counted, or its fault is
reported. -/
theorem validate_of_outcomes {ending : Option CorruptionFault}
    (h : outcomes schema bytes = as.map .ok ++ ending.toList.map .error) :
    validate schema bytes = ending.elim (.ok as.length) .error := by
  cases ending with
  | none =>
    rw [Option.toList_none, List.map_nil, List.append_nil] at h
    exact validate_eq_ok_iff.2 ⟨as, h, rfl⟩
  | some fault =>
    unfold validate assignments
    rw [h]
    show ((as.map Except.ok ++ Except.error fault :: []).mapM id).map List.length = .error fault
    rw [mapM_of_error (mapM_eq_ok_iff.2 (List.map_id _)) rfl]
    rfl

/-! ## Change lists that are cut off -/

/-- The number of bytes that assignments take. -/
def writtenSize (as : List Assignment) : Nat := (as.flatMap Assignment.bytes).length

/-- The bytes of the first assignment come before those of the others. -/
theorem writtenSize_cons (a : Assignment) (as : List Assignment) :
    writtenSize (a :: as) = a.bytes.length + writtenSize as := by
  unfold writtenSize
  rw [List.flatMap_cons, List.length_append]

/-- One more assignment takes as many bytes more. -/
theorem writtenSize_take_succ {m : Nat} {a : Assignment} (h : as[m]? = some a) :
    writtenSize (as.take (m + 1)) = writtenSize (as.take m) + a.bytes.length := by
  unfold writtenSize
  rw [List.take_add_one, h, Option.toList_some, List.flatMap_append, List.flatMap_singleton,
    List.length_append]

/-- After so many bytes, one of the assignments ends, or none has begun. -/
def Boundary (as : List Assignment) (cut : Nat) : Prop :=
  ∃ m ≤ as.length, cut = writtenSize (as.take m)

instance (as : List Assignment) (cut : Nat) : Decidable (Boundary as cut) :=
  inferInstanceAs (Decidable (∃ m ≤ as.length, _))

/-- A cut is made at a boundary, or inside an assignment: the first `m` stay whole, and of the next
one some bytes are cut off, but not all. -/
theorem boundary_or_inside {cut : Nat} (h : cut ≤ writtenSize as) : Boundary as cut ∨
    ∃ m a, as[m]? = some a ∧ writtenSize (as.take m) < cut ∧
      cut < writtenSize (as.take m) + a.bytes.length := by
  induction as generalizing cut with
  | nil => exact .inl ⟨0, Nat.le_refl 0, Nat.le_zero.1 h⟩
  | cons a as ih =>
    rw [writtenSize_cons] at h
    by_cases hzero : cut = 0
    · exact .inl ⟨0, Nat.zero_le _, hzero⟩
    by_cases hfirst : cut < a.bytes.length
    · refine .inr ⟨0, a, rfl, Nat.pos_of_ne_zero hzero, ?_⟩
      exact Nat.lt_of_lt_of_le hfirst (Nat.le_add_left _ _)
    · have hcut : cut = a.bytes.length + (cut - a.bytes.length) := by omega
      rcases ih (Nat.sub_le_iff_le_add'.2 h) with ⟨m, hle, hm⟩ | ⟨m, b, hb, hlt, hlt'⟩
      · refine .inl ⟨m + 1, Nat.succ_le_succ hle, ?_⟩
        rw [List.take_succ_cons, writtenSize_cons, ← hm]
        exact hcut
      · refine .inr ⟨m + 1, b, hb, ?_, ?_⟩
        · rw [List.take_succ_cons, writtenSize_cons]
          omega
        · rw [List.take_succ_cons, writtenSize_cons]
          omega

/-- Cut at a boundary, a change list splits into those before the cut. -/
theorem splits_of_boundary (h : ∀ a ∈ as, a.Writable schema) (m : Nat) :
    Splits schema ((as.flatMap Assignment.bytes).take (writtenSize (as.take m))) (as.take m) [] := by
  refine ⟨fun a ha => h a (List.mem_of_mem_take ha), ?_, .inl rfl⟩
  have happend : as.flatMap Assignment.bytes =
      (as.take m).flatMap Assignment.bytes ++ (as.drop m).flatMap Assignment.bytes := by
    rw [← List.flatMap_append, List.take_append_drop]
  rw [happend, writtenSize, List.take_left, List.append_nil]

/-- Cut inside an assignment, a change list splits into those before it and a rest. -/
theorem splits_of_inside (h : ∀ a ∈ as, a.Writable schema) {m cut : Nat} {a : Assignment}
    (ha : as[m]? = some a) (hlt : writtenSize (as.take m) < cut)
    (hlt' : cut < writtenSize (as.take m) + a.bytes.length) :
    ∃ rest ≠ [], Splits schema ((as.flatMap Assignment.bytes).take cut) (as.take m) rest := by
  have ha' : a.Writable schema := h a (List.mem_of_getElem? ha)
  have happend : as.flatMap Assignment.bytes = (as.take m).flatMap Assignment.bytes ++
      (a.bytes ++ (as.drop (m + 1)).flatMap Assignment.bytes) := by
    obtain ⟨hm, heq⟩ := List.getElem?_eq_some_iff.1 ha
    rw [← List.flatMap_cons, ← heq, ← List.drop_eq_getElem_cons hm, ← List.flatMap_append,
      List.take_append_drop]
  have hinside : cut - writtenSize (as.take m) < a.bytes.length := by omega
  have htake : (as.flatMap Assignment.bytes).take cut =
      (as.take m).flatMap Assignment.bytes ++ a.bytes.take (cut - writtenSize (as.take m)) := by
    rw [happend, List.take_append, List.take_of_length_le (Nat.le_of_lt hlt)]
    refine congrArg _ ?_
    exact List.take_append_of_le_length (Nat.le_of_lt hinside)
  refine ⟨a.bytes.take (cut - writtenSize (as.take m)), ?_, fun b hb => ?_, htake, .inr ?_⟩
  · intro hnil
    have hlength := congrArg List.length hnil
    rw [List.length_take, List.length_nil] at hlength
    omega
  · exact h b (List.mem_of_mem_take hb)
  · intro b hb hstart
    -- An assignment that the rest starts with would be the one that was cut.
    have heq : b = a := Assignment.eq_of_bytes_prefix hb ha' (hstart.trans (List.take_prefix _ _))
    have hle := hstart.length_le
    rw [heq, List.length_take] at hle
    omega

/-! ## What is seen of bytes -/

/-- Bytes are seen as assignments, with a fault after them if `ending` is one. -/
structure SeenAs (schema : Schema) (bytes : Bytes) (as : List Assignment)
    (ending : Option CorruptionFault) : Prop where
  /-- The calls on a reader are answered with the assignments, in order, then with the fault, and
  from then on with nothing. -/
  answer_eq : ∀ calls, (Reader.mk schema bytes).answer calls =
    (as.map .ok ++ ending.toList.map .error)[calls]?
  /-- The assignments are counted, or the fault is reported. -/
  validate_eq : validate schema bytes = ending.elim (.ok as.length) .error
  /-- The text shows the assignments, and then the message of the fault. -/
  text_eq : text schema bytes = "SET " ++ ", ".intercalate
    (as.map (fun a => outcomeText schema (.ok a)) ++
      ending.toList.map fun fault => "<" ++ (Error.corruption fault).message ++ ">")
  /-- An assignment is shown with the name of its column. -/
  outcomeText_eq : ∀ a ∈ as, ∃ column, schema.columns[a.column]? = some column ∧
    outcomeText schema (.ok a) = column.name ++ "=" ++ a.value.text

/-- Bytes are seen as the assignments that they split into, with a fault if there is a rest. -/
theorem Splits.seenAs (h : Splits schema bytes as rest) :
    ∃ ending : Option CorruptionFault, (ending = none ↔ rest = []) ∧
      SeenAs schema bytes as ending := by
  obtain ⟨ending, hending, houtcomes⟩ := h.outcomes_eq
  refine ⟨ending, hending, ?_⟩
  constructor
  case answer_eq =>
    intro calls
    rw [Reader.answer_eq, ← houtcomes]
    rfl
  case validate_eq =>
    exact validate_of_outcomes houtcomes
  case text_eq =>
    unfold text
    rw [houtcomes, List.map_append, List.map_map, List.map_map]
    rfl
  case outcomeText_eq =>
    intro a ha
    obtain ⟨column, hcolumn, -⟩ := (h.writable a ha).fits
    exact ⟨column, hcolumn, outcomeText_of_column hcolumn⟩

/-- **Any bytes are read as far as they are a change list.** They split in one way into assignments
that can be written and a rest that starts with none. They are seen as these assignments, with one
fault after them if there is a rest, and without a fault if there is none: by the calls on a reader,
however many are made, by validation, and in the text. So if bytes without a rest are cut off at a
boundary, they are seen as the assignments before it, without a fault; and if they are cut off
anywhere else, as the assignments before the one that is cut, with a fault. -/
theorem reads_longest_prefix (schema : Schema) (bytes : Bytes) :
    ∃ (as : List Assignment) (rest : Bytes) (ending : Option CorruptionFault),
      Splits schema bytes as rest ∧
      (∀ as' rest', Splits schema bytes as' rest' → as' = as ∧ rest' = rest) ∧
      (ending = none ↔ rest = []) ∧
      SeenAs schema bytes as ending ∧
      (rest = [] → ∀ cut ≤ bytes.length,
        (Boundary as cut → ∃ m ≤ as.length, cut = writtenSize (as.take m) ∧
          SeenAs schema (bytes.take cut) (as.take m) none) ∧
        (¬ Boundary as cut → ∃ m < as.length, ∃ fault, writtenSize (as.take m) < cut ∧
          cut < writtenSize (as.take (m + 1)) ∧
          SeenAs schema (bytes.take cut) (as.take m) (some fault))) := by
  obtain ⟨as, rest, hsplits⟩ := exists_splits schema bytes
  obtain ⟨ending, hending, hseen⟩ := hsplits.seenAs
  refine ⟨as, rest, ending, hsplits, fun as' rest' h' => hsplits.unique h', hending, hseen, ?_⟩
  rintro rfl cut hcut
  obtain ⟨hwritable, hbytes, -⟩ := hsplits
  rw [List.append_nil] at hbytes
  subst hbytes
  constructor
  · rintro ⟨m, hm, rfl⟩
    obtain ⟨ending', hending', hseen'⟩ := (splits_of_boundary hwritable m).seenAs
    obtain rfl := hending'.2 rfl
    exact ⟨m, hm, rfl, hseen'⟩
  · intro hnot
    obtain ⟨m, a, ha, hlt, hlt'⟩ := (boundary_or_inside hcut).resolve_left hnot
    obtain ⟨part, hpart, hsplits'⟩ := splits_of_inside hwritable ha hlt hlt'
    obtain ⟨ending', hending', hseen'⟩ := hsplits'.seenAs
    obtain ⟨hm, -⟩ := List.getElem?_eq_some_iff.1 ha
    have htake := writtenSize_take_succ ha
    cases ending' with
    | none => exact absurd (hending'.1 rfl) hpart
    | some fault => exact ⟨m, hm, fault, hlt, htake ▸ hlt', hseen'⟩

/-- The bytes of five assignments are seen as these. Cut off after the second one, they are seen as
the first two, without a fault; two bytes before, as the first one with a fault, and then nothing. -/
theorem reads_longest_prefix_mixed :
    SeenAs mixedSchema (mixedAssignments.flatMap Assignment.bytes) mixedAssignments none ∧
      validate mixedSchema ((mixedAssignments.flatMap Assignment.bytes).take 22) = .ok 2 ∧
      ∃ fault, SeenAs mixedSchema ((mixedAssignments.flatMap Assignment.bytes).take 20)
        (mixedAssignments.take 1) (some fault) := by
  have hadded : ((Builder.mk mixedSchema []).clear.addAll mixedAssignments).result = .ok () := by
    decide +kernel
  have hmixed : Splits mixedSchema (mixedAssignments.flatMap Assignment.bytes) mixedAssignments [] :=
    ⟨(Builder.addAll_clear_state hadded).1, (List.append_nil _).symm, .inl rfl⟩
  obtain ⟨as, rest, ending, -, hunique, hending, hseen, hcut⟩ :=
    reads_longest_prefix mixedSchema (mixedAssignments.flatMap Assignment.bytes)
  obtain ⟨rfl, rfl⟩ := hunique _ _ hmixed
  obtain rfl := hending.2 rfl
  refine ⟨hseen, ?_, ?_⟩
  · -- The second assignment ends after twenty-two bytes.
    have honly : ∀ m ≤ mixedAssignments.length,
        22 = writtenSize (mixedAssignments.take m) → m = 2 := by decide +kernel
    obtain ⟨m, hm, heq, hseen'⟩ := (hcut rfl 22 (by decide +kernel)).1 (by decide +kernel)
    obtain rfl := honly m hm heq
    exact hseen'.validate_eq
  · have honly : ∀ m < mixedAssignments.length, writtenSize (mixedAssignments.take m) < 20 →
        20 < writtenSize (mixedAssignments.take (m + 1)) → m = 1 := by decide +kernel
    obtain ⟨m, hm, fault, hlt, hlt', hseen'⟩ :=
      (hcut rfl 20 (by decide +kernel)).2 (by decide +kernel)
    obtain rfl := honly m hm hlt hlt'
    exact ⟨fault, hseen'⟩

end ChangeList

end TabletDelta
