import TabletDelta.Proofs.ChangeList.Codec
import TabletDelta.Proofs.Run

/-!
# What builders refuse

A builder refuses an assignment before it writes anything, with one exception. That a string is too
long is only found out once the index of its column has been written, and the index stays
(`Builder.add_cases`). Such a string has at least as many bytes as four bytes can count
(`Assignment.Oversized`). As long as none is given to it, a builder holds exactly the assignments
that it has taken since it was cleared, whatever else it has refused; and once one is, it does not
(`refused_without_trace`).
-/

namespace TabletDelta

/-- An assignment of a string that is too long, to a column that could take a shorter one. -/
structure Assignment.Oversized (schema : Schema) (a : Assignment) : Prop where
  /-- The assignment fits the schema. -/
  fits : a.Fits schema
  /-- The column index takes four bytes. -/
  column_lt : a.column < wordBound
  /-- The value is a string whose length takes more than four bytes. -/
  long : ∃ string, a.value = .string string ∧ wordBound ≤ string.length

/-- A cell has a form in bytes unless it is a string that is too long. -/
theorem Cell.bytes?_cases (value : Cell) : value.bytes? = .ok value.bytes ∨
    ∃ string, value = .string string ∧ wordBound ≤ string.length := by
  cases value with
  | string string =>
    by_cases hlength : string.length < wordBound
    · exact .inl (if_pos hlength)
    · exact .inr ⟨string, rfl, Nat.le_of_not_lt hlength⟩
  | bool | uint32 | int32 | uint64 | int64 => exact .inl rfl

/-- A string that is too long has no form in bytes. -/
theorem Cell.bytes?_of_long {string : Bytes} (h : wordBound ≤ string.length) :
    (Cell.string string).bytes? = .error (.longString string.length) :=
  if_neg (Nat.not_lt.2 h)

/-- An assignment whose value has a form in bytes is not of a string that is too long. -/
theorem Assignment.not_oversized {schema : Schema} {a : Assignment}
    (h : a.value.bytes? = .ok a.value.bytes) : ¬ a.Oversized schema := by
  rintro ⟨-, -, string, hvalue, hlong⟩
  rw [hvalue, Cell.bytes?_of_long hlong] at h
  cases h

namespace ChangeList

namespace Builder

/-! ## One assignment -/

/-- With a string that is too long, a builder gets as far as the column index. -/
theorem add_of_long {b : Builder} {column : Nat} {string : Bytes}
    (hfits : Assignment.Fits b.schema ⟨column, .string string⟩) (hlt : column < wordBound)
    (hlong : wordBound ≤ string.length) :
    b.add column (.string string) = .fail (.encoding (.longString string.length))
      { b with bytes := b.bytes ++ littleEndian 4 column } := by
  obtain ⟨c, hcolumn, htype⟩ := hfits
  unfold add
  rw [Schema.column_eq_ok_iff.2 hcolumn]
  dsimp only
  rw [if_neg (not_not.2 htype.symm), if_neg (Nat.not_le_of_lt hlt), Cell.bytes?_of_long hlong]

/-- What a builder does with an assignment: it appends the bytes of one that can be written, it
starts on a string that is too long and gives up, and it refuses any other one at once. -/
theorem add_cases (b : Builder) (a : Assignment) :
    (a.Writable b.schema ∧
        b.add a.column a.value = .ok () { b with bytes := b.bytes ++ a.bytes }) ∨
      (a.Oversized b.schema ∧ ∃ n, b.add a.column a.value =
        .fail (.encoding (.longString n)) { b with bytes := b.bytes ++ littleEndian 4 a.column }) ∨
      (¬ a.Writable b.schema ∧ ¬ a.Oversized b.schema ∧
        ∃ e, b.add a.column a.value = .fail e b) := by
  by_cases hwritable : a.Writable b.schema
  · exact .inl ⟨hwritable, add_eq_ok_iff.2 ⟨hwritable, rfl⟩⟩
  refine .inr ?_
  by_cases hoversized : a.Oversized b.schema
  · refine .inl ⟨hoversized, ?_⟩
    obtain ⟨hfits, hlt, string, hvalue, hlong⟩ := hoversized
    obtain ⟨column, value⟩ := a
    subst hvalue
    exact ⟨string.length, add_of_long hfits hlt hlong⟩
  · refine .inr ⟨hwritable, hoversized, ?_⟩
    unfold add
    cases hcolumn : b.schema.column a.column with
    | error e => exact ⟨e, rfl⟩
    | ok column =>
      dsimp only
      by_cases htype : column.type ≠ a.value.type
      · rw [if_pos htype]
        exact ⟨_, rfl⟩
      · rw [if_neg htype]
        by_cases hwide : a.column ≥ wordBound
        · rw [if_pos hwide]
          exact ⟨_, rfl⟩
        · -- With its column, type and index in order, the assignment is one of the other two kinds.
          have hfits : a.Fits b.schema :=
            ⟨column, Schema.column_eq_ok_iff.1 hcolumn, (not_not.1 htype).symm⟩
          have hlt : a.column < wordBound := Nat.lt_of_not_ge hwide
          rcases a.value.bytes?_cases with hbytes | ⟨string, hvalue, hlong⟩
          · exact absurd ⟨hfits, hlt, hbytes⟩ hwritable
          · exact absurd ⟨hfits, hlt, string, hvalue, hlong⟩ hoversized

/-- A builder is as it was before it refused an assignment, unless this was of a string that is too
long. -/
theorem state_eq_iff_of_refused {b : Builder} {a : Assignment} {e : Error}
    (h : (b.add a.column a.value).result = .error e) :
    (b.add a.column a.value).state = b ↔ ¬ a.Oversized b.schema := by
  rcases b.add_cases a with ⟨-, hadd⟩ | ⟨hoversized, n, hadd⟩ | ⟨-, hoversized, e', hadd⟩
  · rw [hadd] at h
    cases h
  · rw [hadd]
    refine iff_of_false (fun hstate => ?_) (not_not.2 hoversized)
    have hlength := congrArg (fun b => b.bytes.length) hstate
    simp only [Outcome.fail, List.length_append, length_littleEndian] at hlength
    omega
  · rw [hadd]
    exact iff_of_true rfl hoversized

/-! ## Runs -/

/-- A call on a builder. -/
inductive Op where
  /-- Adds an assignment. -/
  | add (a : Assignment)
  /-- Forgets what has been written. -/
  | clear
deriving DecidableEq

namespace Op

/-- Whether the call lets the builder start anew. -/
def isClear : Op → Bool
  | .clear => true
  | .add _ => false

/-- The call adds a string that is too long. -/
def Oversized (schema : Schema) : Op → Prop
  | .add a => a.Oversized schema
  | .clear => False

end Op

/-- A builder as a machine. -/
def step : Op → Builder → Except Error Unit × Builder
  | .add a, b => ((b.add a.column a.value).result, (b.add a.column a.value).state)
  | .clear, b => (.ok (), b.clear)

/-- What has been called on a builder, and answered. -/
abbrev History := List (Event Op (Except Error Unit))

/-- The assignment that a call has added. -/
def addedBy : Event Op (Except Error Unit) → Option Assignment
  | ⟨.add a, .ok ()⟩ => some a
  | _ => none

/-- The assignments added since the builder was last cleared. -/
def added (events : History) : List Assignment := (since Op.isClear events).filterMap addedBy

/-- What a builder holds: the assignments that it has taken, or more bytes than these have. -/
inductive Contents (schema : Schema) (events : History) (bytes : Bytes) : Prop where
  | clean (h : ∀ e ∈ since Op.isClear events, ¬ e.call.Oversized schema)
    (hbytes : bytes = (added events).flatMap Assignment.bytes) : Contents schema events bytes
  | stray (h : ∃ e ∈ since Op.isClear events, e.call.Oversized schema)
    (hbytes : ((added events).flatMap Assignment.bytes).length < bytes.length) :
    Contents schema events bytes

/-- What is known of a builder for a schema after some calls. -/
structure Holds (schema : Schema) (b : Builder) (events : History) : Prop where
  /-- The schema stays. -/
  schema_eq : b.schema = schema
  /-- What was added can be written. -/
  writable : ∀ a ∈ added events, a.Writable schema
  /-- What has been written. -/
  contents : Contents schema events b.bytes

variable {schema : Schema} {events : History} {b : Builder}

/-- A call that adds an assignment is one more since the builder was cleared. -/
theorem since_snoc_add (events : History) (a : Assignment) (answer : Except Error Unit) :
    since Op.isClear (events ++ [⟨.add a, answer⟩]) =
      since Op.isClear events ++ [⟨.add a, answer⟩] := by
  rw [since_snoc]
  rfl

/-- The assignments added, after one more call to add one. -/
theorem added_snoc_add (events : History) (a : Assignment) (answer : Except Error Unit) :
    added (events ++ [⟨.add a, answer⟩]) = added events ++ (addedBy ⟨.add a, answer⟩).toList := by
  unfold added
  rw [since_snoc_add, List.filterMap_append]
  rfl

/-- A call to add anything else than a string that is too long adds the bytes of what it adds. -/
theorem Contents.snoc {bytes : Bytes} {a : Assignment} (h : Contents schema events bytes)
    (ha : ¬ a.Oversized schema) (answer : Except Error Unit) :
    Contents schema (events ++ [⟨.add a, answer⟩])
      (bytes ++ (addedBy ⟨.add a, answer⟩).toList.flatMap Assignment.bytes) := by
  cases h with
  | clean hclean hbytes =>
    refine .clean ?_ ?_
    · rw [since_snoc_add, List.forall_mem_append, List.forall_mem_singleton]
      exact ⟨hclean, ha⟩
    · rw [added_snoc_add, List.flatMap_append, hbytes]
  | stray hstray hbytes =>
    refine .stray ?_ ?_
    · obtain ⟨e, he, hoversized⟩ := hstray
      refine ⟨e, ?_, hoversized⟩
      rw [since_snoc_add]
      exact List.mem_append_left _ he
    · rw [added_snoc_add, List.flatMap_append, List.length_append, List.length_append]
      omega

/-- A string that is too long leaves four bytes behind that belong to no assignment. -/
theorem Contents.snoc_oversized {bytes : Bytes} {a : Assignment} {e : Error}
    (h : Contents schema events bytes) (ha : a.Oversized schema) :
    Contents schema (events ++ [⟨.add a, .error e⟩]) (bytes ++ littleEndian 4 a.column) := by
  have hadded : added (events ++ [⟨.add a, .error e⟩]) = added events := by
    rw [added_snoc_add]
    exact List.append_nil _
  refine .stray ⟨⟨.add a, .error e⟩, ?_, ha⟩ ?_
  · rw [since_snoc_add]
    exact List.mem_append_right _ List.mem_cons_self
  · have hle : ((added events).flatMap Assignment.bytes).length ≤ bytes.length := by
      cases h with
      | clean hclean hbytes => rw [hbytes]
      | stray hstray hbytes => exact Nat.le_of_lt hbytes
    rw [hadded, List.length_append, length_littleEndian]
    omega

/-- Each call keeps what is known of the builder. -/
theorem Holds.snoc (h : Holds schema b events) (op : Op) :
    Holds schema (step op b).2 (events ++ [eventOf step op b]) := by
  obtain ⟨rfl, hwritable, hcontents⟩ := h
  cases op with
  | clear =>
    have hsince : since Op.isClear (events ++ [eventOf step .clear b]) = [] := by
      rw [since_snoc]
      rfl
    have hadded : added (events ++ [eventOf step .clear b]) = [] := by
      unfold added
      rw [hsince, List.filterMap_nil]
    refine ⟨rfl, ?_, .clean ?_ ?_⟩
    · rw [hadded]
      exact List.forall_mem_nil _
    · rw [hsince]
      exact List.forall_mem_nil _
    · rw [hadded]
      rfl
  | add a =>
    rcases b.add_cases a with ⟨ha, hadd⟩ | ⟨ha, n, hadd⟩ | ⟨-, ha, e, hadd⟩
    · have hstep : step (.add a) b = (.ok (), { b with bytes := b.bytes ++ a.bytes }) := by
        rw [step, hadd]
        rfl
      unfold eventOf
      rw [hstep]
      refine ⟨rfl, ?_, ?_⟩
      · rw [added_snoc_add, List.forall_mem_append]
        exact ⟨hwritable, List.forall_mem_singleton.2 ha⟩
      · have hsnoc := hcontents.snoc (Assignment.not_oversized ha.bytes?_eq) (.ok ())
        rwa [addedBy, Option.toList_some, List.flatMap_singleton] at hsnoc
    · have hstep : step (.add a) b = (.error (.encoding (.longString n)),
          { b with bytes := b.bytes ++ littleEndian 4 a.column }) := by
        rw [step, hadd]
        rfl
      unfold eventOf
      rw [hstep]
      refine ⟨rfl, ?_, hcontents.snoc_oversized ha⟩
      rw [added_snoc_add, List.forall_mem_append]
      exact ⟨hwritable, List.forall_mem_nil _⟩
    · have hstep : step (.add a) b = (.error e, b) := by
        rw [step, hadd]
        rfl
      unfold eventOf
      rw [hstep]
      refine ⟨rfl, ?_, ?_⟩
      · rw [added_snoc_add, List.forall_mem_append]
        exact ⟨hwritable, List.forall_mem_nil _⟩
      · have hnone : addedBy ⟨.add a, .error e⟩ = none := rfl
        have hsnoc := hcontents.snoc ha (.error e)
        rwa [hnone, Option.toList_none, List.flatMap_nil, List.append_nil] at hsnoc

/-- What is known of a builder holds after every run of a new one. -/
theorem holds_of_run (h : Run step ⟨schema, []⟩ events b) : Holds schema b events := by
  refine h.invariant (fun past b => Holds schema b past) (fun _ _ op hb => hb.snoc op) ?_
  exact ⟨rfl, List.forall_mem_nil _, .clean (List.forall_mem_nil _) rfl⟩

/-- A refused assignment leaves no trace in a builder, unless it was of a string that is too long.
Take any run of a new builder. An assignment that it refuses next leaves it as it is exactly if it
is not of a string that is too long for the four bytes of a length. And what is read from its bytes
are exactly the assignments that it has taken since it was last cleared, provided that no such
string was among those given to it in the meantime, and only then. -/
theorem refused_without_trace (hrun : Run step ⟨schema, []⟩ events b) :
    (∀ (a : Assignment) (e : Error), (b.add a.column a.value).result = .error e →
      ((b.add a.column a.value).state = b ↔ ¬ a.Oversized schema)) ∧
    (outcomes schema b.bytes = (added events).map .ok ↔
      ∀ e ∈ since Op.isClear events, ¬ e.call.Oversized schema) := by
  obtain ⟨rfl, hwritable, hcontents⟩ := holds_of_run hrun
  refine ⟨fun a e => state_eq_iff_of_refused, ?_⟩
  rw [outcomes_eq_iff]
  cases hcontents with
  | clean hclean hbytes => exact iff_of_true ⟨hwritable, hbytes⟩ hclean
  | stray hstray hbytes =>
    refine iff_of_false ?_ ?_
    · rintro ⟨-, heq⟩
      rw [heq] at hbytes
      exact Nat.lt_irrefl _ hbytes
    · obtain ⟨e, he, hoversized⟩ := hstray
      exact fun hnone => hnone e he hoversized

/-- Of these calls, the first is forgotten, the third adds an assignment, and the others are refused:
for their type, for a column that is not there, and for another type. -/
def mixedCalls : List Op :=
  [.add ⟨1, .bool false⟩, .clear, .add ⟨1, .bool true⟩, .add ⟨1, .uint32 1⟩, .add ⟨3, .bool true⟩,
    .add ⟨0, .string [104, 105]⟩, .add ⟨0, .int64 (-2)⟩]

/-- Three refusals in a row leave no trace between the two assignments that are read back, and
neither does a fourth. -/
theorem refused_without_trace_mixedCalls :
    outcomes mixedSchema (execute step mixedCalls ⟨mixedSchema, []⟩).2.bytes =
        [.ok ⟨1, .bool true⟩, .ok ⟨0, .int64 (-2)⟩] ∧
      ((execute step mixedCalls ⟨mixedSchema, []⟩).2.add 2 (.bool true)).state =
        (execute step mixedCalls ⟨mixedSchema, []⟩).2 := by
  obtain ⟨hstate, hread⟩ :=
    refused_without_trace (.of_execute mixedCalls (Builder.mk mixedSchema []))
  have hcalls : (since Op.isClear (execute step mixedCalls ⟨mixedSchema, []⟩).1).map Event.call =
      mixedCalls.drop 2 := by decide +kernel
  have hshort : ∀ op ∈ mixedCalls.drop 2, ¬ op.Oversized mixedSchema := by
    simp only [mixedCalls, List.drop_succ_cons, List.drop_zero, List.forall_mem_cons]
    exact ⟨Assignment.not_oversized rfl, Assignment.not_oversized rfl, Assignment.not_oversized rfl,
      Assignment.not_oversized rfl, Assignment.not_oversized rfl, List.forall_mem_nil _⟩
  refine ⟨hread.2 fun e he => hshort e.call ?_, ?_⟩
  · rw [← hcalls]
    exact List.mem_map_of_mem he
  · exact (hstate ⟨2, .bool true⟩ (.typeMismatch (.assignment "name" .string .bool)) rfl).2
      (Assignment.not_oversized rfl)

/-- A schema of one column of strings. -/
def textSchema : Schema := ⟨[⟨"name", .string⟩], 0, by decide, by decide⟩

/-- The shortest string of zeros whose length does not fit in four bytes. It is there to be reasoned
about: in memory it would take some hundred gigabytes. -/
noncomputable def longZeros : Bytes := List.replicate wordBound 0

/-- A string of the first length that is too long leaves the four bytes of its column index in the
builder. With an empty string added after it, these are read as an assignment of their own, and the
end of the empty string is missing. -/
theorem read_after_long {string : Bytes} (hlength : string.length = wordBound) :
    (Builder.mk textSchema []).add 0 (.string string) =
        .fail (.encoding (.longString wordBound)) ⟨textSchema, [0, 0, 0, 0]⟩ ∧
      (execute step [.add ⟨0, .string string⟩, .add ⟨0, .string []⟩] ⟨textSchema, []⟩).1.map
          Event.answer = [.error (.encoding (.longString wordBound)), .ok ()] ∧
      outcomes textSchema (execute step [.add ⟨0, .string string⟩, .add ⟨0, .string []⟩]
          ⟨textSchema, []⟩).2.bytes =
        [.ok ⟨0, .string []⟩, .error (.truncated .stringLength 4 0)] := by
  have hadd : (Builder.mk textSchema []).add 0 (.string string) =
      .fail (.encoding (.longString wordBound)) ⟨textSchema, [0, 0, 0, 0]⟩ := by
    rw [add_of_long ⟨⟨"name", .string⟩, rfl, rfl⟩ (by decide) (Nat.le_of_eq hlength.symm), hlength]
    rfl
  have hstep : step (.add ⟨0, .string string⟩) ⟨textSchema, []⟩ =
      (.error (.encoding (.longString wordBound)), ⟨textSchema, [0, 0, 0, 0]⟩) := by
    rw [step, hadd]
    rfl
  have hcalls : execute step [.add ⟨0, .string string⟩, .add ⟨0, .string []⟩] ⟨textSchema, []⟩ =
      ([⟨.add ⟨0, .string string⟩, .error (.encoding (.longString wordBound))⟩,
        ⟨.add ⟨0, .string []⟩, .ok ()⟩], ⟨textSchema, List.replicate 12 0⟩) := by
    unfold execute eventOf
    rw [hstep]
    rfl
  have hread : outcomes textSchema (List.replicate 12 0) =
      [.ok ⟨0, .string []⟩, .error (.truncated .stringLength 4 0)] := by cbv
  rw [hcalls]
  exact ⟨hadd, rfl, hread⟩

/-- The shortest string of zeros that is too long leaves a trace: the builder is not as it was, and
what is read after the next assignment is not this assignment. -/
theorem longZeros_leaves_trace :
    (Builder.mk textSchema []).add 0 (.string longZeros) =
        .fail (.encoding (.longString wordBound)) ⟨textSchema, [0, 0, 0, 0]⟩ ∧
      (execute step [.add ⟨0, .string longZeros⟩, .add ⟨0, .string []⟩] ⟨textSchema, []⟩).1.map
          Event.answer = [.error (.encoding (.longString wordBound)), .ok ()] ∧
      outcomes textSchema (execute step [.add ⟨0, .string longZeros⟩, .add ⟨0, .string []⟩]
          ⟨textSchema, []⟩).2.bytes =
        [.ok ⟨0, .string []⟩, .error (.truncated .stringLength 4 0)] := by
  have hlength : longZeros.length = wordBound := List.length_replicate
  exact read_after_long hlength

end Builder

end ChangeList

end TabletDelta
