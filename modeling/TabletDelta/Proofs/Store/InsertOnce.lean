import TabletDelta.Proofs.Arena.Room
import TabletDelta.Proofs.Read.Protocol

/-!
# A store as an ordered map

A store is a map from keys to change lists into which each key is inserted once. What it answers to
an update depends on the change list, on the keys it has accepted, and on the room in its memory, in
this order (`update_verdict`). The accepted updates are its entries, in key order, and their number
is its count (`Accounts`); a refused one leaves nothing behind. So the store after some updates is a
matter of which ones it has accepted, and in which order it took them cannot be told from its dump,
its count or any read (`insert_once`).
-/

namespace TabletDelta

namespace Store

/-- The books of a store are in order: each delta accepted is an entry, and was counted. -/
structure Accounts (s : Store) (accepted : List Entry) : Prop where
  /-- The entries are the deltas accepted. -/
  perm : s.entries.Perm accepted
  /-- The count is the number of the deltas accepted. -/
  added_eq : s.added = accepted.length

variable {schema : Schema} {config : ArenaConfig} {s s' : Store} {accepted : List Entry}
  {events : History}

/-- The reasons to refuse an update exclude each other, so each answer tells its reason. -/
theorem Verdict.answer_iff {e : Entry} {updated : Outcome Store Unit} (h : Verdict s e updated) :
    (updated.result = .error (.encoding .emptyChangeList) ↔ e.changes = []) ∧
      (∀ fault, updated.result = .error (.corruption fault) ↔
        e.changes ≠ [] ∧ ChangeList.validate s.schema e.changes = .error fault) ∧
      (updated.result = .error (.duplicateDelta e.key) ↔
        Storable s.schema e.changes ∧ ∃ f ∈ s.entries, f.key = e.key) ∧
      ((∃ limit, updated.result = .error (.arenaExhausted e.changes.length limit)) ↔
        Storable s.schema e.changes ∧ (∀ f ∈ s.entries, f.key ≠ e.key) ∧
          ¬ s.arena.HasRoom e.changes.length) ∧
      (updated.result = .ok () ↔
        Storable s.schema e.changes ∧ (∀ f ∈ s.entries, f.key ≠ e.key) ∧
          s.arena.HasRoom e.changes.length) := by
  cases h with
  | empty h => simp [h, Storable]
  | corrupt h hfault => simp [h, hfault, Storable]
  | duplicate h hkey => grind [Storable]
  | exhausted h hkey hroom hlimit => grind [Storable]
  | accept h hkey hroom => grind [Storable]

/-- A refused update leaves the store as it is. -/
theorem step_refused {e : Entry} {fault : Error} (h : (step e s).1 = .error fault) :
    (step e s).2 = s := by
  rcases step_cases e s with ⟨fault', hstep⟩ | ⟨-, -, arena, -, hstep⟩
  · rw [hstep]
  · rw [hstep] at h
    cases h

/-- A refused update can be left out of a run. -/
theorem run_without_refused {before after : History} {e : Entry} {fault : Error}
    (h : Run step s (before ++ ⟨e, .error fault⟩ :: after) s') :
    Run step s (before ++ after) s' := by
  obtain ⟨m, hbefore, hanswer, hafter⟩ := h.split
  rw [step_refused hanswer.symm] at hafter
  exact Run.append_iff.2 ⟨m, hbefore, hafter⟩

/-- An insertion adds its entry to the others. -/
theorem insertEntry_perm (e : Entry) (entries : List Entry) :
    (insertEntry e entries).Perm (e :: entries) := by
  induction entries with
  | nil => exact .refl _
  | cons f fs ih =>
    unfold insertEntry
    split
    · exact .refl _
    · exact (ih.cons f).trans (.swap e f fs)

/-- Each update keeps the books in order. -/
theorem Accounts.snoc (h : s.Accounts (deltas events)) (e : Entry) :
    (step e s).2.Accounts (deltas (events ++ [eventOf step e s])) := by
  rcases step_cases e s with ⟨fault, hstep⟩ | ⟨-, -, arena, -, hstep⟩
  · rw [deltas_snoc_refused events hstep, hstep]
    exact h
  · rw [deltas_snoc_accepted events hstep, hstep]
    refine ⟨?_, ?_⟩
    · calc (insertEntry e s.entries).Perm (e :: s.entries) := insertEntry_perm e s.entries
        List.Perm _ (e :: deltas events) := h.perm.cons e
        List.Perm _ (deltas events ++ [e]) := (List.perm_append_singleton e _).symm
    · show s.added + 1 = (deltas events ++ [e]).length
      rw [List.length_append, h.added_eq, List.length_singleton]

/-- After any updates, the books are in order. -/
theorem accounts_of_run (h : Run step (.empty schema config) events s) :
    s.Accounts (deltas events) :=
  h.invariant (fun past s => s.Accounts (deltas past)) (fun _ _ e hs => hs.snoc e)
    ⟨.refl _, rfl⟩

/-- Stores that hold the same deltas list them in the same order. -/
theorem entries_eq_of_perm {other : List Entry} (h : s.Holds schema accepted)
    (h' : s'.Holds schema other) (hperm : s'.entries.Perm s.entries) : s'.entries = s.entries :=
  hperm.eq_of_pairwise
    (fun _ _ _ _ hlt hgt => absurd (Key.lt_trans hlt hgt) (Key.lt_irrefl _)) h'.sorted h.sorted

end Store

/-- What a scan finds in a store is a matter of the store's schema and its entries. -/
theorem Scan.step_congr {s s' : Store} (hschema : s'.schema = s.schema)
    (hentries : s'.entries = s.entries) : Scan.step s' = Scan.step s := by
  funext op scan
  cases op with
  | init =>
    have hinit : DeltaSource.init s' scan = DeltaSource.init s scan := by
      show scan.init s'.schema = scan.init s.schema
      rw [hschema]
    show (Reply.moved (DeltaSource.init s' scan).result, (DeltaSource.init s' scan).state) =
      (Reply.moved (DeltaSource.init s scan).result, (DeltaSource.init s scan).state)
    rw [hinit]
  | prepare rows =>
    have hprepare : DeltaSource.prepare s' rows scan = DeltaSource.prepare s rows scan := by
      show scan.prepare s' rows = scan.prepare s rows
      unfold prepare Store.range
      rw [hschema, hentries]
    show (Reply.prepared scan.position (DeltaSource.prepare s' rows scan).result,
        (DeltaSource.prepare s' rows scan).state) =
      (Reply.prepared scan.position (DeltaSource.prepare s rows scan).result,
        (DeltaSource.prepare s rows scan).state)
    rw [hprepare]
  | seek row | apply column target => rfl

namespace Store

variable {schema : Schema} {config : ArenaConfig} {s : Store} {events : History}

/-- A store is an ordered map into which each key is inserted once. After any updates, the next one
is refused because its change list is empty, else because this cannot be read, else because its key
has been accepted before, else because the memory has no room for it, and is accepted otherwise. A
refused update changes nothing, and the run is as if it had not been made. The entries are the
accepted updates in the order of their keys, one line of the dump for each of them, and the count is
their number. In what order they were made makes no difference to the entries, the dump, the count
and all that scans find. -/
theorem insert_once (hrun : Run step (.empty schema config) events s) :
    (∀ e,
      ((step e s).1 = .error (.encoding .emptyChangeList) ↔ e.changes = []) ∧
      (∀ fault, (step e s).1 = .error (.corruption fault) ↔
        e.changes ≠ [] ∧ ChangeList.validate schema e.changes = .error fault) ∧
      ((step e s).1 = .error (.duplicateDelta e.key) ↔
        Storable schema e.changes ∧ ∃ f ∈ deltas events, f.key = e.key) ∧
      ((∃ limit, (step e s).1 = .error (.arenaExhausted e.changes.length limit)) ↔
        Storable schema e.changes ∧ (∀ f ∈ deltas events, f.key ≠ e.key) ∧
          ¬ s.arena.HasRoom e.changes.length) ∧
      ((step e s).1 = .ok () ↔
        Storable schema e.changes ∧ (∀ f ∈ deltas events, f.key ≠ e.key) ∧
          s.arena.HasRoom e.changes.length)) ∧
    (∀ e fault, (step e s).1 = .error fault → (step e s).2 = s) ∧
    (∀ before e fault after, events = before ++ ⟨e, .error fault⟩ :: after →
      Run step (.empty schema config) (before ++ after) s) ∧
    s.entries.Perm (deltas events) ∧ (s.entries.Pairwise fun a b => a.key < b.key) ∧
    s.dump = s.entries.map (fun e => ChangeList.deltaText schema e.key e.changes) ∧
    s.count = (deltas events).length ∧
    ∀ config' events' s', Run step (.empty schema config') events' s' →
      (deltas events').Perm (deltas events) →
        s'.entries = s.entries ∧ s'.dump = s.dump ∧ s'.count = s.count ∧
          Scan.step s' = Scan.step s := by
  have hholds := holds_of_run hrun
  have haccounts := accounts_of_run hrun
  have hdump : s.dump = s.entries.map fun e => ChangeList.deltaText schema e.key e.changes := by
    unfold dump
    rw [hholds.schema_eq]
  refine ⟨fun e => ?_, fun e fault => step_refused, ?_, haccounts.perm, hholds.sorted, hdump,
    haccounts.added_eq, ?_⟩
  · have hanswer := (s.update_verdict e).answer_iff
    simp only [hholds.schema_eq, hholds.mem_entries] at hanswer
    exact hanswer
  · rintro before e fault after rfl
    exact run_without_refused hrun
  · intro config' events' s' hrun' hsame
    have hholds' := holds_of_run hrun'
    have haccounts' := accounts_of_run hrun'
    have hschema : s'.schema = s.schema := hholds'.schema_eq.trans hholds.schema_eq.symm
    have hentries : s'.entries = s.entries := by
      refine entries_eq_of_perm hholds hholds' ?_
      exact haccounts'.perm.trans (hsame.trans haccounts.perm.symm)
    refine ⟨hentries, ?_, ?_, Scan.step_congr hschema hentries⟩
    · unfold dump
      rw [hschema, hentries]
    · calc s'.count = (deltas events').length := haccounts'.added_eq
        _ = (deltas events).length := hsame.length_eq
        _ = s.count := haccounts.added_eq.symm

/-- Memory for two change lists of eight bytes. -/
def sixteenBytes : ArenaConfig := { initial := 8, cap := 8, limit := some 16 }

/-- Updates of which the first and the second last are accepted. The others have an empty change
list, one that ends early, and one under a key that is taken; for the last one there is no room. -/
def mixedUpdates : List Entry :=
  [⟨⟨5, 2⟩, [0, 0, 0, 0, 7, 0, 0, 0]⟩, ⟨⟨5, 1⟩, []⟩, ⟨⟨5, 1⟩, [0, 0, 0, 0, 3]⟩,
    ⟨⟨5, 2⟩, [0, 0, 0, 0, 8, 0, 0, 0]⟩, ⟨⟨5, 1⟩, [0, 0, 0, 0, 3, 0, 0, 0]⟩,
    ⟨⟨6, 1⟩, [0, 0, 0, 0, 9, 0, 0, 0]⟩]

/-- The store after these updates, with their answers. -/
def mixedRun : History × Store := execute step mixedUpdates (.empty .numbers sixteenBytes)

/-- The accepted updates alone, the other way round. -/
def orderedUpdates : List Entry :=
  [⟨⟨5, 1⟩, [0, 0, 0, 0, 3, 0, 0, 0]⟩, ⟨⟨5, 2⟩, [0, 0, 0, 0, 7, 0, 0, 0]⟩]

/-- The store after these updates, with their answers. -/
def orderedRun : History × Store := execute step orderedUpdates (.empty .numbers {})

/-- Each of the updates has the answer that its place in the order of reasons gives it. The store
counts two entries, and is the same to all readers as if these had been added in key order. A
further update is refused for want of room, and leaves the store as it is. -/
theorem insert_once_mixedRun :
    mixedRun.1.map Event.answer =
        [.ok (), .error (.encoding .emptyChangeList),
          .error (.corruption (.truncated (.value .uint32) 4 1)), .error (.duplicateDelta ⟨5, 2⟩),
          .ok (), .error (.arenaExhausted 8 16)] ∧
      mixedRun.2.count = 2 ∧ orderedRun.2.entries = mixedRun.2.entries ∧
      orderedRun.2.dump = mixedRun.2.dump ∧ Scan.step orderedRun.2 = Scan.step mixedRun.2 ∧
      ¬ mixedRun.2.arena.HasRoom 8 ∧
      ∃ limit, step ⟨⟨6, 2⟩, [0, 0, 0, 0, 1, 0, 0, 0]⟩ mixedRun.2 =
        (.error (.arenaExhausted 8 limit), mixedRun.2) := by
  have hmixed : Run step (.empty .numbers sixteenBytes) mixedRun.1 mixedRun.2 := by
    unfold mixedRun
    exact Run.of_execute mixedUpdates (Store.empty .numbers sixteenBytes)
  have hordered : Run step (.empty .numbers {}) orderedRun.1 orderedRun.2 := by
    unfold orderedRun
    exact Run.of_execute orderedUpdates (Store.empty .numbers {})
  obtain ⟨hanswer, hrefused, -, -, -, -, hcount, hsame⟩ := insert_once hmixed
  have hperm : (deltas orderedRun.1).Perm (deltas mixedRun.1) := by decide +kernel
  obtain ⟨hentries, hdump, -, hreads⟩ := hsame {} orderedRun.1 orderedRun.2 hordered hperm
  have hroom : ¬ mixedRun.2.arena.HasRoom 8 := by decide +kernel
  have hstorable : Storable .numbers [0, 0, 0, 0, 1, 0, 0, 0] := ⟨by decide, 1, by decide +kernel⟩
  have hnew : ∀ f ∈ deltas mixedRun.1, f.key ≠ ⟨6, 2⟩ := by decide +kernel
  refine ⟨by decide +kernel, hcount.trans (by decide +kernel), hentries, hdump, hreads, hroom, ?_⟩
  obtain ⟨limit, hexhausted⟩ :=
    (hanswer ⟨⟨6, 2⟩, [0, 0, 0, 0, 1, 0, 0, 0]⟩).2.2.2.1.2 ⟨hstorable, hnew, hroom⟩
  exact ⟨limit, Prod.ext hexhausted (hrefused _ _ hexhausted)⟩

end Store

end TabletDelta
