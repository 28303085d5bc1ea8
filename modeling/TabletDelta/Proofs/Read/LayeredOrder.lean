import TabletDelta.Proofs.Read.CallOrder
import TabletDelta.Proofs.Read.Singles

/-!
# The order of calls on layers

Layers keep no account of the calls made on them. If a call comes out of order, it is up to the
scans in them to refuse it, and there would be no order left if some scans took a call that another
one refuses. They do not. As long as all scans fit their stores, each of them has taken exactly the
moves that the layers have taken as a whole (`Scan.Follows`), so the first one refuses what any of
them would. And a scan that does not fit its store stays as it was built and holds up every call. So
layers keep the order of calls however they are built, as long as there is a scan in them to do so
(`layers_keep_order`). Layers with no scan in them take any call (`nothing_out_of_order`).
-/

namespace TabletDelta

/-! ## Moves in order -/

/-- How far moves have brought a source. -/
structure Pace where
  /-- The row that it is on. -/
  position : Nat := 0
  /-- The end of the last batch. -/
  reached : Option Nat := none

namespace Move

/-- The move is a seek. -/
def seeks : Move → Bool
  | .seek _ => true
  | _ => false

/-- How far one more move brings a source. -/
def advance (p : Pace) : Move → Pace
  | .init => p
  | .seek row => { p with position := row.toNat }
  | .prepare rows =>
    let stop := min (p.position + rows) Scan.maxPosition
    ⟨stop, some stop⟩

/-- How far moves bring a new source, one after the other. -/
def pace (done : List Move) : Pace := done.foldl advance {}

/-- The moves after the last seek, or all of them without one. -/
def sinceSeek (done : List Move) : List Move := done.rtakeWhile fun m => !m.seeks

/-- The move is due after others: the first one is to bind the source, a seek does not go back
behind a batch, and batches come after a seek. -/
def Due (done : List Move) : Move → Prop
  | .init => .init ∉ done
  | .seek row => .init ∈ done ∧ ∀ r, (pace done).reached = some r → r ≤ row.toNat
  | .prepare _ => ∃ row, .seek row ∈ done

/-- How far one more move brings a source. -/
theorem pace_snoc (done : List Move) (m : Move) : pace (done ++ [m]) = advance (pace done) m := by
  unfold pace
  rw [List.foldl_append]
  rfl

/-- After a seek there is nothing since, and any other move is added. -/
theorem sinceSeek_snoc (done : List Move) (m : Move) :
    sinceSeek (done ++ [m]) = if m.seeks then [] else sinceSeek done ++ [m] := by
  unfold sinceSeek
  rw [List.rtakeWhile_concat]
  cases m.seeks <;> rfl

end Move

namespace Scan

/-- A scan has taken these moves, and no other one. -/
structure Follows (done : List Move) (s : Scan) : Prop where
  /-- It is fresh until it is initialized. -/
  fresh_iff : s.phase = .fresh ↔ .init ∉ done
  /-- It is on no row until it is put on one. -/
  early_iff : (s.phase = .fresh ∨ s.phase = .bound) ↔ ∀ row, .seek row ∉ done
  /-- A batch that is there has been prepared since the last seek. -/
  batch : ∀ rows writes, s.phase = .prepared rows writes → .prepare rows ∈ Move.sinceSeek done
  /-- It is on the row that the moves have brought it to. -/
  position_eq : s.position = (Move.pace done).position
  /-- It has reached the end of the last batch. -/
  reached_eq : s.reached = (Move.pace done).reached

variable {schema : Schema} {store : Store} {deltas : List Entry} {s : Scan} {done : List Move}

/-- A new scan has taken no move. -/
theorem follows_start (projection : Schema) (snapshot : Snapshot) :
    (start projection snapshot).Follows [] where
  fresh_iff := iff_of_true rfl List.not_mem_nil
  early_iff := iff_of_true (.inl rfl) fun _ => List.not_mem_nil
  batch _ _ h := ScanPhase.noConfusion h
  position_eq := rfl
  reached_eq := rfl

/-- A scan that fits its store takes the moves that are due. -/
theorem Follows.move_iff (h : s.Follows done) (hstore : store.Holds schema deltas)
    (hfits : s.projection.columns ⊆ schema.columns) (m : Move) :
    (DeltaSource.move store m s).result = .ok () ↔ m.Due done := by
  cases m with
  | init => exact (init_result hstore.schema_eq).trans ((and_iff_left hfits).trans h.fresh_iff)
  | seek row =>
    have hseek : (step store (.seek row) s).1.result = .ok () ↔ _ := seek_result
    refine hseek.trans ?_
    rw [ne_eq, h.fresh_iff, not_not, h.reached_eq]
    rfl
  | prepare rows =>
    refine (prepare_result hstore).trans ?_
    rw [ne_eq, ne_eq, ← not_or, h.early_iff]
    exact not_forall_not

/-- A scan that takes a move has taken one more. -/
theorem Follows.move (h : s.Follows done) (hstore : store.Holds schema deltas) {m : Move}
    (hok : (DeltaSource.move store m s).result = .ok ()) :
    (DeltaSource.move store m s).state.Follows (done ++ [m]) := by
  rw [move_state]
  cases m with
  | init =>
    obtain ⟨hfresh, routes, hstep⟩ := step_bind hok
    have hearly : ∀ row, .seek row ∉ done ++ [.init] := fun row => by
      simpa using h.early_iff.1 (.inl hfresh) row
    show (Scan.step store .init s).2.Follows _
    rw [hstep]
    refine ⟨?_, iff_of_true (.inr rfl) hearly, fun _ _ hphase => ScanPhase.noConfusion hphase,
      ?_, ?_⟩
    · exact iff_of_false ScanPhase.noConfusion (not_not.2 List.mem_concat_self)
    · rw [Move.pace_snoc]
      exact h.position_eq
    · rw [Move.pace_snoc]
      exact h.reached_eq
  | seek row =>
    obtain ⟨hfresh, hstep⟩ := step_place hok
    have hinit : .init ∈ done := not_not.1 (mt h.fresh_iff.2 hfresh)
    show (Scan.step store (.seek row) s).2.Follows _
    rw [hstep]
    refine ⟨?_, ?_, fun _ _ hphase => ScanPhase.noConfusion hphase, ?_, ?_⟩
    · exact iff_of_false ScanPhase.noConfusion (not_not.2 (List.mem_append_left _ hinit))
    · exact iff_of_false (by simp) fun hall => hall row List.mem_concat_self
    · rw [Move.pace_snoc]
      rfl
    · rw [Move.pace_snoc]
      exact h.reached_eq
  | prepare rows =>
    obtain ⟨hfresh, hbound, hstep⟩ := step_pass hstore hok
    have hinit : .init ∈ done := not_not.1 (mt h.fresh_iff.2 hfresh)
    -- The scan is past being bound, so it has been put on a row.
    obtain ⟨row, hrow⟩ : ∃ row, .seek row ∈ done :=
      not_forall_not.1 (mt h.early_iff.2 (not_or.2 ⟨hfresh, hbound⟩))
    have hstop : s.stop rows = (Move.advance (Move.pace done) (.prepare rows)).position := by
      show min (s.position + rows) maxPosition = _
      rw [h.position_eq]
      rfl
    show (Scan.step store (.prepare rows) s).2.Follows _
    rw [hstep]
    refine ⟨?_, ?_, fun n writes hphase => ?_, ?_, ?_⟩
    · exact iff_of_false ScanPhase.noConfusion (not_not.2 (List.mem_append_left _ hinit))
    · exact iff_of_false (by simp [behind]) fun hall => hall row (List.mem_append_left _ hrow)
    · cases hphase
      rw [Move.sinceSeek_snoc]
      exact List.mem_concat_self
    · rw [Move.pace_snoc]
      exact hstop
    · rw [Move.pace_snoc]
      exact congrArg some hstop

/-- A column is written behind a batch only, and is one of the projection's. -/
theorem apply_eq_ok {column : Nat} {target : Target} (h : (s.apply column target).result = .ok ()) :
    (∃ rows writes, s.phase = .prepared rows writes) ∧ column < s.projection.columns.length := by
  rcases apply_cases s column target with ⟨e, -, hfail⟩ | ⟨-, rows, writes, c, hphase, hc, -⟩
  · rw [hfail] at h
    cases h
  · exact ⟨⟨rows, writes, hphase⟩, (List.getElem?_eq_some_iff.1 hc).1⟩

end Scan

/-- A move that is refused leaves a scan of a readable store as it was. -/
theorem At.move_refused {κ : Type} {stores : κ → Store} {schemas : κ → Schema} {a : At κ Scan}
    (hstore : (stores a.key).Reachable (schemas a.key)) {m : Move}
    (h : (DeltaSource.move (stores a.key) m a.source).result ≠ .ok ()) :
    ∃ e, DeltaSource.move stores m a = .fail e a := by
  cases hresult : (DeltaSource.move (stores a.key) m a.source).result with
  | ok u => exact absurd hresult h
  | error e =>
    refine ⟨e, ?_⟩
    rw [At.move_eq, Scan.move_refused hstore.holds hresult]
    rfl

namespace Layers

/-! ## Layers of new scans -/

variable {κ : Type}

/-- Layers built of new scans, whatever their columns and their snapshots are: a scan by itself, a
stack of such layers, and several of them made one. -/
inductive Built : Layers (At κ Scan) → Prop where
  | single (key : κ) (projection : Schema) (snapshot : Snapshot) :
    Built (.single ⟨key, .start projection snapshot⟩)
  | stack {layers : List (Layers (At κ Scan))} (h : ∀ layer ∈ layers, Built layer) :
    Built (.stack layers)
  | ofList {layers : List (Layers (At κ Scan))} (h : ∀ layer ∈ layers, Built layer) :
    Built (.ofList layers)

/-- A stack may be built of nothing. -/
theorem built_nothing : Built (.stack [] : Layers (At κ Scan)) :=
  .stack fun _ h => absurd h List.not_mem_nil

/-- The single sources of layers that have just been built are new scans. -/
theorem Built.start_of_mem {layers : Layers (At κ Scan)} (h : layers.Built) :
    ∀ a ∈ layers.singles, ∃ projection snapshot, a.source = .start projection snapshot := by
  induction h with
  | single key projection snapshot =>
    intro a ha
    rw [singles, List.mem_singleton] at ha
    exact ⟨projection, snapshot, ha ▸ rfl⟩
  | stack h ih =>
    intro a ha
    rw [singles] at ha
    obtain ⟨layer, hlayer, ha⟩ := mem_singlesOf.1 ha
    exact ih layer hlayer a ha
  | ofList h ih =>
    intro a ha
    rw [singles_ofList] at ha
    obtain ⟨layer, hlayer, ha⟩ := mem_singlesOf.1 ha
    exact ih layer hlayer a ha

end Layers

namespace Reading

variable {κ : Type} {schemas : κ → Schema}

/-! ## The order kept -/

/-- The calls on layered scans so far, each on stores, with their answers. -/
abbrev Calls (κ : Type) := List (Event ((κ → Store) × Op) (Except Error Unit))

/-- The move that an event is, if it succeeded. -/
def moved? : Event ((κ → Store) × Op) (Except Error Unit) → Option Move
  | ⟨(_, .move m), .ok ()⟩ => some m
  | _ => none

/-- The moves that have succeeded, in order. -/
def moved (past : Calls κ) : List Move := past.filterMap moved?

/-- All single scans fit their stores: each store has the columns of the projection. -/
def Fitting (schemas : κ → Schema) (layers : Layers (At κ Scan)) : Prop :=
  ∀ a ∈ layers.singles, a.source.projection.columns ⊆ (schemas a.key).columns

/-- What the moves that have succeeded on layers of scans say about the next call. -/
structure KeepsOrder (schemas : κ → Schema) (layers : Layers (At κ Scan)) (done : List Move)
    (now : Reading (Layers (At κ Scan))) : Prop where
  /-- Layers are initialized once, and if all their scans fit. -/
  init_iff : ∀ stores : κ → Store, (∀ key, (stores key).Reachable (schemas key)) →
    ((step stores (.move .init) now).1 = .ok () ↔ .init ∉ done ∧ Fitting schemas layers)
  /-- Once initialized, they can be put on a row unless a batch lies beyond it. -/
  seek_iff : ∀ stores : κ → Store, (∀ key, (stores key).Reachable (schemas key)) → ∀ row,
    ((step stores (.move (.seek row)) now).1 = .ok () ↔
      .init ∈ done ∧ ∀ r, (Move.pace done).reached = some r → r ≤ row.toNat)
  /-- A batch can be prepared once they have been put on a row. -/
  prepare_iff : ∀ stores : κ → Store, (∀ key, (stores key).Reachable (schemas key)) → ∀ rows,
    ((step stores (.move (.prepare rows)) now).1 = .ok () ↔ ∃ row, .seek row ∈ done)
  /-- A column can be written only if a batch has been prepared since the last seek. -/
  apply_batch : ∀ (stores : κ → Store) (column block arena : Nat),
    (step stores (.apply column block arena) now).1 = .ok () →
      ∃ rows, .prepare rows ∈ Move.sinceSeek done
  /-- A column can be written only if all the projections have it. -/
  apply_column : ∀ (stores : κ → Store) (column block arena : Nat),
    (step stores (.apply column block arena) now).1 = .ok () →
      ∀ a ∈ layers.singles, column < a.source.projection.size

/-- What a scan reads: the key of its store, and its projection. -/
def frame (a : At κ Scan) : κ × Schema := (a.key, a.source.projection)

/-- The single scans of layers are those of other layers at a later time, each of which has taken
these moves. -/
structure Together (layers : Layers (At κ Scan)) (done : List Move) (now : Layers (At κ Scan)) :
    Prop where
  /-- Each scan has taken the moves. -/
  follows : ∀ a ∈ now.singles, a.source.Follows done
  /-- The scans read what they have read before. -/
  frames : now.singles.map frame = layers.singles.map frame

variable {layers now : Layers (At κ Scan)} {done : List Move} {past : Calls κ}
  {stores : κ → Store} {r : Reading (Layers (At κ Scan))} {a : At κ Scan}

/-- What one of the scans reads at one time, one of them reads at the other. -/
theorem exists_frame (h : now.singles.map frame = layers.singles.map frame)
    (ha : a ∈ now.singles) :
    ∃ b ∈ layers.singles, b.key = a.key ∧ b.source.projection = a.source.projection := by
  have hframe : frame a ∈ layers.singles.map frame := h ▸ List.mem_map_of_mem ha
  obtain ⟨b, hb, hba⟩ := List.mem_map.1 hframe
  exact ⟨b, hb, Prod.mk.inj hba⟩

/-- A move does not change what a scan reads. -/
theorem frame_move (hstore : (stores a.key).Reachable (schemas a.key)) (m : Move) :
    frame (DeltaSource.move stores m a).state = frame a := by
  rw [At.move_eq]
  refine Prod.ext rfl ?_
  show (DeltaSource.move (stores a.key) m a.source).state.projection = a.source.projection
  rw [Scan.move_state]
  exact (Scan.step_effect hstore.holds.schema_eq (Scan.opOf m)).frame.1

/-- Each of the scans that were there at first is there later, after the moves. -/
theorem Together.exists_follows (h : Together layers done now) {b : At κ Scan}
    (hb : b ∈ layers.singles) :
    ∃ a ∈ now.singles, a.source.Follows done ∧ a.source.projection = b.source.projection := by
  obtain ⟨a, ha, -, hprojection⟩ := exists_frame h.frames.symm hb
  exact ⟨a, ha, h.follows a ha, hprojection⟩

/-- Scans that fit their stores take the moves that are due, and no other ones. -/
theorem Together.takes_iff (h : Together layers done now) (hfits : Fitting schemas layers)
    (ha : a ∈ now.singles) (hstore : (stores a.key).Reachable (schemas a.key)) (m : Move) :
    (DeltaSource.move (stores a.key) m a.source).result = .ok () ↔ m.Due done := by
  obtain ⟨b, hb, hkey, hprojection⟩ := exists_frame h.frames ha
  refine (h.follows a ha).move_iff hstore.holds ?_ m
  rw [← hkey, ← hprojection]
  exact hfits b hb

/-- Scans that fit their stores take the next move together if it is due. -/
theorem Together.move_due (h : Together layers done now) (hfits : Fitting schemas layers)
    (hstores : ∀ key, (stores key).Reachable (schemas key)) {m : Move} (hdue : m.Due done) :
    ∃ after, DeltaSource.move stores m now = .ok () after ∧ Together layers (done ++ [m]) after := by
  have htaken : ∀ a ∈ now.singles, (DeltaSource.move stores m a).result = .ok () := by
    intro a ha
    rw [At.move_eq]
    exact (h.takes_iff hfits ha (hstores a.key) m).2 hdue
  obtain ⟨after, hmove, hsingles⟩ := Layers.forAll_taken htaken
  rw [Layers.move_eq]
  refine ⟨after, hmove, ?_, ?_⟩
  · rw [hsingles]
    intro b hb
    obtain ⟨a, ha, rfl⟩ := List.mem_map.1 hb
    have hok := (h.takes_iff hfits ha (hstores a.key) m).2 hdue
    rw [At.move_eq]
    exact (h.follows a ha).move (hstores a.key).holds hok
  · rw [hsingles, List.map_map, ← h.frames]
    exact List.map_congr_left fun a _ => frame_move (hstores a.key) m

/-- A move that is not due is refused by the first scan, and the other ones are not asked. -/
theorem Together.move_undue (h : Together layers done now) (hne : layers.singles ≠ [])
    (hfits : Fitting schemas layers) (hstores : ∀ key, (stores key).Reachable (schemas key))
    {m : Move} (hdue : ¬ m.Due done) :
    ∃ e after, DeltaSource.move stores m now = .fail e after ∧ Together layers done after := by
  obtain ⟨b, others, hb⟩ := List.exists_cons_of_ne_nil hne
  obtain ⟨a, ha, -⟩ := h.exists_follows (hb ▸ List.mem_cons_self)
  obtain ⟨first, rest, hsingles⟩ := List.exists_cons_of_ne_nil (List.ne_nil_of_mem ha)
  have hfirst : first ∈ now.singles := hsingles ▸ List.mem_cons_self
  obtain ⟨e, hrefused⟩ := At.move_refused (hstores first.key)
    (mt (h.takes_iff hfits hfirst (hstores first.key) m).1 hdue)
  obtain ⟨after, hmove, hkept⟩ := Layers.forAll_refused_first hsingles hrefused
  rw [Layers.move_eq]
  refine ⟨e, after, hmove, ?_, ?_⟩
  · rw [hkept]
    exact h.follows
  · rw [hkept]
    exact h.frames

/-- Writing a column leaves the scans as they were. -/
theorem singles_apply (stores : κ → Store) (column block arena : Nat)
    (r : Reading (Layers (At κ Scan))) :
    (step stores (.apply column block arena) r).2.source.singles = r.source.singles :=
  Layers.walk_kept (fun _ _ => rfl) r.source (r.target block arena)

/-- If layers write a column, each scan in them does. -/
theorem exists_apply_ok {column block arena : Nat}
    (h : (step stores (.apply column block arena) r).1 = .ok ()) (ha : a ∈ r.source.singles) :
    ∃ target, (a.source.apply column target).result = .ok () := by
  by_contra hnone
  have hrefused : ∀ target, ∃ e left, DeltaSource.apply column a target = .fail e (a, left) := by
    intro target
    cases hresult : (a.source.apply column target).result with
    | ok u => exact absurd ⟨target, hresult⟩ hnone
    | error e =>
      refine ⟨e, (a.source.apply column target).state, ?_⟩
      show Outcome.mk (a.source.apply column target).result _ = _
      rw [hresult]
      rfl
  obtain ⟨e, after, left, hwalk, -⟩ := Layers.walk_refused _ ha hrefused (r.target block arena)
  rw [step_apply hwalk] at h
  cases h

/-- The moves that have succeeded, with one more call. -/
theorem moved_snoc (past : Calls κ) (e : Event ((κ → Store) × Op) (Except Error Unit)) :
    moved (past ++ [e]) = moved past ++ (moved? e).toList := by
  unfold moved
  rw [List.filterMap_append]
  cases h : moved? e <;> simp [h]

/-- A move that succeeds is one more move. -/
theorem moved_snoc_ok {m : Move} {after : Layers (At κ Scan)}
    (h : DeltaSource.move stores m r.source = .ok () after) (past : Calls κ) :
    moved (past ++ [eventOf (fun call => step call.1 call.2) (stores, .move m) r]) =
      moved past ++ [m] := by
  rw [moved_snoc, eventOf]
  dsimp only
  rw [step_move h]
  rfl

/-- A call that is refused is no move. -/
theorem moved_snoc_refused {m : Move} {e : Error} {after : Layers (At κ Scan)}
    (h : DeltaSource.move stores m r.source = .fail e after) (past : Calls κ) :
    moved (past ++ [eventOf (fun call => step call.1 call.2) (stores, .move m) r]) =
      moved past := by
  rw [moved_snoc, eventOf]
  dsimp only
  rw [step_move h]
  exact List.append_nil _

/-- Writing a column is no move. -/
theorem moved_snoc_apply (stores : κ → Store) (column block arena : Nat)
    (r : Reading (Layers (At κ Scan))) (past : Calls κ) :
    moved (past ++ [eventOf (fun call => step call.1 call.2)
      (stores, .apply column block arena) r]) = moved past := by
  rw [moved_snoc]
  exact List.append_nil _

/-- Each call on scans that fit their stores keeps them together. -/
theorem Together.step (h : Together layers (moved past) r.source) (hne : layers.singles ≠ [])
    (hfits : Fitting schemas layers) (call : (κ → Store) × Op)
    (hstores : ∀ key, (call.1 key).Reachable (schemas key)) :
    Together layers (moved (past ++ [eventOf (fun call => Reading.step call.1 call.2) call r]))
      (Reading.step call.1 call.2 r).2.source := by
  obtain ⟨stores, op⟩ := call
  cases op with
  | move m =>
    by_cases hdue : m.Due (moved past)
    · obtain ⟨after, hmove, hafter⟩ := h.move_due hfits hstores hdue
      rw [moved_snoc_ok hmove]
      dsimp only
      rw [step_move hmove]
      exact hafter
    · obtain ⟨e, after, hmove, hafter⟩ := h.move_undue hne hfits hstores hdue
      rw [moved_snoc_refused hmove]
      dsimp only
      rw [step_move hmove]
      exact hafter
  | apply column block arena =>
    rw [moved_snoc_apply]
    have hkept := singles_apply stores column block arena r
    refine ⟨?_, ?_⟩
    · dsimp only
      rw [hkept]
      exact h.follows
    · dsimp only
      rw [hkept]
      exact h.frames

/-- Scans that fit their stores and are together take the moves that are due. -/
theorem Together.move_iff (h : Together layers done r.source) (hne : layers.singles ≠ [])
    (hfits : Fitting schemas layers) (hstores : ∀ key, (stores key).Reachable (schemas key))
    (m : Move) : (Reading.step stores (.move m) r).1 = .ok () ↔ m.Due done := by
  by_cases hdue : m.Due done
  · obtain ⟨after, hmove, -⟩ := h.move_due hfits hstores hdue
    rw [step_move hmove]
    exact iff_of_true rfl hdue
  · obtain ⟨e, after, hmove, -⟩ := h.move_undue hne hfits hstores hdue
    rw [step_move hmove]
    exact iff_of_false nofun hdue

/-- Scans that fit their stores and are together keep the order of calls. -/
theorem Together.keepsOrder (h : Together layers done r.source) (hne : layers.singles ≠ [])
    (hfits : Fitting schemas layers) : KeepsOrder schemas layers done r where
  init_iff stores hstores := by
    rw [h.move_iff hne hfits hstores, and_iff_left hfits]
    rfl
  seek_iff stores hstores row := h.move_iff hne hfits hstores (.seek row)
  prepare_iff stores hstores rows := h.move_iff hne hfits hstores (.prepare rows)
  apply_batch stores column block arena hok := by
    obtain ⟨b, rest, hsingles⟩ := List.exists_cons_of_ne_nil hne
    obtain ⟨a, ha, hfollows, -⟩ := h.exists_follows (hsingles ▸ List.mem_cons_self)
    obtain ⟨target, hwritten⟩ := exists_apply_ok hok ha
    obtain ⟨⟨rows, writes, hphase⟩, -⟩ := Scan.apply_eq_ok hwritten
    exact ⟨rows, hfollows.batch rows writes hphase⟩
  apply_column stores column block arena hok b hb := by
    obtain ⟨a, ha, -, hprojection⟩ := h.exists_follows hb
    obtain ⟨target, hwritten⟩ := exists_apply_ok hok ha
    rw [← hprojection]
    exact (Scan.apply_eq_ok hwritten).2

/-! ## A scan that does not fit -/

/-- One of the single scans is new and does not fit its store. -/
structure Blocked (schemas : κ → Schema) (a : At κ Scan) (now : Layers (At κ Scan)) : Prop where
  /-- The scan is one of them. -/
  mem : a ∈ now.singles
  /-- It has not been initialized. -/
  fresh : a.source.phase = .fresh
  /-- Its store lacks a column. -/
  unfit : ¬ a.source.projection.columns ⊆ (schemas a.key).columns

/-- Layers with a new scan that does not fit its store take no move, and the scan stays new. -/
theorem Blocked.move (h : Blocked schemas a now) (hstore : (stores a.key).Reachable (schemas a.key))
    (m : Move) :
    ∃ e after, DeltaSource.move stores m now = .fail e after ∧ Blocked schemas a after := by
  have hrefused : (DeltaSource.move (stores a.key) m a.source).result ≠ .ok () := by
    intro hok
    cases m with
    | init => exact h.unfit ((Scan.init_result hstore.holds.schema_eq).1 hok).2
    | seek row =>
      have hseek : (Scan.step (stores a.key) (.seek row) a.source).1.result = .ok () := hok
      exact (Scan.seek_result.1 hseek).1 h.fresh
    | prepare rows => exact ((Scan.prepare_result hstore.holds).1 hok).1 h.fresh
  obtain ⟨e, hfail⟩ := At.move_refused hstore hrefused
  obtain ⟨e', after, hmove, hmem⟩ := Layers.forAll_refused h.mem hfail
  rw [Layers.move_eq]
  exact ⟨e', after, hmove, hmem, h.fresh, h.unfit⟩

/-- Each call on layers with a new scan that does not fit its store leaves the scan as it is, and no
move succeeds. -/
theorem Blocked.step (h : Blocked schemas a r.source) (past : Calls κ) (call : (κ → Store) × Op)
    (hstores : ∀ key, (call.1 key).Reachable (schemas key)) :
    moved (past ++ [eventOf (fun call => Reading.step call.1 call.2) call r]) = moved past ∧
      Blocked schemas a (Reading.step call.1 call.2 r).2.source := by
  obtain ⟨stores, op⟩ := call
  cases op with
  | move m =>
    obtain ⟨e, after, hmove, hafter⟩ := h.move (hstores a.key) m
    refine ⟨moved_snoc_refused hmove past, ?_⟩
    dsimp only
    rw [step_move hmove]
    exact hafter
  | apply column block arena =>
    refine ⟨moved_snoc_apply .., ?_, h.fresh, h.unfit⟩
    dsimp only
    rw [singles_apply]
    exact h.mem

/-- Layers with a new scan that does not fit its store keep the order of calls: no call is due. -/
theorem Blocked.keepsOrder (h : Blocked schemas a r.source) (ha : a ∈ layers.singles) :
    KeepsOrder schemas layers [] r := by
  have hmove : ∀ stores : κ → Store, (∀ key, (stores key).Reachable (schemas key)) → ∀ m,
      (Reading.step stores (.move m) r).1 ≠ .ok () := by
    intro stores hstores m
    obtain ⟨e, after, hmove, -⟩ := h.move (hstores a.key) m
    rw [step_move hmove]
    exact nofun
  have happly : ∀ (stores : κ → Store) (column block arena : Nat),
      (Reading.step stores (.apply column block arena) r).1 ≠ .ok () := by
    intro stores column block arena hok
    obtain ⟨target, hwritten⟩ := exists_apply_ok hok h.mem
    obtain ⟨⟨rows, writes, hphase⟩, -⟩ := Scan.apply_eq_ok hwritten
    rw [h.fresh] at hphase
    cases hphase
  exact {
    init_iff := fun stores hstores =>
      iff_of_false (hmove stores hstores _) fun hdue => h.unfit (hdue.2 a ha)
    seek_iff := fun stores hstores row =>
      iff_of_false (hmove stores hstores _) fun hdue => List.not_mem_nil hdue.1
    prepare_iff := fun stores hstores rows =>
      iff_of_false (hmove stores hstores _) fun hdue => List.not_mem_nil hdue.choose_spec
    apply_batch := fun stores column block arena hok =>
      absurd hok (happly stores column block arena)
    apply_column := fun stores column block arena hok =>
      absurd hok (happly stores column block arena) }

/-! ## Layers with no scan in them -/

/-- Layers without a scan take any call and remain without one. -/
theorem step_empty (hempty : r.source.singles = []) (stores : κ → Store) (op : Op) :
    (step stores op r).1 = .ok () ∧ (step stores op r).2.source.singles = [] := by
  cases op with
  | move m =>
    obtain ⟨after, hwalk, hafter⟩ := Layers.walk_empty hempty
      (fun a () => (DeltaSource.move stores m a).mapState (·, ())) ()
    have hmove : DeltaSource.move stores m r.source = .ok () after :=
      (Layers.move_eq stores m r.source).trans (Layers.forAll_of_walk hwalk)
    rw [step_move hmove]
    exact ⟨rfl, hafter⟩
  | apply column block arena =>
    obtain ⟨after, hwalk, hafter⟩ :=
      Layers.walk_empty hempty (DeltaSource.apply column) (r.target block arena)
    rw [step_apply hwalk]
    exact ⟨rfl, hafter⟩

/-! ## Runs -/

/-- New scans have taken no moves. -/
theorem together_built (hbuilt : layers.Built) : Together layers [] layers := by
  refine ⟨fun a ha => ?_, rfl⟩
  obtain ⟨projection, snapshot, hsource⟩ := hbuilt.start_of_mem a ha
  rw [hsource]
  exact Scan.follows_start projection snapshot

/-- Scans that fit their stores stay together. -/
theorem together_of_run (hbuilt : layers.Built) (hne : layers.singles ≠ [])
    (hfits : Fitting schemas layers) {blocks : Nat → Block} {arenas : Nat → Arena}
    (hrun : Run (fun call => step call.1 call.2) ⟨layers, blocks, arenas⟩ past r)
    (hstores : ∀ e ∈ past, ∀ key, (e.call.1 key).Reachable (schemas key)) :
    Together layers (moved past) r.source := by
  refine hrun.invariant_of_forall
    (fun past (r : Reading (Layers (At κ Scan))) => Together layers (moved past) r.source) ?_
    (together_built hbuilt) hstores
  intro past r call h hcall
  exact h.step hne hfits call hcall

/-- With a new scan that does not fit its store, no move ever succeeds. -/
theorem blocked_of_run (h : Blocked schemas a layers) {blocks : Nat → Block}
    {arenas : Nat → Arena}
    (hrun : Run (fun call => step call.1 call.2) ⟨layers, blocks, arenas⟩ past r)
    (hstores : ∀ e ∈ past, ∀ key, (e.call.1 key).Reachable (schemas key)) :
    moved past = [] ∧ Blocked schemas a r.source := by
  refine hrun.invariant_of_forall
    (fun past (r : Reading (Layers (At κ Scan))) => moved past = [] ∧ Blocked schemas a r.source) ?_
    ⟨rfl, h⟩ hstores
  rintro past r call ⟨hmoved, hblocked⟩ hcall
  obtain ⟨hstep, hafter⟩ := hblocked.step past call hcall
  exact ⟨hstep.trans hmoved, hafter⟩

/-- **Layers keep the order of calls, unless there is nothing in them.** Take layers that were built
of new scans, each of any store, projection and snapshot, in stacks of any depth and length. For any
calls on them, on any stores that can be reached, the calls so far decide about the next one as they
do for a single scan. Only layers with no scan in them at all take every call. -/
theorem layers_keep_order (hbuilt : layers.Built) {blocks : Nat → Block} {arenas : Nat → Arena}
    (hrun : Run (fun call => step call.1 call.2) ⟨layers, blocks, arenas⟩ past r)
    (hstores : ∀ e ∈ past, ∀ key, (e.call.1 key).Reachable (schemas key)) :
    (layers.singles ≠ [] → KeepsOrder schemas layers (moved past) r) ∧
      (layers.singles = [] → ∀ (stores : κ → Store) op, (step stores op r).1 = .ok ()) := by
  refine ⟨fun hne => ?_, fun hempty stores op => ?_⟩
  · by_cases hfits : Fitting schemas layers
    · exact (together_of_run hbuilt hne hfits hrun hstores).keepsOrder hne hfits
    · -- One scan that does not fit is enough to hold up every move.
      obtain ⟨a, ha, hunfit⟩ : ∃ a ∈ layers.singles,
          ¬ a.source.projection.columns ⊆ (schemas a.key).columns := by
        unfold Fitting at hfits
        simpa only [not_forall, exists_prop] using hfits
      have hfresh : a.source.phase = .fresh := by
        obtain ⟨projection, snapshot, hsource⟩ := hbuilt.start_of_mem a ha
        rw [hsource]
        rfl
      obtain ⟨hmoved, hblocked⟩ := blocked_of_run ⟨ha, hfresh, hunfit⟩ hrun hstores
      rw [hmoved]
      exact hblocked.keepsOrder ha
  · have hlast : r.source.singles = [] :=
      hrun.preserves (fun r => r.source.singles = [])
        (fun _ call h => (step_empty h call.1 call.2).2) hempty
    exact (step_empty hlast stores op).1

/-- Scans of two stores, with stacks of nothing and of one source among the layers. -/
def nestedLayers : Layers (At Bool Scan) :=
  .ofList [.stack [.ofList [.single ⟨true, .start .numbers .includingAll⟩], .stack []],
    .single ⟨false, .start .numbers .includingNone⟩]

/-- Two stores, of which one has an entry. -/
def nestedStores : Bool → Store
  | true => Scan.hopStore
  | false => Scan.bareStore .numbers

/-- The layers are called on too early, initialized twice, and hop ahead behind a batch. -/
def nestedCalls : List ((Bool → Store) × Op) :=
  [.move (.seek 0), .move .init, .move .init, .move (.prepare 6), .move (.seek 0), .apply 0 0 0,
    .move (.prepare 6), .move (.seek 7)].map (nestedStores, ·)

/-- The layers after these calls, in the hands of their caller. -/
def nestedRun : Calls Bool × Reading (Layers (At Bool Scan)) :=
  execute (fun call => step call.1 call.2) nestedCalls
    ⟨nestedLayers, fun _ => .blank .uint32 6, fun _ => default⟩

/-- After the hop the layers can be put on any row from the end of the batch on, and prepare the
next batch, but neither are they initialized again nor do they write any column. -/
theorem layers_keep_order_nested :
    moved nestedRun.1 = [.init, .seek 0, .prepare 6, .seek 7] ∧
      (step nestedStores (.move .init) nestedRun.2).1 ≠ .ok () ∧
      (step nestedStores (.move (.seek 5)) nestedRun.2).1 ≠ .ok () ∧
      (step nestedStores (.move (.seek 6)) nestedRun.2).1 = .ok () ∧
      (step nestedStores (.move (.prepare 6)) nestedRun.2).1 = .ok () ∧
      ∀ column block arena,
        (step nestedStores (.apply column block arena) nestedRun.2).1 ≠ .ok () := by
  have hreach : ∀ key, (nestedStores key).Reachable .numbers := by
    rw [Bool.forall_bool]
    exact ⟨⟨{}, [], .nil _⟩, ⟨{}, _, .of_execute _ _⟩⟩
  have hstores : ∀ e ∈ nestedRun.1, ∀ key, (e.call.1 key).Reachable .numbers := by
    intro e he
    have hcall : e.call ∈ nestedCalls := by
      rw [← Run.calls_execute nestedCalls _]
      exact List.mem_map_of_mem he
    obtain ⟨op, -, hop⟩ := List.mem_map.1 hcall
    rw [← hop]
    exact hreach
  have hbuilt : nestedLayers.Built := by
    have hsingle : ∀ (key : Bool) (snapshot : Snapshot),
        Layers.Built (.single ⟨key, .start .numbers snapshot⟩) :=
      fun key snapshot => .single key .numbers snapshot
    refine .ofList (List.forall_mem_cons.2 ⟨?_, List.forall_mem_singleton.2 (hsingle false _)⟩)
    refine .stack (List.forall_mem_cons.2 ⟨?_, List.forall_mem_singleton.2 Layers.built_nothing⟩)
    exact .ofList (List.forall_mem_singleton.2 (hsingle true _))
  have hsingles : nestedLayers.singles ≠ [] := List.cons_ne_nil _ _
  have hmoved : moved nestedRun.1 = [.init, .seek 0, .prepare 6, .seek 7] := by decide +kernel
  have hrun : Run (fun call => step call.1 call.2)
      ⟨nestedLayers, fun _ => .blank .uint32 6, fun _ => default⟩ nestedRun.1 nestedRun.2 :=
    .of_execute nestedCalls _
  have horder := (layers_keep_order hbuilt hrun hstores).1 hsingles
  rw [hmoved] at horder
  have hreached : (Move.pace [.init, .seek 0, .prepare 6, .seek 7]).reached = some 6 := by decide
  refine ⟨hmoved, fun hok => ?_, fun hok => ?_, ?_, ?_, fun column block arena hok => ?_⟩
  · exact ((horder.init_iff nestedStores hreach).1 hok).1 List.mem_cons_self
  · exact absurd (((horder.seek_iff nestedStores hreach 5).1 hok).2 6 hreached) (by decide)
  · refine (horder.seek_iff nestedStores hreach 6).2 ⟨List.mem_cons_self, fun n hn => ?_⟩
    rw [hreached] at hn
    cases hn
    decide
  · exact (horder.prepare_iff nestedStores hreach 6).2 ⟨0, by decide⟩
  · obtain ⟨rows, hrows⟩ := horder.apply_batch nestedStores column block arena hok
    exact List.not_mem_nil hrows

/-- A stack of nothing, in the hands of a caller. -/
def nothing : Reading (Layers (At Bool Scan)) :=
  ⟨.stack [], fun _ => .blank .uint32 1, fun _ => default⟩

/-- A column is written, and the source is initialized twice. -/
def nothingCalls : List ((Bool → Store) × Op) :=
  [.apply 3 0 0, .move .init, .move .init].map (nestedStores, ·)

/-- A stack of nothing does not keep the order of calls: it writes a column that it does not have,
before any batch, and can be initialized twice. -/
theorem nothing_out_of_order :
    nothing.source.Built ∧
      (execute (fun call => step call.1 call.2) nothingCalls nothing).1.map Event.answer =
        [.ok (), .ok (), .ok ()] :=
  ⟨Layers.built_nothing, by decide +kernel⟩

end Reading

end TabletDelta
