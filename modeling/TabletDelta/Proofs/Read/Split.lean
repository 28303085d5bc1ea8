import Mathlib.Data.List.Sort
import TabletDelta.Proofs.Read.Outline

/-!
# A history split over several stores

Updates to the same rows may be spread over several stores, as long as in each row all transactions
of an earlier store come before those of a later one (`Store.SplitInto`). Layered scans of these
stores write source by source, and a scan of a single store with all the entries writes row by row;
but slot by slot the last write is the same, since later layers hold the later transactions
(`walkAll_apply`). All scans stay in lock step with the single one, so no caller can tell the two
apart (`split_reads_alike`).
-/

namespace TabletDelta

/-- The entries of a store are those of several stores together, where in each row the transactions
of an earlier store come before those of a later one. -/
structure Store.SplitInto {k : Nat} (union : Store) (stores : Fin k → Store) : Prop where
  /-- The entries are those of the stores. -/
  mem_entries : ∀ e, e ∈ union.entries ↔ ∃ i, e ∈ (stores i).entries
  /-- In each row, transactions get later from store to store. -/
  later : ∀ i j, i < j → ∀ e ∈ (stores i).entries, ∀ f ∈ (stores j).entries,
    e.key.row = f.key.row → e.key.txid < f.key.txid

namespace Layers

variable {κ : Type}

/-- New scans of the stores that the keys name, layered in the order of the keys. -/
def newScans (keys : List κ) (projection : Schema) (snapshot : Snapshot) : Layers (At κ Scan) :=
  .stack (keys.map fun key => .single ⟨key, .start projection snapshot⟩)

/-- All entries of the stores that sources read. -/
def entriesOf (contents : κ → Store) (sources : List (At κ Scan)) : List Entry :=
  sources.flatMap fun a => (contents a.key).entries

/-- The sources are scans of one outline, and each shows the entries of its store. -/
def Show (schema : Schema) (contents : κ → Store) (snapshot : Snapshot) (start : Nat)
    (outline : Scan) (sources : List (At κ Scan)) : Prop :=
  ∀ a ∈ sources, Scan.Shows schema (contents a.key).entries snapshot start outline a.source

variable {schema : Schema} {contents : κ → Store} {snapshot : Snapshot} {start : Nat}
  {outline : Scan} {sources : List (At κ Scan)}

/-- Scans of one outline that read stores without a fault move together, as their outline does. -/
theorem move_stack (hstores : ∀ key, (contents key).Holds schema (contents key).entries)
    (hne : sources ≠ []) (houtline : ∀ a ∈ sources, a.source.outline = outline) (m : Move) :
    DeltaSource.move contents m (Layers.stack (sources.map .single)) =
      ⟨(DeltaSource.move (Scan.bareStore schema) m outline).result,
        .stack (sources.map fun a => .single (DeltaSource.move contents m a).state)⟩ := by
  have hmove : ∀ a ∈ sources, (DeltaSource.move contents m a).result =
      (DeltaSource.move (Scan.bareStore schema) m outline).result := by
    intro a ha
    rw [At.move_eq, ← houtline a ha, Scan.move_outline (hstores a.key)]
    rfl
  rw [move_eq]
  cases hresult : (DeltaSource.move (Scan.bareStore schema) m outline).result with
  | ok u => exact forAll_stack_ok fun a ha => (hmove a ha).trans hresult
  | error e =>
    -- The first scan refuses the move, and all the scans would stay as they are.
    have hrefused : ∀ a ∈ sources, DeltaSource.move contents m a = .fail e a := by
      intro a ha
      have hscan := (hmove a ha).trans hresult
      rw [At.move_eq] at hscan ⊢
      rw [Scan.move_refused (hstores a.key) hscan]
      rfl
    obtain ⟨a, rest, rfl⟩ := List.exists_cons_of_ne_nil hne
    rw [forAll_stack_error (hrefused a List.mem_cons_self)]
    show Outcome.fail e _ = Outcome.fail e _
    congr 2
    refine List.map_congr_left fun b hb => ?_
    rw [hrefused b hb]
    rfl

/-- Scans that show their stores move together, as their outline does. -/
theorem move_all (hstores : ∀ key, (contents key).Holds schema (contents key).entries)
    (hne : sources ≠ []) (hshow : Show schema contents snapshot start outline sources) (m : Move) :
    ∃ after, after.map At.key = sources.map At.key ∧
      Show schema contents snapshot (Scan.startAfter m outline start)
        (DeltaSource.move (Scan.bareStore schema) m outline).state after ∧
      DeltaSource.move contents m (Layers.stack (sources.map .single)) =
        ⟨(DeltaSource.move (Scan.bareStore schema) m outline).result,
          .stack (after.map .single)⟩ := by
  refine ⟨sources.map fun a => (DeltaSource.move contents m a).state, ?keys, ?shows, ?moved⟩
  case keys =>
    rw [List.map_map]
    refine List.map_congr_left fun a _ => ?_
    rw [Function.comp_apply, At.move_eq]
    rfl
  case shows =>
    intro b hb
    obtain ⟨a, ha, rfl⟩ := List.mem_map.1 hb
    rw [At.move_eq]
    exact ((hshow a ha).move (hstores a.key) m).2
  case moved =>
    rw [move_stack hstores hne (fun a ha => (hshow a ha).outline_eq) m, List.map_map]
    rfl

/-- Scans that show their stores, the later layers with the later transactions, together write what
all their entries have for the slots of a batch. -/
theorem walkAll_apply (hshow : Show schema contents snapshot start outline sources)
    (hkeys : ∀ e ∈ entriesOf contents sources, ∀ f ∈ entriesOf contents sources,
      e.key = f.key → e = f)
    (hlater : sources.Pairwise fun a b => ∀ e ∈ (contents a.key).entries,
      ∀ f ∈ (contents b.key).entries, e.key.row = f.key.row → e.key.txid < f.key.txid)
    {column : Nat} {target : Target} (hlimit : target.arena.config.limit = none)
    (hok : (outline.apply column target).result = .ok ()) :
    ∃ after : Target, after.arena.config.limit = none ∧
      target.block.Overwritten after.block
        (Scan.batchCell schema (entriesOf contents sources) snapshot start outline column) ∧
      walkAll (DeltaSource.apply column) (sources.map .single) target =
        .ok () (sources.map .single, after) := by
  induction sources generalizing target with
  | nil =>
    refine ⟨target, hlimit, (Block.Overwritten.refl target.block).congr fun slot _ => ?_, rfl⟩
    unfold Scan.batchCell
    cases schema.source? outline.projection column with
    | none => rfl
    | some source => simp [entriesOf, latest, newest, candidates]
  | cons a sources ih =>
    obtain ⟨hhead, htail⟩ := List.forall_mem_cons.1 hshow
    obtain ⟨hlaterHead, hlaterTail⟩ := List.pairwise_cons.1 hlater
    have hentries : entriesOf contents (a :: sources) =
        (contents a.key).entries ++ entriesOf contents sources := List.flatMap_cons ..
    rw [hentries] at hkeys ⊢
    obtain ⟨-, left, hleft, hover, happly⟩ :=
      (hhead.writesAs.at column target hlimit).resolve_left (by
        rintro ⟨e, herror, -⟩
        rw [hok] at herror
        cases herror)
    -- The next scan is given a block of the same shape, so it passes the same checks.
    have hok' : (outline.apply column left).result = .ok () := by
      rw [← hhead.outline_eq, ← Scan.apply_outline_congr a.source column hover.type_eq.symm
        hover.rows_eq.symm, hhead.outline_eq, hok]
    obtain ⟨after, hafter, hrest, hwalk⟩ := ih htail
      (fun e he f hf => hkeys e (List.mem_append_right _ he) f (List.mem_append_right _ hf))
      hlaterTail hleft hok'
    refine ⟨after, hafter, (hover.trans hrest).congr fun slot _ => ?_, ?_⟩
    · refine (Scan.batchCell_append hkeys ?_ column slot).symm
      intro e he f hf
      obtain ⟨b, hb, hf⟩ := List.mem_flatMap.1 hf
      exact hlaterHead b hb e he f hf
    · rw [List.map_cons, walkAll_cons_ok happly, hwalk]
      rfl

/-- The stack of such scans writes what all their entries have for the slots of a batch. -/
theorem stack_writesAs (hne : sources ≠ [])
    (hshow : Show schema contents snapshot start outline sources)
    (hkeys : ∀ e ∈ entriesOf contents sources, ∀ f ∈ entriesOf contents sources,
      e.key = f.key → e = f)
    (hlater : sources.Pairwise fun a b => ∀ e ∈ (contents a.key).entries,
      ∀ f ∈ (contents b.key).entries, e.key.row = f.key.row → e.key.txid < f.key.txid) :
    Scan.WritesAs outline
      (Scan.batchCell schema (entriesOf contents sources) snapshot start outline)
      (Layers.stack (sources.map .single)) := by
  intro column target hlimit
  rw [apply_stack]
  obtain ⟨a, rest, rfl⟩ := List.exists_cons_of_ne_nil hne
  rcases (hshow a List.mem_cons_self).writesAs.at column target hlimit with
    ⟨e, herror, hfail⟩ | ⟨hok, -⟩
  · -- What one scan refuses all of them refuse, so the first one does.
    refine .inl ⟨e, herror, ?_⟩
    rw [List.map_cons, walkAll_cons_error hfail]
    rfl
  · obtain ⟨after, hafter, hover, hwalk⟩ := walkAll_apply hshow hkeys hlater hlimit hok
    refine .inr ⟨hok, after, hafter, hover, ?_⟩
    rw [hwalk]
    rfl

end Layers

namespace Reading

variable {σ τ ε ε' : Type} [DeltaSource σ ε] [DeltaSource τ ε']

/-- Two callers hold the same blocks, and arenas without a limit. -/
structure Alike (r : Reading σ) (r' : Reading τ) : Prop where
  /-- The blocks are the same. -/
  blocks_eq : r.blocks = r'.blocks
  /-- No arena of the first one has a limit. -/
  limit_eq : ∀ i, (r.arenas i).config.limit = none
  /-- No arena of the second one has a limit. -/
  limit_eq' : ∀ i, (r'.arenas i).config.limit = none

/-- An arena without a limit may take the place of one of several that have none. -/
theorem limit_update {arenas : Nat → Arena} {arena : Nat} {a : Arena}
    (h : ∀ i, (arenas i).config.limit = none) (ha : a.config.limit = none) (i : Nat) :
    (Function.update arenas arena a i).config.limit = none := by
  rw [Function.update_apply]
  split
  · exact ha
  · exact h i

/-- Sources that write alike answer alike when a column is written, and their callers go on holding
the same blocks. -/
theorem Alike.apply {r : Reading σ} {r' : Reading τ} (h : r.Alike r') {s : Scan}
    {cells : Nat → Nat → Option Cell} (hwrites : Scan.WritesAs s.outline cells r.source)
    (hwrites' : Scan.WritesAs s.outline cells r'.source) (contents : ε) (contents' : ε')
    (column block arena : Nat) :
    (step contents (.apply column block arena) r).1 =
        (step contents' (.apply column block arena) r').1 ∧
      (step contents (.apply column block arena) r).2.source = r.source ∧
      (step contents' (.apply column block arena) r').2.source = r'.source ∧
      (step contents (.apply column block arena) r).2.Alike
        (step contents' (.apply column block arena) r').2 := by
  obtain ⟨hblocks, hlimit, hlimit'⟩ := h
  have hblock : (r.target block arena).block = (r'.target block arena).block :=
    congrFun hblocks block
  have hcheck : (s.outline.apply column (r.target block arena)).result =
      (s.outline.apply column (r'.target block arena)).result :=
    s.apply_outline_congr column (congrArg Block.type hblock) (congrArg Block.rows hblock)
  rcases hwrites column (r.target block arena) (hlimit arena) with
    ⟨e, herror, hfail⟩ | ⟨hok, after, hafter, hover, hwritten⟩
  · rcases hwrites' column (r'.target block arena) (hlimit' arena) with
      ⟨e', herror', hfail'⟩ | ⟨hok', -⟩
    · -- Both refuse, for the same reason, and put back what they were given.
      obtain rfl : e = e' := Except.error.inj (herror.symm.trans (hcheck.trans herror'))
      rw [step_apply_refused hfail, step_apply_refused hfail']
      exact ⟨rfl, rfl, rfl, hblocks, hlimit, hlimit'⟩
    · rw [← hcheck, herror] at hok'
      cases hok'
  · rcases hwrites' column (r'.target block arena) (hlimit' arena) with
      ⟨e', herror', -⟩ | ⟨-, after', hafter', hover', hwritten'⟩
    · rw [← hcheck, hok] at herror'
      cases herror'
    · -- Both write, and the same cells to the same block.
      have hsame : after.block = after'.block := by
        rw [hblock] at hover
        exact hover.unique hover'
      rw [step_apply hwritten, step_apply hwritten']
      refine ⟨rfl, rfl, rfl, ?_, limit_update hlimit hafter, limit_update hlimit' hafter'⟩
      exact congrArg₂ (fun blocks b => Function.update blocks block b) hblocks hsame

variable {k : Nat} {schema : Schema} {stores : Fin k → Store} {union : Store} {snapshot : Snapshot}

/-- Layered scans of several stores are in step with a scan of one store: each of them shows the
entries of its store in the outline of that scan, which shows its own, and the callers hold the same
blocks. -/
structure InStep (schema : Schema) (stores : Fin k → Store) (union : Store) (snapshot : Snapshot)
    (layered : Reading (Layers (At (Fin k) Scan))) (single : Reading Scan) : Prop where
  /-- All scans show their stores in one outline. -/
  scans : ∃ start sources, layered.source = .stack (sources.map .single) ∧
    sources.map At.key = List.finRange k ∧
    Layers.Show schema stores snapshot start single.source.outline sources ∧
    Scan.Shows schema union.entries snapshot start single.source.outline single.source
  /-- The callers hold the same blocks. -/
  alike : layered.Alike single

/-- New scans are in step. -/
theorem inStep_new (projection : Schema) (snapshot : Snapshot) (blocks : Nat → Block)
    {arenas : Nat → Arena} (hlimit : ∀ i, (arenas i).config.limit = none) :
    InStep schema stores union snapshot
      ⟨Layers.newScans (List.finRange k) projection snapshot, blocks, arenas⟩
      ⟨.start projection snapshot, blocks, arenas⟩ := by
  refine ⟨⟨0, (List.finRange k).map fun i => ⟨i, .start projection snapshot⟩, ?_, ?_, ?_, ?_⟩,
    rfl, hlimit, hlimit⟩
  · unfold Layers.newScans
    rw [List.map_map]
    rfl
  · rw [List.map_map]
    exact List.map_id _
  · intro a ha
    obtain ⟨i, -, rfl⟩ := List.mem_map.1 ha
    exact Scan.shows_start projection snapshot _
  · exact Scan.shows_start projection snapshot _

/-- The entries that layered scans of all stores read are those of the one store. -/
theorem mem_entriesOf_iff (hsplit : union.SplitInto stores) {sources : List (At (Fin k) Scan)}
    (hkeys : sources.map At.key = List.finRange k) (e : Entry) :
    e ∈ Layers.entriesOf stores sources ↔ e ∈ union.entries := by
  unfold Layers.entriesOf
  rw [hsplit.mem_entries, List.mem_flatMap]
  constructor
  · rintro ⟨a, -, he⟩
    exact ⟨a.key, he⟩
  · rintro ⟨i, he⟩
    have hi : i ∈ sources.map At.key := by
      rw [hkeys]
      exact List.mem_finRange i
    obtain ⟨a, ha, rfl⟩ := List.mem_map.1 hi
    exact ⟨a, ha, he⟩

/-- If there is a store, there is a source that reads it. -/
theorem sources_ne_nil (hk : 0 < k) {sources : List (At (Fin k) Scan)}
    (hkeys : sources.map At.key = List.finRange k) : sources ≠ [] := by
  rintro rfl
  have hlength := congrArg List.length hkeys
  rw [List.length_finRange] at hlength
  exact absurd hlength (Nat.ne_of_lt hk)

/-- Layered scans of all stores that show them write what the one store has for the slots of a
batch. -/
theorem layered_writesAs (hk : 0 < k) (hunion : union.Reachable schema)
    (hsplit : union.SplitInto stores) {sources : List (At (Fin k) Scan)} {start : Nat}
    {outline : Scan} (hkeys : sources.map At.key = List.finRange k)
    (hshow : Layers.Show schema stores snapshot start outline sources) :
    Scan.WritesAs outline (Scan.batchCell schema union.entries snapshot start outline)
      (Layers.stack (sources.map .single)) := by
  have hmem := mem_entriesOf_iff hsplit hkeys
  have hkey : ∀ e ∈ Layers.entriesOf stores sources, ∀ f ∈ Layers.entriesOf stores sources,
      e.key = f.key → e = f :=
    fun e he f hf => hunion.holds.eq_of_key e ((hmem e).1 he) f ((hmem f).1 hf)
  have hlater : sources.Pairwise fun a b => ∀ e ∈ (stores a.key).entries,
      ∀ f ∈ (stores b.key).entries, e.key.row = f.key.row → e.key.txid < f.key.txid := by
    have hsorted : (sources.map At.key).Pairwise (· < ·) := by
      rw [hkeys]
      exact (List.sortedLT_finRange k).pairwise
    exact (List.pairwise_map.1 hsorted).imp fun hlt => hsplit.later _ _ hlt
  have hwrites := Layers.stack_writesAs (sources_ne_nil hk hkeys) hshow hkey hlater
  -- The entries are the same, whatever their order.
  have hcells : Scan.batchCell schema (Layers.entriesOf stores sources) snapshot start outline =
      Scan.batchCell schema union.entries snapshot start outline :=
    funext fun column => funext fun slot => Scan.batchCell_congr hkey hmem column slot
  rwa [hcells] at hwrites

/-- Each call is answered alike and keeps the scans in step. -/
theorem InStep.step (hk : 0 < k) (hstores : ∀ i, (stores i).Reachable schema)
    (hunion : union.Reachable schema) (hsplit : union.SplitInto stores) (op : Op)
    {layered : Reading (Layers (At (Fin k) Scan))} {single : Reading Scan}
    (h : InStep schema stores union snapshot layered single) :
    (Reading.step stores op layered).1 = (Reading.step union op single).1 ∧
      InStep schema stores union snapshot (Reading.step stores op layered).2
        (Reading.step union op single).2 := by
  obtain ⟨⟨start, sources, hsource, hkeys, hshow, hsingle⟩, halike⟩ := h
  cases op with
  | move m =>
    obtain ⟨after, hafter, hshow', hmoved⟩ :=
      Layers.move_all (fun i => (hstores i).holds) (sources_ne_nil hk hkeys) hshow m
    obtain ⟨hresult, hsingle'⟩ := hsingle.move hunion.holds m
    have houtline := hsingle'.outline_eq
    rw [← hsource] at hmoved
    rw [step_move hmoved, step_move rfl]
    refine ⟨hresult.symm, ⟨Scan.startAfter m single.source.outline start, after, rfl,
      hafter.trans hkeys, ?_, ?_⟩, halike.blocks_eq, halike.limit_eq, halike.limit_eq'⟩
    · rw [houtline]
      exact hshow'
    · rw [houtline]
      exact hsingle'
  | apply column block arena =>
    have hwrites := layered_writesAs hk hunion hsplit hkeys hshow
    rw [← hsource] at hwrites
    obtain ⟨hanswer, hlayered, hscan, hafter⟩ :=
      halike.apply hwrites hsingle.writesAs stores union column block arena
    refine ⟨hanswer, ⟨start, sources, hlayered.trans hsource, hkeys, ?_, ?_⟩, hafter⟩
    · rw [hscan]
      exact hshow
    · rw [hscan]
      exact hsingle

/-- **Splitting a history does not change reads.** Take several stores of one schema, at least one,
whose entries in each row come from later and later transactions, and one store with all their
entries. Layered scans of the stores and a scan of the one store, new ones of any projection and any
snapshot, answer every call alike and leave all blocks alike, whatever calls are made on both in the
hands of callers with the same blocks and with arenas that have no limit. -/
theorem split_reads_alike (hk : 0 < k) (hstores : ∀ i, (stores i).Reachable schema)
    (hunion : union.Reachable schema) (hsplit : union.SplitInto stores) (projection : Schema)
    (snapshot : Snapshot) (blocks : Nat → Block) {arenas : Nat → Arena}
    (hlimit : ∀ i, (arenas i).config.limit = none) (ops : List Op) :
    let layered := execute (step stores) ops
      ⟨Layers.newScans (List.finRange k) projection snapshot, blocks, arenas⟩
    let single := execute (step union) ops ⟨Scan.start projection snapshot, blocks, arenas⟩
    layered.1 = single.1 ∧ layered.2.blocks = single.2.blocks := by
  obtain ⟨hevents, hlast⟩ := execute_congr (InStep schema stores union snapshot)
    (fun op _ _ h => h.step hk hstores hunion hsplit op) ops
    (inStep_new projection snapshot blocks hlimit)
  exact ⟨hevents, hlast.alike.blocks_eq⟩

/-- The numbers that transactions 2 and 1 have given to two rows. -/
def olderUpdates : List Entry :=
  [⟨⟨5, 2⟩, [0, 0, 0, 0, 3, 0, 0, 0]⟩, ⟨⟨6, 1⟩, [0, 0, 0, 0, 4, 0, 0, 0]⟩]

/-- Transaction 3 has changed the first one. -/
def newerUpdates : List Entry := [⟨⟨5, 3⟩, [0, 0, 0, 0, 9, 0, 0, 0]⟩]

/-- A store after some updates. -/
def storeAfter (updates : List Entry) : Store :=
  (execute Store.step updates (.empty .numbers {})).2

/-- The older updates in one store and the newer one in another. -/
def twoStores : Fin 2 → Store
  | 0 => storeAfter olderUpdates
  | 1 => storeAfter newerUpdates

/-- A store after updates can be reached. -/
theorem reachable_storeAfter (updates : List Entry) :
    (storeAfter updates).Reachable .numbers :=
  ⟨{}, _, .of_execute updates _⟩

/-- The two stores split the history of a store with all the updates. -/
theorem splitInto_twoStores :
    (storeAfter (newerUpdates ++ olderUpdates)).SplitInto twoStores := by
  have hunion : (storeAfter (newerUpdates ++ olderUpdates)).entries =
      [⟨⟨5, 2⟩, [0, 0, 0, 0, 3, 0, 0, 0]⟩, ⟨⟨5, 3⟩, [0, 0, 0, 0, 9, 0, 0, 0]⟩,
        ⟨⟨6, 1⟩, [0, 0, 0, 0, 4, 0, 0, 0]⟩] := by decide +kernel
  have holder : (twoStores 0).entries = olderUpdates := by decide +kernel
  have hnewer : (twoStores 1).entries = newerUpdates := by decide +kernel
  refine ⟨fun e => ?_, ?_⟩
  · rw [hunion, Fin.exists_fin_two, holder, hnewer]
    simp only [olderUpdates, newerUpdates, List.mem_cons, List.not_mem_nil, or_false]
    tauto
  · decide +kernel

/-- A batch of three rows is written to a block, after a call that is too early; the last three
calls are refused. -/
def splitCalls : List Op :=
  [.apply 0 0 0, .move .init, .move (.seek 5), .move (.prepare 3), .apply 0 0 0, .move .init,
    .move (.seek 7), .apply 1 0 0]

/-- The later number of the first row counts on both sides, although the layers write it in another
order than the single scan, and all refusals are the same. -/
theorem split_reads_alike_twoStores :
    let layered := execute (step twoStores) splitCalls
      ⟨Layers.newScans (List.finRange 2) .numbers .includingAll, fun _ => .blank .uint32 4,
        fun _ => default⟩
    let single := execute (step (storeAfter (newerUpdates ++ olderUpdates))) splitCalls
      ⟨Scan.start .numbers .includingAll, fun _ => .blank .uint32 4, fun _ => default⟩
    layered.1 = single.1 ∧
      layered.1.map Event.answer =
        [.error (.invalidState (.tooEarly .applyUpdates .prepareBatch)), .ok (), .ok (), .ok (),
          .ok (), .error (.invalidState .alreadyInitialized),
          .error (.invalidState (.seekBehindBatch 7 8)), .error (.columnOutOfRange 1 1)] ∧
      (layered.2.blocks 0).cells = [.uint32 9, .uint32 4, .uint32 0, .uint32 0] := by
  have hstores : ∀ i, (twoStores i).Reachable .numbers := by
    rw [Fin.forall_fin_two]
    exact ⟨reachable_storeAfter olderUpdates, reachable_storeAfter newerUpdates⟩
  have hlimit : ∀ i, ((fun _ => default : Nat → Arena) i).config.limit = none := fun _ => rfl
  obtain ⟨hevents, hblocks⟩ := split_reads_alike (by decide) hstores
    (reachable_storeAfter (newerUpdates ++ olderUpdates)) splitInto_twoStores .numbers .includingAll
    (fun _ => .blank .uint32 4) hlimit splitCalls
  refine ⟨hevents, ?_, ?_⟩
  · rw [hevents]
    decide +kernel
  · rw [hblocks]
    decide +kernel

end Reading

end TabletDelta
