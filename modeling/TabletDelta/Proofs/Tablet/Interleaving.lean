import TabletDelta.Proofs.Read.Protocol
import TabletDelta.Proofs.Txn.History

/-!
# A store with its ledger and its readers

A ledger of transactions, a store and the scans that read it as one machine, whose calls come in any
order. Its runs are runs of the ledger and of the store (`ledger_run`, `store_run`), and a call
leaves a scan alone unless it is a call on this scan (`scan_step`). So each scan is on the row that
its own calls have brought it to, whatever came between them (`position_of_run`).
-/

namespace TabletDelta

/-- A store with the ledger of its transactions and the scans that read it. -/
structure Tablet where
  /-- The ledger. -/
  ledger : Ledger
  /-- The store. -/
  store : Store
  /-- The scans, in the order in which they were opened. -/
  scans : List Scan

namespace Tablet

/-- A call on the ledger, the store or one of the scans. -/
inductive Op where
  /-- A call on the ledger. -/
  | ledger (op : Ledger.Op)
  /-- An update of the store. -/
  | update (e : Entry)
  /-- Opens a scan of a projection, as far as a snapshot sees. -/
  | openScan (projection : Schema) (snapshot : Snapshot)
  /-- A call on a scan. -/
  | scan (index : Nat) (op : Scan.Op)
deriving DecidableEq

/-- The answer to a call. -/
inductive Reply where
  /-- The ledger's answer. -/
  | ledger (reply : Ledger.Reply)
  /-- Whether an update succeeded. -/
  | updated (result : Except Error Unit)
  /-- The index of the scan opened. -/
  | opened (index : Nat)
  /-- The scan's answer. -/
  | scan (reply : Scan.Reply)
  /-- There is no scan of this index. -/
  | noScan
deriving DecidableEq

/-- An empty store of a schema, with a new ledger and without readers. -/
def empty (schema : Schema) (config : ArenaConfig) : Tablet := ⟨.empty, .empty schema config, []⟩

/-- The tablet as a machine. -/
def step : Op → Tablet → Reply × Tablet
  | .ledger op, t =>
    (.ledger (Ledger.step op t.ledger).1, { t with ledger := (Ledger.step op t.ledger).2 })
  | .update e, t =>
    (.updated (Store.step e t.store).1, { t with store := (Store.step e t.store).2 })
  | .openScan projection snapshot, t =>
    (.opened t.scans.length, { t with scans := t.scans ++ [Scan.start projection snapshot] })
  | .scan i op, t =>
    match t.scans[i]? with
    | none => (.noScan, t)
    | some s =>
      (.scan (Scan.step t.store op s).1,
        { t with scans := t.scans.set i (Scan.step t.store op s).2 })

/-- What has been called on a tablet, and answered. -/
abbrev History := List (Event Op Reply)

/-- A call on the ledger, as an event of the ledger. -/
def ledgerEvent? : Event Op Reply → Option (Event Ledger.Op Ledger.Reply)
  | ⟨.ledger op, .ledger reply⟩ => some ⟨op, reply⟩
  | _ => none

/-- An update, as an event of the store. -/
def storeEvent? : Event Op Reply → Option (Event Entry (Except Error Unit))
  | ⟨.update e, .updated result⟩ => some ⟨e, result⟩
  | _ => none

/-- A call on the scan of an index, as an event of the scan. -/
def scanEvent? (i : Nat) : Event Op Reply → Option (Event Scan.Op Scan.Reply)
  | ⟨.scan j op, .scan reply⟩ => if j = i then some ⟨op, reply⟩ else none
  | _ => none

/-- The calls on the ledger. -/
def ledgerEvents (events : History) : Ledger.History := events.filterMap ledgerEvent?

/-- The updates. -/
def storeEvents (events : History) : Store.History := events.filterMap storeEvent?

/-- The calls on the scan of an index. -/
def scanEvents (i : Nat) (events : History) : List (Event Scan.Op Scan.Reply) :=
  events.filterMap (scanEvent? i)

/-- The calls on the ledger before a cut and after it. -/
theorem ledgerEvents_append (before after : History) :
    ledgerEvents (before ++ after) = ledgerEvents before ++ ledgerEvents after :=
  List.filterMap_append

/-- The updates before a cut and after it. -/
theorem storeEvents_append (before after : History) :
    storeEvents (before ++ after) = storeEvents before ++ storeEvents after :=
  List.filterMap_append

/-- A run of the tablet is a run of its ledger. -/
theorem ledger_run {t t' : Tablet} {events : History} (h : Run step t events t') :
    Run Ledger.step t.ledger (ledgerEvents events) t'.ledger := by
  refine h.project Tablet.ledger ledgerEvent? fun call t => ?_
  cases call with
  | ledger op => exact ⟨rfl, rfl⟩
  | update e | openScan projection snapshot => rfl
  | scan i op =>
    simp only [eventOf, step]
    cases t.scans[i]? <;> rfl

/-- A run of the tablet is a run of its store. -/
theorem store_run {t t' : Tablet} {events : History} (h : Run step t events t') :
    Run Store.step t.store (storeEvents events) t'.store := by
  refine h.project Tablet.store storeEvent? fun call t => ?_
  cases call with
  | update e => exact ⟨rfl, rfl⟩
  | ledger op | openScan projection snapshot => rfl
  | scan i op =>
    simp only [eventOf, step]
    cases t.scans[i]? <;> rfl

/-- A call on one scan reaches this scan. -/
theorem step_scan {t : Tablet} {i : Nat} {s : Scan} (h : t.scans[i]? = some s) (op : Scan.Op) :
    step (.scan i op) t = (.scan (Scan.step t.store op s).1,
      { t with scans := t.scans.set i (Scan.step t.store op s).2 }) := by
  unfold step
  dsimp only
  rw [h]

/-- A call leaves a scan alone, unless it is a call on this scan, which does to it what the scan
does on the call. -/
theorem scan_step {t : Tablet} {i : Nat} {s : Scan} (h : t.scans[i]? = some s) (op : Op) :
    (step op t).2.scans[i]? = some s ∧ scanEvent? i (eventOf step op t) = none ∨
      ∃ scanOp, op = .scan i scanOp ∧
        (step op t).2.scans[i]? = some (Scan.step t.store scanOp s).2 ∧
        scanEvent? i (eventOf step op t) = some (eventOf (Scan.step t.store) scanOp s) := by
  obtain ⟨hi, -⟩ := List.getElem?_eq_some_iff.1 h
  cases op with
  | ledger op | update e => exact .inl ⟨h, rfl⟩
  | openScan projection snapshot =>
    refine .inl ⟨?_, rfl⟩
    show (t.scans ++ [_])[i]? = some s
    rw [List.getElem?_append_left hi, h]
  | scan j op =>
    by_cases hij : j = i
    · subst hij
      refine .inr ⟨op, rfl, ?_, ?_⟩
      · rw [step_scan h]
        show (t.scans.set j _)[j]? = _
        rw [List.getElem?_set_self hi]
      · unfold eventOf
        rw [step_scan h]
        exact if_pos rfl
    · cases hj : t.scans[j]? with
      | none =>
        unfold eventOf step
        dsimp only
        rw [hj]
        exact .inl ⟨h, rfl⟩
      | some other =>
        unfold eventOf
        rw [step_scan hj]
        refine .inl ⟨?_, if_neg hij⟩
        show (t.scans.set j _)[i]? = some s
        rw [List.getElem?_set_ne hij, h]

/-- No call reaches a scan that is not there, and a call that brings it there opens it. -/
theorem scan_absent {t : Tablet} {i : Nat} (h : t.scans[i]? = none) (op : Op) :
    scanEvent? i (eventOf step op t) = none ∧ ((step op t).2.scans[i]? = none ∨
      ∃ projection snapshot, (step op t).2.scans[i]? = some (.start projection snapshot)) := by
  have hi := List.getElem?_eq_none_iff.1 h
  cases op with
  | ledger op | update e => exact ⟨rfl, .inl h⟩
  | openScan projection snapshot =>
    refine ⟨rfl, ?_⟩
    show (t.scans ++ [_])[i]? = none ∨ ∃ projection snapshot, (t.scans ++ [_])[i]? = some _
    rcases Nat.eq_or_lt_of_le hi with hlast | hbeyond
    · refine .inr ⟨projection, snapshot, ?_⟩
      rw [← hlast, List.getElem?_concat_length]
    · refine .inl (List.getElem?_eq_none ?_)
      rw [List.length_append]
      exact hbeyond
  | scan j op =>
    unfold eventOf step
    dsimp only
    cases hj : t.scans[j]? with
    | none => exact ⟨rfl, .inl h⟩
    | some other =>
      have hne : j ≠ i := by
        rintro rfl
        rw [h] at hj
        cases hj
      refine ⟨if_neg hne, .inl ?_⟩
      show (t.scans.set j _)[i]? = none
      rw [List.getElem?_set_ne hne, h]

/-- The calls on a scan, with one more call on the tablet. -/
theorem scanEvents_snoc (i : Nat) (events : History) (e : Event Op Reply) :
    scanEvents i (events ++ [e]) = scanEvents i events ++ (scanEvent? i e).toList := by
  unfold scanEvents
  rw [List.filterMap_append, List.filterMap_cons, List.filterMap_nil]
  cases scanEvent? i e <;> rfl

/-- In a run, each scan is on the row that the answers to its calls say. -/
theorem position_of_run {schema : Schema} {config : ArenaConfig} {events : History} {t : Tablet}
    (hrun : Run step (.empty schema config) events t) (i : Nat) :
    (t.scans[i]? = none → scanEvents i events = []) ∧
      ∀ s, t.scans[i]? = some s → s.position = Scan.positionAfter (scanEvents i events) := by
  refine hrun.invariant (fun past t => (t.scans[i]? = none → scanEvents i past = []) ∧
    ∀ s, t.scans[i]? = some s → s.position = Scan.positionAfter (scanEvents i past)) ?_
    ⟨fun _ => rfl, fun s hs => by cases hs⟩
  rintro past t op ⟨habsent, hpresent⟩
  rw [scanEvents_snoc]
  cases hscan : t.scans[i]? with
  | none =>
    obtain ⟨hevent, hafter⟩ := scan_absent hscan op
    rw [hevent, habsent hscan]
    refine ⟨fun _ => rfl, fun s hs => ?_⟩
    rcases hafter with hnone | ⟨projection, snapshot, hopened⟩
    · rw [hnone] at hs
      cases hs
    · -- A scan that was just opened is on row 0.
      rw [hopened, Option.some_inj] at hs
      rw [← hs]
      rfl
  | some scan =>
    have hposition := hpresent scan hscan
    rcases scan_step hscan op with ⟨hkept, hevent⟩ | ⟨scanOp, -, hcalled, hevent⟩
    · rw [hevent, Option.toList_none, List.append_nil, hkept]
      refine ⟨fun h => absurd h (Option.some_ne_none _), fun s hs => ?_⟩
      rw [← Option.some.inj hs, hposition]
    · rw [hevent, Option.toList_some, hcalled]
      refine ⟨fun h => absurd h (Option.some_ne_none _), fun s hs => ?_⟩
      rw [← Option.some.inj hs, Scan.positionAfter_snoc, ← hposition]
      exact Scan.step_position scanOp

end Tablet

end TabletDelta
