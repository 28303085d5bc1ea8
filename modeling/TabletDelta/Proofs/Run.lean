import Mathlib.Data.List.DropRight

/-!
# Runs of a machine

A machine answers calls and changes its state with each of them. A run of it is the list of its
events, each a call with its answer, between a first and a last state. Runs are cut where their
lists are cut (`Run.append_iff`), what each call preserves holds at the end of a run
(`Run.invariant`), also if only under a condition on all events (`Run.invariant_of_forall`), and a
machine that embeds another one runs the embedded one as well (`Run.project`). Where some calls let
a machine start anew, only the events `since` the last of them count.
-/

namespace TabletDelta

/-- One call on a machine and what it answered. -/
structure Event (κ α : Type) where
  /-- The call. -/
  call : κ
  /-- The answer. -/
  answer : α
deriving DecidableEq

variable {σ κ α : Type}

/-- The event of a call on a machine in the state `s`. -/
def eventOf (step : κ → σ → α × σ) (call : κ) (s : σ) : Event κ α := ⟨call, (step call s).1⟩

/-- The events after the last call that meets a condition, or all of them if none does. -/
def since (p : κ → Bool) (events : List (Event κ α)) : List (Event κ α) :=
  events.rtakeWhile fun e => !p e.call

/-- A call that meets the condition leaves nothing since, and any other call is added. -/
theorem since_snoc (p : κ → Bool) (events : List (Event κ α)) (e : Event κ α) :
    since p (events ++ [e]) = if p e.call then [] else since p events ++ [e] := by
  unfold since
  rw [List.rtakeWhile_concat]
  cases p e.call <;> rfl

/-- Without a call that meets the condition, all events are since. -/
theorem since_eq_self {p : κ → Bool} {events : List (Event κ α)}
    (h : ∀ e ∈ events, p e.call = false) : since p events = events := by
  unfold since
  rw [List.rtakeWhile_eq_self_iff]
  intro e he
  rw [h e he]
  rfl

/-- The runs of the machine that answers calls by `step`: the first state, the events in order, and
the last state. -/
inductive Run (step : κ → σ → α × σ) : σ → List (Event κ α) → σ → Prop where
  /-- Without a call, the state stays. -/
  | nil (s : σ) : Run step s [] s
  /-- A call, and a run from the state that it leaves. -/
  | cons {s s' : σ} {events : List (Event κ α)} (call : κ) :
    Run step (step call s).2 events s' → Run step s (eventOf step call s :: events) s'

/-- The events and the last state of making `calls` from the state `s`. -/
def execute (step : κ → σ → α × σ) : List κ → σ → List (Event κ α) × σ
  | [], s => ([], s)
  | call :: calls, s =>
    let (events, last) := execute step calls (step call s).2
    (eventOf step call s :: events, last)

/-- Two machines that answer each call alike and stay related by it answer all calls alike. -/
theorem execute_congr {σ' : Type} {step : κ → σ → α × σ} {step' : κ → σ' → α × σ'}
    (R : σ → σ' → Prop)
    (hstep : ∀ call s s', R s s' →
      (step call s).1 = (step' call s').1 ∧ R (step call s).2 (step' call s').2)
    (calls : List κ) {s : σ} {s' : σ'} (h : R s s') :
    (execute step calls s).1 = (execute step' calls s').1 ∧
      R (execute step calls s).2 (execute step' calls s').2 := by
  induction calls generalizing s s' with
  | nil => exact ⟨rfl, h⟩
  | cons call calls ih =>
    obtain ⟨hanswer, hafter⟩ := hstep call s s' h
    obtain ⟨hevents, hlast⟩ := ih hafter
    refine ⟨?_, hlast⟩
    show eventOf step call s :: _ = eventOf step' call s' :: _
    rw [hevents, eventOf, eventOf, hanswer]

/-- What relates two machines and is kept by each of some calls, made on both, relates them after
all these calls. -/
theorem execute_related {σ' α' : Type} {step : κ → σ → α × σ} {step' : κ → σ' → α' × σ'}
    (R : σ → σ' → Prop) {calls : List κ}
    (hstep : ∀ call ∈ calls, ∀ s s', R s s' → R (step call s).2 (step' call s').2)
    {s : σ} {s' : σ'} (h : R s s') : R (execute step calls s).2 (execute step' calls s').2 := by
  induction calls generalizing s s' with
  | nil => exact h
  | cons call calls ih =>
    obtain ⟨hcall, hcalls⟩ := List.forall_mem_cons.1 hstep
    exact ih hcalls (hcall s s' h)

namespace Run

variable {step : κ → σ → α × σ}

/-- Making calls is a run. -/
theorem of_execute (calls : List κ) (s : σ) :
    Run step s (execute step calls s).1 (execute step calls s).2 := by
  induction calls generalizing s with
  | nil => exact .nil s
  | cons call calls ih => exact .cons call (ih _)

/-- Making calls gives one event for each of them, in order. -/
theorem calls_execute (calls : List κ) (s : σ) :
    (execute step calls s).1.map Event.call = calls := by
  induction calls generalizing s with
  | nil => rfl
  | cons call calls ih => exact congrArg (call :: ·) (ih _)

/-- The run of a single call. -/
theorem single (call : κ) (s : σ) : Run step s [eventOf step call s] (step call s).2 :=
  .cons call (.nil _)

/-- A run that starts with an event made the event's call on its first state. -/
theorem cons_iff {s s' : σ} {e : Event κ α} {events : List (Event κ α)} :
    Run step s (e :: events) s' ↔
      e.answer = (step e.call s).1 ∧ Run step (step e.call s).2 events s' := by
  constructor
  · intro h
    cases h with
    | cons call hrest => exact ⟨rfl, hrest⟩
  · rintro ⟨hanswer, hrest⟩
    have he : e = eventOf step e.call s := by
      unfold eventOf
      rw [← hanswer]
    rw [he]
    exact .cons e.call hrest

/-- The first state and the events determine the last state. -/
theorem last_unique {s s' t : σ} {events : List (Event κ α)} (h : Run step s events s')
    (h' : Run step s events t) : s' = t := by
  induction h with
  | nil s =>
    cases h'
    rfl
  | cons call hrest ih => exact ih (cons_iff.1 h').2

/-- A run is cut in two where its list of events is. -/
theorem append_iff {s s' : σ} {first second : List (Event κ α)} :
    Run step s (first ++ second) s' ↔ ∃ m, Run step s first m ∧ Run step m second s' := by
  induction first generalizing s with
  | nil =>
    refine ⟨fun h => ⟨s, .nil s, h⟩, ?_⟩
    rintro ⟨m, hfirst, hsecond⟩
    cases hfirst
    exact hsecond
  | cons e first ih =>
    -- The first event belongs to the first part of either run.
    rw [List.cons_append, cons_iff, ih]
    constructor
    · rintro ⟨hanswer, m, hfirst, hsecond⟩
      exact ⟨m, cons_iff.2 ⟨hanswer, hfirst⟩, hsecond⟩
    · rintro ⟨m, hfirst, hsecond⟩
      obtain ⟨hanswer, hrest⟩ := cons_iff.1 hfirst
      exact ⟨hanswer, m, hrest, hsecond⟩

/-- A run is cut before and after any of its events. -/
theorem split {s s' : σ} {before after : List (Event κ α)} {e : Event κ α}
    (h : Run step s (before ++ e :: after) s') :
    ∃ m, Run step s before m ∧ e.answer = (step e.call m).1 ∧
      Run step (step e.call m).2 after s' := by
  obtain ⟨m, hbefore, hrest⟩ := append_iff.1 h
  exact ⟨m, hbefore, cons_iff.1 hrest⟩

/-- A fact about the events so far and the present state, kept by each call, holds at the end of a
run that goes on from a past where it held. -/
theorem invariant_after (P : List (Event κ α) → σ → Prop)
    (hstep : ∀ past s call, P past s → P (past ++ [eventOf step call s]) (step call s).2)
    {s s' : σ} {events : List (Event κ α)} (h : Run step s events s') (past : List (Event κ α))
    (hpast : P past s) : P (past ++ events) s' := by
  -- By induction on the run, with each event moved from the run to the past.
  induction h generalizing past with
  | nil s => rwa [List.append_nil]
  | cons call hrest ih =>
    rw [List.append_cons]
    exact ih _ (hstep past _ call hpast)

/-- A fact about the events so far and the present state, kept by each call, holds at the end of a
run if it held at the start. -/
theorem invariant (P : List (Event κ α) → σ → Prop)
    (hstep : ∀ past s call, P past s → P (past ++ [eventOf step call s]) (step call s).2)
    {s s' : σ} {events : List (Event κ α)} (h : Run step s events s') (hs : P [] s) : P events s' :=
  h.invariant_after P hstep [] hs

/-- A fact kept by each call whose event meets a condition holds at the end of a run in which all
events meet it. -/
theorem invariant_of_forall {Q : Event κ α → Prop} (P : List (Event κ α) → σ → Prop)
    (hstep : ∀ past s call, P past s → Q (eventOf step call s) →
      P (past ++ [eventOf step call s]) (step call s).2)
    {s s' : σ} {events : List (Event κ α)} (h : Run step s events s') (hs : P [] s)
    (hall : ∀ e ∈ events, Q e) : P events s' := by
  -- The condition is part of the invariant: what holds does so if all events so far have met it.
  refine h.invariant (fun past s => (∀ e ∈ past, Q e) → P past s) ?_ (fun _ => hs) hall
  intro past s call ih hpast
  have hbefore := ih fun e he => hpast e (List.mem_append_left _ he)
  have hlast := hpast _ (List.mem_append_right past List.mem_cons_self)
  exact hstep past s call hbefore hlast

/-- A fact about the state alone, kept by each call, holds at the end of a run. -/
theorem preserves (P : σ → Prop) (hstep : ∀ s call, P s → P (step call s).2)
    {s s' : σ} {events : List (Event κ α)} (h : Run step s events s') (hs : P s) : P s' :=
  h.invariant (fun _ => P) (fun _ s call => hstep s call) hs

/-- A machine whose calls each are a call on an embedded machine, or leave the embedded machine
alone, runs the embedded machine on the events that `part?` picks out. -/
theorem project {σ' κ' α' : Type} {step' : κ' → σ' → α' × σ'} (view : σ → σ')
    (part? : Event κ α → Option (Event κ' α'))
    (hstep : ∀ call s,
      match part? (eventOf step call s) with
      | none => view (step call s).2 = view s
      | some e => e.answer = (step' e.call (view s)).1 ∧
          view (step call s).2 = (step' e.call (view s)).2)
    {s s' : σ} {events : List (Event κ α)} (h : Run step s events s') :
    Run step' (view s) (events.filterMap part?) (view s') := by
  -- By induction on the run: an event of the embedded machine is the next event of its run, and any
  -- other event leaves its state as it is.
  induction h with
  | nil s => exact .nil _
  | @cons s s' events call hrest ih =>
    have hs := hstep call s
    rw [List.filterMap_cons]
    split at hs
    · next hnone =>
      rw [hnone, ← hs]
      exact ih
    · next e hsome =>
      rw [hsome]
      refine cons_iff.2 ⟨hs.1, ?_⟩
      rw [← hs.2]
      exact ih

end Run

end TabletDelta
