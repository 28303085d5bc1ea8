import Mathlib.Logic.Function.Basic
import TabletDelta.Proofs.Run
import TabletDelta.Read.Layers
import TabletDelta.Read.Scan

/-!
# Sources in the hands of a caller

Any source of deltas as a machine. Three of the calls only move the source, and they are taken
together as `Move`. The fourth writes to a block, so the machine is the source together with the
blocks and the arenas of its caller (`Reading`): what a source has written to a block is there when
the block is given to it again.
-/

namespace TabletDelta

/-- A call that moves a source on in the order of calls. -/
inductive Move where
  /-- Binds the source. -/
  | init
  /-- Moves the source to a row. -/
  | seek (row : Row)
  /-- Prepares a batch. -/
  | prepare (rows : Nat)
deriving DecidableEq

/-- Makes a move. -/
def DeltaSource.move {σ ε : Type} [DeltaSource σ ε] (contents : ε) : Move → σ → Outcome σ Unit
  | .init => DeltaSource.init contents
  | .seek row => DeltaSource.seek row
  | .prepare rows => DeltaSource.prepare contents rows

/-- A source of deltas with the blocks and the arenas of its caller, each by its number. -/
structure Reading (σ : Type) where
  /-- The source. -/
  source : σ
  /-- The blocks. -/
  blocks : Nat → Block
  /-- The arenas. -/
  arenas : Nat → Arena

namespace Reading

/-- A call on the source, on behalf of its caller. -/
inductive Op where
  /-- Moves the source. -/
  | move (m : Move)
  /-- Writes a column to a block, whose strings go to an arena. -/
  | apply (column block arena : Nat)
deriving DecidableEq

variable {σ ε : Type} [DeltaSource σ ε]

/-- A block with an arena, as it is given to the source. -/
def target (r : Reading σ) (block arena : Nat) : Target := ⟨r.blocks block, r.arenas arena⟩

/-- A source in the hands of a caller as a machine. -/
def step (contents : ε) : Op → Reading σ → Except Error Unit × Reading σ
  | .move m, r =>
    let moved := DeltaSource.move contents m r.source
    (moved.result, { r with source := moved.state })
  | .apply column block arena, r =>
    let applied := DeltaSource.apply column r.source (r.target block arena)
    (applied.result,
      { source := applied.state.1
        blocks := Function.update r.blocks block applied.state.2.block
        arenas := Function.update r.arenas arena applied.state.2.arena })

/-- A move changes the source only. -/
theorem step_move {contents : ε} {m : Move} {r : Reading σ} {moved : Outcome σ Unit}
    (h : DeltaSource.move contents m r.source = moved) :
    step contents (.move m) r = (moved.result, { r with source := moved.state }) := by
  rw [← h]
  rfl

/-- Writing a column changes the source, the block and the arena. -/
theorem step_apply {contents : ε} {column block arena : Nat} {r : Reading σ}
    {applied : Outcome (σ × Target) Unit}
    (h : DeltaSource.apply column r.source (r.target block arena) = applied) :
    step contents (.apply column block arena) r =
      (applied.result,
        { source := applied.state.1
          blocks := Function.update r.blocks block applied.state.2.block
          arenas := Function.update r.arenas arena applied.state.2.arena }) := by
  rw [← h]
  rfl

/-- A column that is refused changes nothing. -/
theorem step_apply_refused {contents : ε} {column block arena : Nat} {r : Reading σ} {e : Error}
    (h : DeltaSource.apply column r.source (r.target block arena) =
      .fail e (r.source, r.target block arena)) :
    step contents (.apply column block arena) r = (.error e, r) := by
  rw [step_apply h]
  show (Except.error e, (⟨r.source, Function.update r.blocks block (r.blocks block),
    Function.update r.arenas arena (r.arenas arena)⟩ : Reading σ)) = _
  rw [Function.update_eq_self, Function.update_eq_self]

end Reading

namespace At

variable {κ σ ε : Type} [DeltaSource σ ε]

/-- A source that reads one of several contents moves as it does on these alone. -/
theorem move_eq (contents : κ → ε) (m : Move) (a : At κ σ) :
    DeltaSource.move contents m a =
      (DeltaSource.move (contents a.key) m a.source).mapState (⟨a.key, ·⟩) := by
  cases m <;> rfl

end At

namespace Layers

variable {σ ε ω : Type}

/-- Layers move by moving each single source. -/
theorem move_eq [DeltaSource σ ε] (contents : ε) (m : Move) (layers : Layers σ) :
    DeltaSource.move contents m layers = forAll (DeltaSource.move contents m) layers := by
  cases m <;> rfl

/-- What comes of a call on each single source is what comes of walking through them with it. -/
theorem forAll_of_walk {call : σ → Outcome σ Unit} {layers after : Layers σ}
    {result : Except Error Unit}
    (h : walk (fun x () => (call x).mapState (·, ())) layers () = ⟨result, after, ()⟩) :
    forAll call layers = ⟨result, after⟩ := by
  unfold forAll
  rw [h]
  rfl

/-- A stack writes a column layer by layer. -/
theorem apply_stack [DeltaSource σ ε] (column : Nat) (layers : List (Layers σ)) (target : Target) :
    DeltaSource.apply column (Layers.stack layers) target =
      (walkAll (DeltaSource.apply column) layers target).mapState fun (layers, target) =>
        (.stack layers, target) := by
  show walk (DeltaSource.apply column) (.stack layers) target = _
  rw [walk]

/-- A step that fails in a layer is not taken in the layers after it. -/
theorem walkAll_cons_of_error {step : σ → ω → Outcome (σ × ω) Unit} {layer after : Layers σ}
    {e : Error} {shared left : ω} (h : walk step layer shared = .fail e (after, left))
    (layers : List (Layers σ)) :
    walkAll step (layer :: layers) shared = .fail e (after :: layers, left) := by
  rw [walkAll, h]
  rfl

/-- A step that succeeds in a layer is taken in the layers after it. -/
theorem walkAll_cons_of_ok {step : σ → ω → Outcome (σ × ω) Unit} {layer after : Layers σ}
    {shared left : ω} (h : walk step layer shared = .ok () (after, left))
    (layers : List (Layers σ)) :
    walkAll step (layer :: layers) shared =
      (walkAll step layers left).mapState fun (layers, shared) => (after :: layers, shared) := by
  rw [walkAll, h]
  rfl

/-- A step that fails in a single source is not taken in the layers after it. -/
theorem walkAll_cons_error {step : σ → ω → Outcome (σ × ω) Unit} {x after : σ} {e : Error}
    {shared left : ω} (h : step x shared = .fail e (after, left)) (layers : List (Layers σ)) :
    walkAll step (.single x :: layers) shared = .fail e (.single after :: layers, left) := by
  refine walkAll_cons_of_error ?_ layers
  rw [walk, h]
  rfl

/-- A step that succeeds in a single source is taken in the layers after it. -/
theorem walkAll_cons_ok {step : σ → ω → Outcome (σ × ω) Unit} {x after : σ} {shared left : ω}
    (h : step x shared = .ok () (after, left)) (layers : List (Layers σ)) :
    walkAll step (.single x :: layers) shared =
      (walkAll step layers left).mapState fun (layers, shared) =>
        (.single after :: layers, shared) := by
  refine walkAll_cons_of_ok ?_ layers
  rw [walk, h]
  rfl

/-- A call that succeeds on all single sources of a stack succeeds on the stack. -/
theorem forAll_stack_ok {call : σ → Outcome σ Unit} {sources : List σ}
    (h : ∀ x ∈ sources, (call x).result = .ok ()) :
    forAll call (.stack (sources.map .single)) =
      .ok () (.stack (sources.map fun x => .single (call x).state)) := by
  have hwalk : walkAll (fun x () => (call x).mapState (·, ())) (sources.map .single) () =
      .ok () (sources.map fun x => .single (call x).state, ()) := by
    induction sources with
    | nil => rfl
    | cons x sources ih =>
      obtain ⟨hx, hsources⟩ := List.forall_mem_cons.1 h
      have hcall : (call x).mapState (·, ()) = .ok () ((call x).state, ()) := by
        unfold Outcome.mapState
        rw [hx]
        rfl
      rw [List.map_cons, walkAll_cons_ok hcall, ih hsources]
      rfl
  unfold forAll
  rw [walk, hwalk]
  rfl

/-- A call that fails on the first single source of a stack and leaves it as it was does so on the
stack. -/
theorem forAll_stack_error {call : σ → Outcome σ Unit} {x : σ} {e : Error}
    (h : call x = .fail e x) (sources : List σ) :
    forAll call (.stack ((x :: sources).map .single)) =
      .fail e (.stack ((x :: sources).map .single)) := by
  have hcall : (call x).mapState (·, ()) = .fail e (x, ()) := by
    rw [h]
    rfl
  unfold forAll
  rw [walk, List.map_cons, walkAll_cons_error hcall]
  rfl

end Layers

end TabletDelta
