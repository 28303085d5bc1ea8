import TabletDelta.Read.Source

/-!
# Layers of deltas

Several sources of deltas can be read as one by layering them, oldest first: every call goes to the
layers in order, so of two layers that write the same cell the later one wins. Layers may be layered
again. A call that fails in one layer is not passed on to the layers after it.
-/

namespace TabletDelta

/-- A source of deltas, or a stack of layers read as one source. -/
inductive Layers (σ : Type) where
  /-- A single source. -/
  | single (source : σ)
  /-- Layers, the oldest first. -/
  | stack (layers : List (Layers σ))

namespace Layers

variable {σ ε ω : Type}

/-- The given sources as one, without a stack if there is only one of them. -/
def ofList : List (Layers σ) → Layers σ
  | [layer] => layer
  | layers => .stack layers

mutual

/-- Takes a step in every single source, in order, up to the first failure. The steps share a state
that is passed from one to the next. -/
def walk (step : σ → ω → Outcome (σ × ω) Unit) : Layers σ → ω → Outcome (Layers σ × ω) Unit
  | .single source, shared =>
    (step source shared).mapState fun (source, shared) => (.single source, shared)
  | .stack layers, shared =>
    (walkAll step layers shared).mapState fun (layers, shared) => (.stack layers, shared)

/-- Walks through layers in order, up to the first failure. -/
def walkAll (step : σ → ω → Outcome (σ × ω) Unit) :
    List (Layers σ) → ω → Outcome (List (Layers σ) × ω) Unit
  | [], shared => .ok () ([], shared)
  | layer :: layers, shared =>
    match walk step layer shared with
    | ⟨.error e, (layer, shared)⟩ => .fail e (layer :: layers, shared)
    | ⟨.ok (), (layer, shared)⟩ =>
      (walkAll step layers shared).mapState fun (layers, shared) => (layer :: layers, shared)

end

/-- Makes the same call on every single source, in order, up to the first failure. -/
def forAll (call : σ → Outcome σ Unit) (layers : Layers σ) : Outcome (Layers σ) Unit :=
  (layers.walk (fun source () => (call source).mapState (·, ())) ()).mapState (·.1)

instance [DeltaSource σ ε] : DeltaSource (Layers σ) ε where
  init contents := forAll (DeltaSource.init contents)
  seek row := forAll (DeltaSource.seek row)
  prepare contents rows := forAll (DeltaSource.prepare contents rows)
  apply column := walk (DeltaSource.apply column)

end Layers

end TabletDelta
