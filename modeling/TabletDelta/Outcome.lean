import TabletDelta.Error

/-!
# Calls whose effects outlive a failure

A call on an object answers and changes the object. It may fail after it has changed something: a
block is filled up to the failing cell, of a stack of sources only the first have moved. So calls
return an `Outcome`, an answer together with the state left behind in either case. That a failed
call has changed nothing is then never a matter of its type, but of where it fails.
-/

namespace TabletDelta

/-- The answer of a call and the state that it leaves behind, whether it succeeded or not. -/
structure Outcome (σ α : Type) where
  /-- The answer. -/
  result : Except Error α
  /-- The state after the call. -/
  state : σ

namespace Outcome

variable {σ τ α β : Type}

/-- A call that succeeds. -/
def ok (a : α) (s : σ) : Outcome σ α := ⟨.ok a, s⟩

/-- A call that fails. -/
def fail (e : Error) (s : σ) : Outcome σ α := ⟨.error e, s⟩

@[simp, grind =] theorem result_ok (a : α) (s : σ) : (ok a s).result = .ok a := rfl

@[simp, grind =] theorem state_ok (a : α) (s : σ) : (ok a s).state = s := rfl

@[simp, grind =] theorem result_fail (e : Error) (s : σ) :
    (fail e s : Outcome σ α).result = .error e := rfl

@[simp, grind =] theorem state_fail (e : Error) (s : σ) : (fail e s : Outcome σ α).state = s := rfl

/-- The same state, with the answer of a call that succeeds taken for another one. -/
def map (f : α → β) (o : Outcome σ α) : Outcome σ β := ⟨o.result.map f, o.state⟩

/-- The same answer, with the state seen as part of another one. -/
def mapState (f : σ → τ) (o : Outcome σ α) : Outcome τ α := ⟨o.result, f o.state⟩

end Outcome

end TabletDelta
