/-!
# Traversals that can fail

A traversal of a list stops at the first element that fails. It succeeds exactly if none of them
does, and what it gives then are the values of the elements in order. The library traverses lists to
read change lists, to select from entries, and to look up columns.
-/

namespace TabletDelta

variable {ε α β : Type}

/-- A step after another one succeeds if both do. -/
theorem bind_eq_ok_iff {x : Except ε α} {next : α → Except ε β} {b : β} :
    x >>= next = .ok b ↔ ∃ a, x = .ok a ∧ next a = .ok b := by
  cases x with
  | error e => exact iff_of_false nofun fun ⟨_, hx, _⟩ => nomatch hx
  | ok a =>
    constructor
    · exact fun h => ⟨a, rfl, h⟩
    · rintro ⟨a', hx, hnext⟩
      cases hx
      exact hnext

/-- A traversal succeeds if every element does, and gives their values in order. -/
theorem mapM_eq_ok_iff {f : α → Except ε β} {xs : List α} {ys : List β} :
    xs.mapM f = .ok ys ↔ xs.map f = ys.map .ok := by
  induction xs generalizing ys with
  | nil => cases ys <;> simp [pure, Except.pure]
  | cons x xs ih =>
    rw [List.mapM_cons, List.map_cons]
    -- Both sides look at the first value first, and the rest is the induction hypothesis.
    cases hx : f x with
    | error e => cases ys <;> simp [bind, Except.bind]
    | ok y =>
      cases hrest : xs.mapM f with
      | error e => cases ys <;> simp [bind, Except.bind, ← ih, hrest]
      | ok zs => cases ys <;> simp [bind, Except.bind, pure, Except.pure, ← ih, hrest]

/-- A traversal fails with the first element that does. -/
theorem mapM_of_error {f : α → Except ε β} {xs : List α} {ys : List β} {x : α} {e : ε}
    (hxs : xs.mapM f = .ok ys) (hx : f x = .error e) (later : List α) :
    (xs ++ x :: later).mapM f = .error e := by
  rw [List.mapM_append, hxs, List.mapM_cons, hx]
  rfl

end TabletDelta
