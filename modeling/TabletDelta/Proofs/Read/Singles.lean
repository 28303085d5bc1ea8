import TabletDelta.Proofs.Read.Calls

/-!
# Single sources in layers

Layers may hold layers, but a call only ever meets the single sources in them, in order, up to the
first that fails: a step through layers is a step through the stack of their single sources
(`walk_singles`). So what becomes of a call on layers is read off these sources. If each of them
takes it, the layers do (`forAll_taken`). If one of them refuses it whatever came before, the layers
do (`walk_refused`), and if the first one refuses it, nothing has changed (`forAll_refused_first`).
-/

namespace TabletDelta

namespace Layers

variable {σ ω : Type}

mutual

/-- The single sources, in order. -/
def singles : Layers σ → List σ
  | .single source => [source]
  | .stack layers => singlesOf layers

/-- The single sources of several layers, in order. -/
def singlesOf : List (Layers σ) → List σ
  | [] => []
  | layer :: layers => layer.singles ++ singlesOf layers

end

/-- Unless there is only one, layers are made one by a stack. -/
theorem ofList_eq_stack {layers : List (Layers σ)} (h : layers.length ≠ 1) :
    ofList layers = .stack layers := by
  unfold ofList
  split
  · exact absurd rfl h
  · rfl

/-- The single sources of several layers are those of each of them. -/
theorem mem_singlesOf {layers : List (Layers σ)} {x : σ} :
    x ∈ singlesOf layers ↔ ∃ layer ∈ layers, x ∈ layer.singles := by
  induction layers with
  | nil => simp [singlesOf]
  | cons layer layers ih => simp [singlesOf, ih]

/-- Layers that are made one have the same single sources. -/
theorem singles_ofList (layers : List (Layers σ)) : (ofList layers).singles = singlesOf layers := by
  by_cases hone : layers.length = 1
  · obtain ⟨layer, rfl⟩ := List.length_eq_one_iff.1 hone
    exact (List.append_nil _).symm
  · rw [ofList_eq_stack hone, singles]

/-! ## Steps through single sources -/

/-- A step through layers and others after them: it is taken in the others if it succeeds in the
first ones. -/
theorem walkAll_append (step : σ → ω → Outcome (σ × ω) Unit) (first second : List (Layers σ))
    (shared : ω) : walkAll step (first ++ second) shared =
      match walkAll step first shared with
      | ⟨.error e, (after, left)⟩ => .fail e (after ++ second, left)
      | ⟨.ok (), (after, left)⟩ =>
        (walkAll step second left).mapState fun (layers, shared) => (after ++ layers, shared) := by
  induction first generalizing shared with
  | nil => rfl
  | cons layer layers ih =>
    rcases hlayer : walk step layer shared with ⟨result, moved, between⟩
    cases result with
    | error e =>
      rw [List.cons_append, walkAll_cons_of_error hlayer, walkAll_cons_of_error hlayer]
      rfl
    | ok u =>
      rw [List.cons_append, walkAll_cons_of_ok hlayer, walkAll_cons_of_ok hlayer, ih]
      rcases walkAll step layers between with ⟨result, rest, left⟩
      cases result <;> rfl

mutual

/-- A step through layers is a step through their single sources. -/
theorem walk_singles (step : σ → ω → Outcome (σ × ω) Unit) :
    ∀ (layer : Layers σ) (shared : ω), ∃ result after left,
      walk step layer shared = ⟨result, after, left⟩ ∧
        walkAll step (layer.singles.map .single) shared = ⟨result, after.singles.map .single, left⟩
  | .single source, shared => by
    rcases hsource : step source shared with ⟨result, moved, left⟩
    have hsingle : walk step (.single source) shared = ⟨result, .single moved, left⟩ := by
      rw [walk, hsource]
      rfl
    refine ⟨result, .single moved, left, hsingle, ?_⟩
    cases result with
    | error e => exact walkAll_cons_of_error hsingle []
    | ok u =>
      show walkAll step [.single source] shared = _
      rw [walkAll_cons_of_ok hsingle]
      rfl
  | .stack layers, shared => by
    obtain ⟨result, after, left, hlayers, hsingles⟩ := walkAll_singles step layers shared
    refine ⟨result, .stack after, left, ?_, hsingles⟩
    rw [walk, hlayers]
    rfl

/-- A step through several layers is a step through their single sources. -/
theorem walkAll_singles (step : σ → ω → Outcome (σ × ω) Unit) :
    ∀ (layers : List (Layers σ)) (shared : ω), ∃ result after left,
      walkAll step layers shared = ⟨result, after, left⟩ ∧
        walkAll step ((singlesOf layers).map .single) shared =
          ⟨result, (singlesOf after).map .single, left⟩
  | [], shared => ⟨.ok (), [], shared, rfl, rfl⟩
  | layer :: layers, shared => by
    obtain ⟨result, moved, between, hlayer, hsingles⟩ := walk_singles step layer shared
    rw [singlesOf, List.map_append]
    cases result with
    | error e =>
      refine ⟨.error e, moved :: layers, between, walkAll_cons_of_error hlayer layers, ?_⟩
      rw [walkAll_append, hsingles, singlesOf, List.map_append]
      rfl
    | ok u =>
      obtain ⟨result, after, left, hlayers, hrest⟩ := walkAll_singles step layers between
      refine ⟨result, moved :: after, left, ?_, ?_⟩
      · rw [walkAll_cons_of_ok hlayer, hlayers]
        rfl
      · rw [walkAll_append, hsingles]
        dsimp only
        rw [hrest, singlesOf, List.map_append]
        rfl

end

variable {step : σ → ω → Outcome (σ × ω) Unit} {call : σ → Outcome σ Unit} {layers : Layers σ}
  {x : σ}

/-- A source by itself is the single source of one. -/
theorem single_injective : Function.Injective (single : σ → Layers σ) := fun _ _ => single.inj

/-- A step through the single sources of layers is a step through the layers. -/
theorem walk_of_singles {result : Except Error Unit} {after : List σ} {shared left : ω}
    (h : walkAll step (layers.singles.map .single) shared = ⟨result, after.map .single, left⟩) :
    ∃ moved, walk step layers shared = ⟨result, moved, left⟩ ∧ moved.singles = after := by
  obtain ⟨result', moved, left', hwalk, hsingles⟩ := walk_singles step layers shared
  rw [h] at hsingles
  obtain ⟨rfl, hpair⟩ := Outcome.mk.inj hsingles
  obtain ⟨hafter, rfl⟩ := Prod.mk.inj hpair
  exact ⟨moved, hwalk, (List.map_injective_iff.2 single_injective hafter).symm⟩

/-- A step that one of several sources refuses, whatever it is given, is refused, and the source
stays as it was. -/
theorem walkAll_refused {sources : List σ} (hx : x ∈ sources)
    (h : ∀ shared, ∃ e left, step x shared = .fail e (x, left)) (shared : ω) :
    ∃ (e : Error) (after : List σ) (left : ω),
      walkAll step (sources.map .single) shared = .fail e (after.map .single, left) ∧
        x ∈ after := by
  induction sources generalizing shared with
  | nil => exact absurd hx List.not_mem_nil
  | cons y sources ih =>
    rcases List.mem_cons.1 hx with rfl | hrest
    · obtain ⟨e, left, hfail⟩ := h shared
      exact ⟨e, x :: sources, left, walkAll_cons_error hfail _, List.mem_cons_self⟩
    · rcases hy : step y shared with ⟨result, moved, between⟩
      cases result with
      | error e =>
        exact ⟨e, moved :: sources, between, walkAll_cons_error hy _,
          List.mem_cons_of_mem _ hrest⟩
      | ok u =>
        obtain ⟨e, after, left, hwalk, hmem⟩ := ih hrest between
        refine ⟨e, moved :: after, left, ?_, List.mem_cons_of_mem _ hmem⟩
        rw [List.map_cons, walkAll_cons_ok hy, hwalk]
        rfl

/-- A step that one of the single sources refuses, whatever it is given, is refused, and the source
stays as it was. -/
theorem walk_refused (step : σ → ω → Outcome (σ × ω) Unit) (hx : x ∈ layers.singles)
    (h : ∀ shared, ∃ e left, step x shared = .fail e (x, left)) (shared : ω) :
    ∃ e after left, walk step layers shared = .fail e (after, left) ∧ x ∈ after.singles := by
  obtain ⟨e, after, left, hwalk, hmem⟩ := walkAll_refused hx h shared
  obtain ⟨moved, hmoved, rfl⟩ := walk_of_singles hwalk
  exact ⟨e, moved, left, hmoved, hmem⟩

/-- A step that changes no source leaves several of them as they were. -/
theorem walkAll_kept (h : ∀ x shared, (step x shared).state.1 = x) (sources : List σ)
    (shared : ω) : (walkAll step (sources.map .single) shared).state.1 = sources.map .single := by
  induction sources generalizing shared with
  | nil => rfl
  | cons y sources ih =>
    have hkept := h y shared
    rcases hy : step y shared with ⟨result, moved, between⟩
    rw [hy] at hkept
    change moved = y at hkept
    subst hkept
    cases result with
    | error e =>
      rw [List.map_cons, walkAll_cons_error hy]
      rfl
    | ok u =>
      rw [List.map_cons, walkAll_cons_ok hy]
      exact congrArg (single moved :: ·) (ih between)

/-- A step that changes no source leaves the single sources of layers as they were. -/
theorem walk_kept (h : ∀ x shared, (step x shared).state.1 = x) (layers : Layers σ) (shared : ω) :
    (walk step layers shared).state.1.singles = layers.singles := by
  have hkept := walkAll_kept h layers.singles shared
  rcases hwalk : walkAll step (layers.singles.map .single) shared with ⟨result, after, left⟩
  rw [hwalk] at hkept
  change after = _ at hkept
  subst hkept
  obtain ⟨moved, hmoved, hsingles⟩ := walk_of_singles hwalk
  rw [hmoved]
  exact hsingles

/-- Layers without a single source take any step and remain without one. -/
theorem walk_empty (hempty : layers.singles = []) (step : σ → ω → Outcome (σ × ω) Unit)
    (shared : ω) :
    ∃ after, walk step layers shared = .ok () (after, shared) ∧ after.singles = [] := by
  refine walk_of_singles ?_
  rw [hempty]
  rfl

/-- A call on layers is a call on the stack of their single sources. -/
theorem forAll_singles (call : σ → Outcome σ Unit) (layers : Layers σ) : ∃ result after,
    forAll call layers = ⟨result, after⟩ ∧
      forAll call (.stack (layers.singles.map .single)) =
        ⟨result, .stack (after.singles.map .single)⟩ := by
  obtain ⟨result, after, left, hwalk, hsingles⟩ :=
    walk_singles (fun x () => (call x).mapState (·, ())) layers ()
  refine ⟨result, after, forAll_of_walk hwalk, forAll_of_walk ?_⟩
  rw [walk, hsingles]
  rfl

/-- A call that each single source takes is taken by the layers. -/
theorem forAll_taken (h : ∀ x ∈ layers.singles, (call x).result = .ok ()) :
    ∃ after, forAll call layers = .ok () after ∧
      after.singles = layers.singles.map fun x => (call x).state := by
  obtain ⟨result, after, hlayers, hstack⟩ := forAll_singles call layers
  rw [forAll_stack_ok h] at hstack
  obtain ⟨rfl, hafter⟩ := Outcome.mk.inj hstack
  refine ⟨after, hlayers, List.map_injective_iff.2 single_injective ?_⟩
  rw [List.map_map]
  exact (stack.inj hafter).symm

/-- A call that the first single source refuses leaves the layers as they were. -/
theorem forAll_refused_first {e : Error} {rest : List σ} (hsingles : layers.singles = x :: rest)
    (h : call x = .fail e x) :
    ∃ after, forAll call layers = .fail e after ∧ after.singles = layers.singles := by
  obtain ⟨result, after, hlayers, hstack⟩ := forAll_singles call layers
  rw [hsingles, forAll_stack_error h, ← hsingles] at hstack
  obtain ⟨rfl, hafter⟩ := Outcome.mk.inj hstack
  exact ⟨after, hlayers, (List.map_injective_iff.2 single_injective (stack.inj hafter)).symm⟩

/-- A source that refuses a call holds it up and stays as it was. -/
theorem forAll_refused {e : Error} (hx : x ∈ layers.singles) (h : call x = .fail e x) :
    ∃ e' after, forAll call layers = .fail e' after ∧ x ∈ after.singles := by
  have hcall : (call x).mapState (·, ()) = .fail e (x, ()) := by
    rw [h]
    rfl
  obtain ⟨e', after, left, hwalk, hmem⟩ :=
    walk_refused (fun x () => (call x).mapState (·, ())) hx (fun _ => ⟨e, (), hcall⟩) ()
  exact ⟨e', after, forAll_of_walk hwalk, hmem⟩

end Layers

end TabletDelta
