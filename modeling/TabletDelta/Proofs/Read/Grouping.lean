import TabletDelta.Proofs.Read.Singles

/-!
# The grouping of layers

Layers of layers are read as if they were one stack: how the sources are grouped has no part in
what becomes of a call on them (`KeptByWalks`). So whatever is called, layers grouped in one way and
in another give the same answers, write the same cells, and leave every source in the same state,
also after a call that failed half-way (`grouping_unseen`). This holds of any sources, whatever
state they are in and whichever of their calls fail.
-/

namespace TabletDelta

namespace Layers

variable {σ ω : Type}

/-- A step leaves as many layers as there were. -/
theorem length_walkAll (step : σ → ω → Outcome (σ × ω) Unit) (layers : List (Layers σ))
    (shared : ω) : (walkAll step layers shared).state.1.length = layers.length := by
  induction layers generalizing shared with
  | nil => rfl
  | cons layer layers ih =>
    rcases hlayer : walk step layer shared with ⟨result, moved, between⟩
    cases result with
    | error fault =>
      rw [walkAll_cons_of_error hlayer]
      rfl
    | ok u =>
      rw [walkAll_cons_of_ok hlayer]
      exact congrArg (· + 1) (ih between)

/-! ## Groupings that a caller does not see -/

/-- A relation of sources that a step through both of them keeps: it has one answer and makes one
thing of what the steps share. -/
def KeptByWalks (R : Layers σ → Layers σ → Prop) : Prop :=
  ∀ (ω : Type) (step : σ → ω → Outcome (σ × ω) Unit) (shared : ω) (a b : Layers σ), R a b →
    ∃ result a' b' left, walk step a shared = ⟨result, a', left⟩ ∧
      walk step b shared = ⟨result, b', left⟩ ∧ R a' b'

/-- The one source is a stack of stacks of these sizes, and the other one has the same layers in one
stack. -/
def Flattened (sizes : List Nat) (nested flat : Layers σ) : Prop :=
  ∃ lists : List (List (Layers σ)), lists.map List.length = sizes ∧
    nested = .stack (lists.map .stack) ∧ flat = .stack lists.flatten

/-- The one source is made of this many layers, without a stack if there is only one, and the other
one is the stack of the same layers. -/
def Unwrapped (size : Nat) (bare stack : Layers σ) : Prop :=
  ∃ layers : List (Layers σ), layers.length = size ∧ bare = ofList layers ∧ stack = .stack layers

/-- The other source is the stack of the single sources of the one, however deep they are in it. -/
def Levelled (nested flat : Layers σ) : Prop := flat = .stack (nested.singles.map .single)

/-- A step through stacks of layers is a step through all these layers. -/
theorem walkAll_flatten (step : σ → ω → Outcome (σ × ω) Unit) (lists : List (List (Layers σ)))
    (shared : ω) : ∃ (result : Except Error Unit) (after : List (List (Layers σ))) (left : ω),
      after.map List.length = lists.map List.length ∧
      walkAll step (lists.map .stack) shared = ⟨result, after.map .stack, left⟩ ∧
      walkAll step lists.flatten shared = ⟨result, after.flatten, left⟩ := by
  induction lists generalizing shared with
  | nil => exact ⟨.ok (), [], shared, rfl, rfl, rfl⟩
  | cons layers lists ih =>
    have hlength := length_walkAll step layers shared
    rcases hlayers : walkAll step layers shared with ⟨result, moved, between⟩
    rw [hlayers] at hlength
    have hstack : walk step (.stack layers) shared = ⟨result, .stack moved, between⟩ := by
      rw [walk, hlayers]
      rfl
    cases result with
    | error e =>
      refine ⟨.error e, moved :: lists, between, ?_, walkAll_cons_of_error hstack _, ?_⟩
      · rw [List.map_cons, List.map_cons, hlength]
      · rw [List.flatten_cons, walkAll_append, hlayers]
        rfl
    | ok u =>
      obtain ⟨result, after, left, hsizes, hnested, hflat⟩ := ih between
      refine ⟨result, moved :: after, left, ?_, ?_, ?_⟩
      · rw [List.map_cons, List.map_cons, hlength, hsizes]
      · rw [List.map_cons, walkAll_cons_of_ok hstack, hnested]
        rfl
      · rw [List.flatten_cons, walkAll_append, hlayers]
        dsimp only
        rw [hflat]
        rfl

/-- Steps through a stack of stacks and through the stack of all their layers agree. -/
theorem flattened_keptByWalks (sizes : List Nat) :
    KeptByWalks (Flattened sizes : Layers σ → Layers σ → Prop) := by
  rintro ω step shared _ _ ⟨lists, rfl, rfl, rfl⟩
  obtain ⟨result, after, left, hsizes, hnested, hflat⟩ := walkAll_flatten step lists shared
  refine ⟨result, .stack (after.map .stack), .stack after.flatten, left, ?_, ?_,
    after, hsizes, rfl, rfl⟩
  · rw [walk, hnested]
    rfl
  · rw [walk, hflat]
    rfl

/-- Steps through layers that were made one, and through the stack of them, agree. -/
theorem unwrapped_keptByWalks (size : Nat) :
    KeptByWalks (Unwrapped size : Layers σ → Layers σ → Prop) := by
  rintro ω step shared _ _ ⟨layers, rfl, rfl, rfl⟩
  have hlength := length_walkAll step layers shared
  rcases hlayers : walkAll step layers shared with ⟨result, after, left⟩
  rw [hlayers] at hlength
  have hstack : walk step (.stack layers) shared = ⟨result, .stack after, left⟩ := by
    rw [walk, hlayers]
    rfl
  refine ⟨result, ofList after, .stack after, left, ?_, hstack, after, hlength, rfl, rfl⟩
  by_cases hone : layers.length = 1
  · -- A step through the stack of a single layer ends with this layer.
    obtain ⟨layer, rfl⟩ := List.length_eq_one_iff.1 hone
    rcases hlayer : walk step layer shared with ⟨result', moved, left'⟩
    cases result' with
    | error e =>
      rw [walkAll_cons_of_error hlayer] at hlayers
      cases hlayers
      exact hlayer
    | ok u =>
      rw [walkAll_cons_of_ok hlayer] at hlayers
      cases hlayers
      exact hlayer
  · rw [ofList_eq_stack hone, ofList_eq_stack (hlength.trans_ne hone), hstack]

/-- Steps through layers and through the stack of their single sources agree. -/
theorem levelled_keptByWalks : KeptByWalks (Levelled : Layers σ → Layers σ → Prop) := by
  rintro ω step shared layer _ rfl
  obtain ⟨result, after, left, hlayer, hsingles⟩ := walk_singles step layer shared
  refine ⟨result, after, .stack (after.singles.map .single), left, hlayer, ?_, rfl⟩
  rw [walk, hsingles]
  rfl

end Layers

namespace Reading

variable {σ ε : Type} [DeltaSource σ ε] {R : Layers σ → Layers σ → Prop}

/-- What comes of calls on layers, each with the contents that are read at the time, for a caller
with blocks and arenas: the answers, and how everything is left. -/
def readFrom (source : Layers σ) (blocks : Nat → Block) (arenas : Nat → Arena)
    (calls : List (ε × Op)) :
    List (Event (ε × Op) (Except Error Unit)) × Reading (Layers σ) :=
  execute (fun call => step call.1 call.2) calls ⟨source, blocks, arenas⟩

/-- Two callers have the same blocks and arenas, and sources that are related. -/
structure Related (R : Layers σ → Layers σ → Prop) (first second : Reading (Layers σ)) : Prop where
  /-- The sources are related. -/
  sources : R first.source second.source
  /-- The blocks are the same. -/
  blocks_eq : first.blocks = second.blocks
  /-- The arenas are the same. -/
  arenas_eq : first.arenas = second.arenas

/-- The same has come of calls on two sources, which are related by what the calls have left of
them. -/
structure Agree (R : Layers σ → Layers σ → Prop)
    (first second : List (Event (ε × Op) (Except Error Unit)) × Reading (Layers σ)) : Prop where
  /-- Each call was answered alike. -/
  answers_eq : first.1 = second.1
  /-- Everything is left alike. -/
  related : Related R first.2 second.2

/-- A call on related sources is answered alike and leaves them related. -/
theorem Related.step {first second : Reading (Layers σ)} (h : Related R first second)
    (hR : Layers.KeptByWalks R) (contents : ε) (op : Op) :
    (Reading.step contents op first).1 = (Reading.step contents op second).1 ∧
      Related R (Reading.step contents op first).2 (Reading.step contents op second).2 := by
  obtain ⟨hsource, hblocks, harenas⟩ := h
  cases op with
  | move m =>
    obtain ⟨result, a, b, u, hfirst, hsecond, hafter⟩ := hR Unit
      (fun source () => (DeltaSource.move contents m source).mapState (·, ())) () _ _ hsource
    have hmoved := (Layers.move_eq contents m first.source).trans (Layers.forAll_of_walk hfirst)
    have hmoved' := (Layers.move_eq contents m second.source).trans (Layers.forAll_of_walk hsecond)
    rw [step_move hmoved, step_move hmoved']
    exact ⟨rfl, hafter, hblocks, harenas⟩
  | apply column block arena =>
    obtain ⟨result, a, b, left, hfirst, hsecond, hafter⟩ := hR Target
      (DeltaSource.apply column) (first.target block arena) _ _ hsource
    have htarget : first.target block arena = second.target block arena := by
      unfold target
      rw [hblocks, harenas]
    rw [htarget] at hsecond
    rw [step_apply hfirst, step_apply hsecond, hblocks, harenas]
    exact ⟨rfl, hafter, rfl, rfl⟩

/-- Whatever is called, the same comes of it on sources that a relation kept by walks relates. -/
theorem agree_of_related (hR : Layers.KeptByWalks R) {a b : Layers σ} (h : R a b)
    (blocks : Nat → Block) (arenas : Nat → Arena) (calls : List (ε × Op)) :
    Agree R (readFrom a blocks arenas calls) (readFrom b blocks arenas calls) := by
  have hstart : Related R ⟨a, blocks, arenas⟩ ⟨b, blocks, arenas⟩ := ⟨h, rfl, rfl⟩
  have hstep : ∀ (call : ε × Op) (first second : Reading (Layers σ)), Related R first second →
      (step call.1 call.2 first).1 = (step call.1 call.2 second).1 ∧
        Related R (step call.1 call.2 first).2 (step call.1 call.2 second).2 :=
    fun call _ _ hrelated => hrelated.step hR call.1 call.2
  obtain ⟨hanswers, hrelated⟩ := execute_congr (Related R) hstep calls hstart
  exact ⟨hanswers, hrelated⟩

/-- **The grouping of layers is not seen.** Take sources of any kind, in any state, of which any call
may fail, and whatever calls on them. The same comes of the calls, answer by answer, in the blocks
and in the arenas, and every source is left in the same state

* on stacks of sources that are stacked again, and on all the sources in one stack;
* on sources that were made one without a stack if there is only one, and on the stack of them;
* on layers of any depth, and on the stack of their single sources. -/
theorem grouping_unseen (blocks : Nat → Block) (arenas : Nat → Arena) (calls : List (ε × Op)) :
    (∀ lists : List (List (Layers σ)), Agree (Layers.Flattened (lists.map List.length))
      (readFrom (.stack (lists.map .stack)) blocks arenas calls)
      (readFrom (.stack lists.flatten) blocks arenas calls)) ∧
    (∀ layers : List (Layers σ), Agree (Layers.Unwrapped layers.length)
      (readFrom (.ofList layers) blocks arenas calls)
      (readFrom (.stack layers) blocks arenas calls)) ∧
    ∀ source : Layers σ, Agree Layers.Levelled (readFrom source blocks arenas calls)
      (readFrom (.stack (source.singles.map .single)) blocks arenas calls) := by
  refine ⟨fun lists => ?_, fun layers => ?_, fun source => ?_⟩
  · exact agree_of_related (Layers.flattened_keptByWalks _) ⟨lists, rfl, rfl, rfl⟩ ..
  · exact agree_of_related (Layers.unwrapped_keptByWalks _) ⟨layers, rfl, rfl, rfl⟩ ..
  · exact agree_of_related Layers.levelled_keptByWalks rfl ..

end Reading

end TabletDelta
