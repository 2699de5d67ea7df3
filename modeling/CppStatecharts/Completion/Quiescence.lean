import CppStatecharts.Completion.Passes

/-!
Run to completion.

* `Statechart.Quiescent`: a dispatch of the null event returns `false` and changes nothing.
* `dispatch_false`: a dispatch that reports `false` has changed nothing, unless it has entered a
  state for the first time or offered a handled event to an enclosing state.
* `Swallowed.not_quiescent`: a region that reaches its final state swallows the result of the
  transition into it, and the loop ends although that transition has enabled another region.
-/

namespace CppStatecharts

variable {S T E P : Type} [DecidableEq S] {c : Chart S T E P} {v : Methods S T E P}
variable {w w₁ w₂ w' : World S T E P} {s n : S} {t : T} {e : Option E}

/-! ### What a dispatch that reports `false` has done -/

/-- Either nothing at all has changed, or a state was activated or offered a handled event. -/
def World.Blocked (w w' : World S T E P) : Prop := w' = w ∨ w.slips < w'.slips

omit [DecidableEq S] in
lemma World.Blocked.trans (h : w.Blocked w₁) (h' : w₁.Blocked w₂) : w.Blocked w₂ := by
  rcases h with rfl | h
  · exact h'
  · rcases h' with rfl | h'
    · exact Or.inr h
    · exact Or.inr (h.trans h')

omit [DecidableEq S] in
lemma World.Blocked.extends (h : w.slips < w₁.slips) (h' : w₁.Extends w') : w.Blocked w' :=
  Or.inr (h.trans_le h'.slips_le)

lemma slips_activateData : w.slips < (c.activateData s w).slips := by
  simp [World.slips, Chart.activateData, World.log]

omit [DecidableEq S] in
lemma slips_fallThrough {b : Bool} : w.slips < (w.log (.fallThrough s b)).slips := by
  simp [World.slips, World.log]

lemma State.dispatch_false (hp : v.Pure) (h : Returns (State.dispatch c v s e) w false w') :
    w' = w :=
  anyM_eq (fun _ _ _ _ => execute_false hp) h

lemma HierarchicalState.dispatch_false (k : ℕ)
    (ih : ∀ q w w', Returns ((c.methods k).dispatch q e) w false w' → w.Blocked w')
    (h : Returns (HierarchicalState.dispatch c (c.methods k) s e) w false w') : w.Blocked w' := by
  have hx := (compatible_extends c).methods k
  rcases HierarchicalState.returns_dispatch.mp h with
    ⟨-, -, rfl⟩ | ⟨-, w₁, w₂, handled, h₁, h₂, h₃⟩
  · exact Or.inl rfl
  have hrest : w₁.Blocked w' := by
    have hcur : handled = false → w₁.Blocked w₂ := by
      rintro rfl
      rcases HierarchicalState.returns_dispatchCurrent.mp h₂ with ⟨-, -, rfl⟩ | ⟨q, -, h₂⟩
      · exact Or.inl rfl
      · exact ih q w₁ w₂ h₂
    rcases h₃ with ⟨-, hb, rfl⟩ | ⟨-, -, -, hb, -⟩ | ⟨-, -, h₃⟩
    · exact hcur hb.symm
    · exact absurd hb (by simp)
    · obtain rfl := anyM_eq (fun _ _ _ _ => HierarchicalState.tryTransition_false
        (pure_methods c k)) h₃
      cases handled
      · exact hcur rfl
      · have hoff : Offers c e _ _ := (compatible_extends c).offers (pure_methods c k) hx trivial
        have hext := hoff.dispatchCurrent s _ _ _ h₂
        exact Or.inr (hext.slips_le.trans_lt slips_fallThrough)
  rcases HierarchicalState.returns_enterStart.mp h₁ with ⟨rfl, -⟩ | ⟨st, -, -, h₁⟩
  · exact hrest
  · refine World.Blocked.trans ?_ hrest
    rcases h₁ with ⟨-, rfl⟩ | ⟨q, b, -, h₁⟩
    · exact Or.inr slips_activateData
    · exact World.Blocked.extends slips_activateData (hx.activate q _ _ _ h₁)

omit [DecidableEq S] in
lemma ConcurrentState.dispatchRegions_false
    (ih : ∀ q w w', Returns (v.dispatch q e) w false w' → w.Blocked w') {l : List S}
    (h : Returns (ConcurrentState.dispatchRegions v n e l) w false w') : w.Blocked w' := by
  induction l generalizing w with
  | nil => exact Or.inl (returns_pure.mp h).2
  | cons r l ihl =>
      obtain ⟨b₁, w₁, b₂, h₁, h₂, hb⟩ := ConcurrentState.returns_dispatchRegions_cons.mp h
      obtain ⟨rfl, rfl⟩ : b₁ = false ∧ b₂ = false := by simpa using hb.symm
      refine World.Blocked.trans ?_ (ihl h₂)
      rcases ConcurrentState.returns_dispatchRegion.mp h₁ with ⟨-, -, rfl⟩ | ⟨-, h₁⟩
      · exact Or.inl rfl
      · exact ih r w w₁ h₁

lemma ConcurrentState.dispatch_false (hp : v.Pure)
    (ih : ∀ q w w', Returns (v.dispatch q e) w false w' → w.Blocked w')
    (h : Returns (ConcurrentState.dispatch c v n e) w false w') : w.Blocked w' := by
  rcases ConcurrentState.returns_dispatch.mp h with ⟨-, hb⟩ | ⟨w₁, h₁, h₂⟩
  · exact absurd hb (by simp)
  · obtain rfl := anyM_eq (fun _ _ _ _ => ConcurrentState.tryTransition_false hp) h₂
    exact ConcurrentState.dispatchRegions_false ih h₁

lemma PseudoState.dispatch_false (hp : v.Pure)
    (ih : ∀ q w w', Returns (v.dispatch q e) w false w' → w.Blocked w')
    (h : Returns (PseudoState.dispatch c v s e) w false w') : w.Blocked w' := by
  rcases PseudoState.returns_dispatch.mp h with ⟨q, -, -, h⟩ | ⟨-, hb, -⟩ | ⟨-, h⟩
  · exact ih q w w' h
  · exact absurd hb (by simp)
  · exact Or.inl (State.dispatch_false hp h)

/-- A dispatch that reports `false` has changed nothing, unless it has activated a state or offered
a handled event to an enclosing state. -/
lemma dispatch_false (k : ℕ) (h : Returns ((c.methods k).dispatch s e) w false w') :
    w.Blocked w' := by
  induction k generalizing s w w' with
  | zero => exact absurd h (by simp [Chart.methods])
  | succ k ih =>
      have ih' : ∀ q w w', Returns ((c.methods k).dispatch q e) w false w' → w.Blocked w' :=
        fun _ _ _ => ih
      rw [Chart.methods] at h
      cases hk : c.kind s <;> simp only [Chart.step, hk] at h
      case hierarchicalState => exact HierarchicalState.dispatch_false k ih' h
      case concurrentState => exact ConcurrentState.dispatch_false (pure_methods c k) ih' h
      case pseudoState => exact PseudoState.dispatch_false (pure_methods c k) ih' h
      all_goals exact Or.inl (State.dispatch_false (pure_methods c k) h)

namespace Statechart

lemma Pass.blocked (h : Pass c w false w') : w.Blocked w' := by
  obtain ⟨n, h⟩ := h
  rcases returns_pass.mp h with ⟨-, -, rfl⟩ | ⟨q, -, h⟩
  · exact Or.inl rfl
  · exact CppStatecharts.dispatch_false n h

/-! ### Run to completion -/

variable (c) in
/-- Nothing is left to do: a dispatch of the null event, with the parameter as it is, returns
`false`, fires no transition, calls no action and leaves the active states and the current
states. -/
def Quiescent (w : World S T E P) : Prop :=
  ∃ w', Returned (fun n => dispatch c n none) w (.returned false) w' ∧ w'.trace = w.trace
    ∧ ∀ s, w'.data.isActive s = w.data.isActive s ∧ w'.data.current s = w.data.current s

/-- A pass that neither reports nor changes anything leaves a quiescent configuration. -/
lemma quiescent_of_pass (h : Pass c w false w) : Quiescent c w := by
  refine ⟨w, returned_dispatch.mpr ?_, rfl, fun _ => ⟨rfl, rfl⟩⟩
  cases (w.data.getData c.root).isSome
  · exact Or.inl ⟨rfl, rfl, rfl⟩
  · exact Or.inr ⟨rfl, false, w, h, Or.inr ⟨⟨0, c.threshold_pos, w, rfl, h⟩, rfl⟩⟩

end Statechart

/-! ### A swallowed result -/

namespace Swallowed

/-- A concurrent state `n` with the regions `r₁`, from `x₁` to `y₁`, and `r₂`, from `x₂` to its
final state `f`. -/
inductive St where
  | chart | s | n | r₁ | s₁ | x₁ | y₁ | r₂ | s₂ | x₂ | f
  deriving DecidableEq

instance : Fintype St :=
  ⟨{.chart, .s, .n, .r₁, .s₁, .x₁, .y₁, .r₂, .s₂, .x₂, .f}, fun x => by cases x <;> decide⟩

inductive Tr where
  | begin | begin₁ | begin₂ | wait | finish
  deriving DecidableEq

instance : Fintype Tr :=
  ⟨{.begin, .begin₁, .begin₂, .wait, .finish}, fun t => by cases t <;> decide⟩

/-- The transition from `x₁` waits for the parameter to become true, which the transition into
`f` does. -/
def chart : Chart St Tr Event Bool where
  name := "swallowed"
  root := .chart
  ownedStates := [.s, .n, .r₁, .s₁, .x₁, .y₁, .r₂, .s₂, .x₂, .f]
  ownedTransitions := [.begin, .begin₁, .begin₂, .wait, .finish]
  kind
    | .chart => .statechart
    | .s | .s₁ | .s₂ => .pseudoState .start
    | .n => .concurrentState
    | .r₁ | .r₂ => .hierarchicalState
    | .f => .finalState
    | _ => .state
  context
    | .chart => none
    | .s | .n => some .chart
    | .r₁ | .r₂ => some .n
    | .s₁ | .x₁ | .y₁ => some .r₁
    | .s₂ | .x₂ | .f => some .r₂
  depth
    | .chart => 0
    | .s | .n => 1
    | .r₁ | .r₂ => 2
    | _ => 3
  source
    | .begin => .s
    | .begin₁ => .s₁
    | .begin₂ => .s₂
    | .wait => .x₁
    | .finish => .x₂
  target
    | .begin => .n
    | .begin₁ => .x₁
    | .begin₂ => .x₂
    | .wait => .y₁
    | .finish => .f
  guard
    | .wait => some fun _ p => p
    | _ => none
  action
    | .finish => some fun m _ => (m, true)
    | _ => none
  equals ev e _ _ := ev.equals e
  timeout := Event.timeout

set_option maxRecDepth 4000 in
/-- **A swallowed result.** When `start` returns, the transition from `x₁` is enabled. -/
theorem not_quiescent : ∃ w,
    Returned (fun n => Statechart.call chart n (.start false)) (World.fresh false)
      (.returned true) w
      ∧ ¬ Statechart.Quiescent chart w := by
  refine ⟨_, ⟨20, rfl⟩, ?_⟩
  rintro ⟨w', h, -⟩
  have heq : Outcome.returned false = .returned true :=
    (Returned.unique (Statechart.monotone_dispatch chart _) h ⟨20, rfl⟩).1
  exact absurd heq (by simp)

end Swallowed

end CppStatecharts
