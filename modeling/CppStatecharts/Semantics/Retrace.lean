import CppStatecharts.Semantics.Simulation
import CppStatecharts.Semantics.Trace

/-!
The methods do not look at the record of the run.

* `World.Retraced l₀ l₁`: worlds that agree on everything but what was observed before, `l₀` in the
  one and `l₁` in the other.
* `similar_retraced`: the methods do the same in both, and observe the same.
-/

namespace CppStatecharts

variable {S T E P : Type} {l₀ l₁ : List (Obs S T)}

namespace World

/-- The same world, but for what was observed before. -/
def Retraced (l₀ l₁ : List (Obs S T)) (w v : World S T E P) : Prop :=
  ∃ l, w.trace = l ++ l₀ ∧ v = { w with trace := l ++ l₁ }

variable {w v : World S T E P} {s : S} {o : Obs S T}

lemma Retraced.data (h : Retraced l₀ l₁ w v) : v.data = w.data := by
  obtain ⟨l, -, rfl⟩ := h
  rfl

lemma Retraced.param (h : Retraced l₀ l₁ w v) : v.param = w.param := by
  obtain ⟨l, -, rfl⟩ := h
  rfl

lemma Retraced.log (h : Retraced l₀ l₁ w v) (o : Obs S T) : Retraced l₀ l₁ (w.log o) (v.log o) := by
  obtain ⟨l, hl, rfl⟩ := h
  exact ⟨o :: l, congrArg (o :: ·) hl, rfl⟩

lemma Retraced.onData (h : Retraced l₀ l₁ w v) (f : Metadata S → Metadata S) :
    Retraced l₀ l₁ (w.onData f) (v.onData f) := by
  obtain ⟨l, hl, rfl⟩ := h
  exact ⟨l, hl, rfl⟩

lemma Retraced.perform (h : Retraced l₀ l₁ w v) (a : Option (Action S P)) :
    Retraced l₀ l₁ (w.perform o a) (v.perform o a) := by
  cases a with
  | none => exact h
  | some f =>
      obtain ⟨l, hl, rfl⟩ := h
      exact ⟨o :: l, congrArg (o :: ·) hl, rfl⟩

lemma Retraced.cancelEntry (h : Retraced l₀ l₁ w v) (id : ℕ) :
    Retraced l₀ l₁ (Chart.cancelEntry w id) (Chart.cancelEntry v id) := by
  obtain ⟨l, hl, rfl⟩ := h
  exact ⟨.invalidated id :: l, congrArg (_ :: ·) hl, rfl⟩

lemma Retraced.cancelTimeouts (h : Retraced l₀ l₁ w v) :
    Retraced l₀ l₁ (Chart.cancelTimeouts s w) (Chart.cancelTimeouts s v) := by
  unfold Chart.cancelTimeouts
  rw [h.data]
  generalize w.data.timeouts s = ids
  induction ids generalizing w v with
  | nil => exact h
  | cons id ids ih => exact ih (h.cancelEntry id)

variable [DecidableEq S] {c : Chart S T E P}

lemma Retraced.deactivateData (h : Retraced l₀ l₁ w v) :
    Retraced l₀ l₁ (c.deactivateData s w) (c.deactivateData s v) := by
  unfold Chart.deactivateData
  rw [h.data]
  split
  · exact h
  · simp only
    split
    · exact h.onData _
    · exact (h.onData _).log _

lemma Retraced.scheduleTimeout (h : Retraced l₀ l₁ w v) (t : T) :
    Retraced l₀ l₁ (c.scheduleTimeout s w t) (c.scheduleTimeout s v t) := by
  obtain ⟨l, hl, rfl⟩ := h
  unfold Chart.scheduleTimeout
  split
  · exact ⟨l, hl, rfl⟩
  · simp only
    split
    · exact ⟨_ :: l, congrArg (_ :: ·) hl, rfl⟩
    · exact ⟨l, hl, rfl⟩

lemma Retraced.scheduleTimeouts (h : Retraced l₀ l₁ w v) :
    Retraced l₀ l₁ (c.scheduleTimeouts s w) (c.scheduleTimeouts s v) := by
  unfold Chart.scheduleTimeouts
  induction c.transitions s generalizing w v with
  | nil => exact h
  | cons t l ih => exact ih (h.scheduleTimeout t)

omit [DecidableEq S] in
lemma retraced_with (w : World S T E P) (l₁ : List (Obs S T)) :
    Retraced w.trace l₁ w { w with trace := l₁ } := ⟨[], rfl, rfl⟩

omit [DecidableEq S] in
/-- The same was observed since. -/
lemma Retraced.trace_eq {w₀ : World S T E P} (h : Retraced w₀.trace l₁ w v) :
    v.trace = w₀.since w ++ l₁ := by
  obtain ⟨l, hl, rfl⟩ := h
  rw [since_eq hl]

end World

/-- **Blind methods.** What was observed before makes no difference. -/
theorem similar_retraced [DecidableEq S] (c : Chart S T E P) :
    c.Similar (World.Retraced l₀ l₁) where
  isActive _ h := by rw [h.data]
  current _ h := by rw [h.data]
  stateset _ h := by rw [h.data]
  isSome _ h := by rw [h.data]
  guardHolds _ h := by simp only [Transition.guardHolds, h.data, h.param]
  triggered _ _ h := by simp only [Transition.triggered, h.data, h.param]
  fire _ h := h.data ▸ h.log _
  fired _ h₀ h := h.data ▸ h₀.data ▸ h.log _
  fallThrough _ _ h := h.log _
  entering _ h := h.log _
  entered _ h := h.log _
  effect _ h := h.perform _
  entry _ h := h.perform _
  doing _ h := h.perform _
  exit _ h := h.perform _
  activateData _ h := (h.onData _).log _
  scheduleTimeouts _ h _ := h.scheduleTimeouts
  leave _ h _ := h.cancelTimeouts.deactivateData
  registerRegion _ _ h := h.onData _
  clearStateset _ h := h.onData _
  clearCurrent _ h := h.onData _
  storeChain _ _ h := h.onData _

end CppStatecharts
