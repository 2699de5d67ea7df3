import CppStatecharts.Semantics.Rule

/-!
The record of a run only grows.

* `World.Adds p`: the trace of the second world continues the trace of the first with observations
  that satisfy `p`; `World.Extends` asks nothing of them.
* `steady_adds`, `compatible_adds`, `compatible_extends`: both under the invariant rules.
* `World.since`: the observations made between two worlds.
* `Obs.performed`: the calls of the client's actions among the observations.
* `World.firings`, `World.slips`: the numbers of transitions fired so far, and of states activated
  or offered an event that was already handled.
-/

namespace CppStatecharts

variable {S T E P : Type}

/-- The call of a client's action. -/
def Obs.isAction : Obs S T → Bool
  | .entry _ | .doing _ | .exit _ | .effect _ => true
  | _ => false

/-- The actions among the observations. -/
def Obs.performed (l : List (Obs S T)) : List (Obs S T) := l.filter Obs.isAction

namespace World

/-- The second world has observed everything the first one has, and then only what satisfies `p`. -/
def Adds (p : Obs S T → Prop) (w w' : World S T E P) : Prop :=
  ∃ l, w'.trace = l ++ w.trace ∧ ∀ o ∈ l, p o

/-- The second world has observed everything the first one has, and possibly more. -/
abbrev Extends (w w' : World S T E P) : Prop := Adds (fun _ => True) w w'

/-- What was observed between two worlds. -/
def since (w w' : World S T E P) : List (Obs S T) :=
  w'.trace.take (w'.trace.length - w.trace.length)

/-- The number of transitions fired so far. -/
def firings (w : World S T E P) : ℕ := w.trace.countP fun o => o matches .fire ..

/-- The number of activations, and of handled events offered once more to an enclosing state. -/
def slips (w : World S T E P) : ℕ :=
  w.trace.countP fun o => o matches .activated _ | .fallThrough ..

@[simp] lemma trace_log (o : Obs S T) (w : World S T E P) : (w.log o).trace = o :: w.trace := rfl

@[simp] lemma data_log (o : Obs S T) (w : World S T E P) : (w.log o).data = w.data := rfl

@[simp] lemma trace_onData (f : Metadata S → Metadata S) (w : World S T E P) :
    (w.onData f).trace = w.trace := rfl

@[simp] lemma data_onData (f : Metadata S → Metadata S) (w : World S T E P) :
    (w.onData f).data = f w.data := rfl

variable {p q : Obs S T → Prop} {w w₁ w' : World S T E P} {o : Obs S T}

lemma Adds.refl (w : World S T E P) : Adds p w w := ⟨[], rfl, by simp⟩

lemma Adds.trans (h : Adds p w w₁) (h' : Adds p w₁ w') : Adds p w w' := by
  obtain ⟨l, hl, hp⟩ := h
  obtain ⟨l', hl', hp'⟩ := h'
  refine ⟨l' ++ l, by rw [hl', hl, List.append_assoc], fun o ho => ?_⟩
  rcases List.mem_append.mp ho with ho | ho
  · exact hp' o ho
  · exact hp o ho

instance : Std.Refl (Adds p : World S T E P → World S T E P → Prop) := ⟨Adds.refl⟩

instance : IsTrans (World S T E P) (Adds p) := ⟨fun _ _ _ => Adds.trans⟩

lemma Adds.of_eq (h : w'.trace = w.trace) : Adds p w w' := ⟨[], h, by simp⟩

lemma Adds.of_cons (h : w'.trace = o :: w.trace) (ho : p o) : Adds p w w' :=
  ⟨[o], h, by simpa using ho⟩

lemma Adds.mono (h : Adds p w w') (hpq : ∀ o, p o → q o) : Adds q w w' := by
  obtain ⟨l, hl, hp⟩ := h
  exact ⟨l, hl, fun o ho => hpq o (hp o ho)⟩

lemma Adds.extends (h : Adds p w w') : w.Extends w' := h.mono fun _ _ => trivial

lemma Extends.mem (h : w.Extends w') (ho : o ∈ w.trace) : o ∈ w'.trace := by
  obtain ⟨l, hl, -⟩ := h
  rw [hl]
  exact List.mem_append_right _ ho

lemma extends_log (w : World S T E P) (o : Obs S T) : w.Extends (w.log o) :=
  Adds.of_cons rfl trivial

lemma adds_perform {a : Option (Action S P)} (ho : p o) : Adds p w (w.perform o a) := by
  cases a with
  | none => exact Adds.refl w
  | some f => exact Adds.of_cons rfl ho

/-! ### What was observed since -/

lemma Extends.trace_eq (h : w.Extends w') : w'.trace = w.since w' ++ w.trace := by
  obtain ⟨l, hl, -⟩ := h
  simp [since, hl]

lemma since_eq {l : List (Obs S T)} (h : w'.trace = l ++ w.trace) : w.since w' = l := by
  simp [since, h]

@[simp] lemma since_self (w : World S T E P) : w.since w = [] := since_eq rfl

lemma since_log (w : World S T E P) (o : Obs S T) : w.since (w.log o) = [o] := since_eq rfl

lemma since_trans (h : w.Extends w₁) (h' : w₁.Extends w') :
    w.since w' = w₁.since w' ++ w.since w₁ :=
  since_eq (by rw [h'.trace_eq, h.trace_eq, List.append_assoc])

lemma Adds.since (h : Adds p w w') : ∀ o ∈ w.since w', p o := by
  obtain ⟨l, hl, hp⟩ := h
  rwa [since_eq hl]

lemma Extends.firings_le (h : w.Extends w') : w.firings ≤ w'.firings := by
  obtain ⟨l, hl, -⟩ := h
  simp [firings, hl]

lemma Extends.slips_le (h : w.Extends w') : w.slips ≤ w'.slips := by
  obtain ⟨l, hl, -⟩ := h
  simp [slips, hl]

end World

/-! ### Under the invariant rule -/

variable [DecidableEq S] {c : Chart S T E P} {p : Obs S T → Prop} {w : World S T E P} {s : S}

lemma adds_deactivateData (hp : p (.deactivated s)) : World.Adds p w (c.deactivateData s w) := by
  unfold Chart.deactivateData
  cases w.data.getData s with
  | none => exact World.Adds.refl w
  | some d =>
      simp only
      split
      · exact World.Adds.of_eq rfl
      · exact World.Adds.of_cons rfl hp

lemma adds_scheduleTimeouts (hp : ∀ id now delay, p (.scheduled id s now delay)) :
    World.Adds p w (c.scheduleTimeouts s w) := by
  refine rel_foldl (fun w t => ?_) _ w
  unfold Chart.scheduleTimeout
  split
  · exact World.Adds.refl w
  · split
    · exact World.Adds.of_cons rfl (hp _ _ _)
    · exact World.Adds.refl w

omit [DecidableEq S] in
lemma adds_cancelTimeouts (hp : ∀ id, p (.invalidated id)) :
    World.Adds p w (Chart.cancelTimeouts s w) := by
  refine rel_foldl (fun w id => ?_) _ w
  exact World.Adds.of_cons rfl (hp id)

/-- What the methods observe besides the events offered twice, while no transition fires, is left to
`hrest`. -/
lemma steady_adds {Es : Set (Option E)} (hnull : none ∈ Es)
    (hfall : ∀ s, ∀ e ∈ Es, p (.fallThrough s e.isSome))
    (hrest : ∀ o, ¬ (o matches .fire .. | .effect _ | .fallThrough ..) → p o) :
    Steady c Es (World.Adds p) where
  null := hnull
  refl := World.Adds.refl
  trans := World.Adds.trans
  fallThrough s _ e he := World.Adds.of_cons rfl (hfall s e he)
  bracket n w w' h := by
    refine (World.Adds.trans ?_ h).trans ?_
    · exact World.Adds.of_cons rfl (hrest _ (by simp))
    · exact World.Adds.of_cons rfl (hrest _ (by simp))
  entry _ _ := World.adds_perform (hrest _ (by simp))
  doing _ _ := World.adds_perform (hrest _ (by simp))
  exit _ _ := World.adds_perform (hrest _ (by simp))
  activateData _ _ _ := World.Adds.of_cons rfl (hrest _ (by simp))
  arrive _ _ _ _ := World.Adds.trans (World.Adds.of_cons rfl (hrest _ (by simp)))
    (adds_scheduleTimeouts fun _ _ _ => hrest _ (by simp))
  leave _ _ _ := (adds_cancelTimeouts fun _ => hrest _ (by simp)).trans
    (adds_deactivateData (hrest _ (by simp)))
  registerRegion _ _ _ _ := World.Adds.of_eq rfl
  clearStateset _ _ _ := World.Adds.of_eq rfl
  clearCurrent _ _ _ := World.Adds.of_eq rfl
  storeHistory _ _ w w' _ _ h := by
    rcases Chart.returns_storeHistory h with rfl | ⟨_, _, _, _, _, _, _, rfl⟩
    · exact World.Adds.refl _
    · exact World.Adds.of_eq rfl

/-- What the methods observe besides the firings and the events offered twice is left to `hrest`. -/
lemma compatible_adds {Es : Set (Option E)} (hnull : none ∈ Es)
    (hfire : ∀ t m w, ∀ e ∈ Es, Transition.triggered c t e w = true → p (.fire t m))
    (hfall : ∀ s, ∀ e ∈ Es, p (.fallThrough s e.isSome))
    (hrest : ∀ o, ¬ (o matches .fire .. | .fallThrough ..) → p o) :
    Compatible c Es (World.Adds p) where
  toSteady := steady_adds hnull hfall fun o ho => hrest o <| by cases o <;> simp_all
  fire t w e he ht := World.Adds.of_cons rfl (hfire t w.data w e he ht)
  fired _ _ _ := World.Adds.of_cons rfl (hrest _ (by simp))
  effect _ _ := World.adds_perform (hrest _ (by simp))

variable (c) in
/-- No method forgets an observation. -/
lemma compatible_extends : Compatible c Set.univ World.Extends :=
  compatible_adds trivial (fun _ _ _ _ _ _ => trivial) (fun _ _ _ => trivial) fun _ _ => trivial

end CppStatecharts
