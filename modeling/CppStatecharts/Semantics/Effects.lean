import CppStatecharts.Semantics.Inversion

/-!
What can be read of the metadata after each elementary change.

* `Metadata.isActive_activate` to `Metadata.stateset_deactivate`: the writes of `Metadata.cpp`.
* `Metadata.Agree`: two metadata that differ in their timeout entries only; scheduling timeouts
  leaves such a one (`agree_scheduleTimeouts`), and cancelling them changes nothing
  (`data_cancelTimeouts`).
* `isActive_arrive` to `stateset_storeHistory`: the changes the methods are made of.
* `Chart.ActionsKeepData`: the client's actions do not touch the metadata.
-/

namespace CppStatecharts

namespace Metadata

variable {S : Type} [DecidableEq S] {m m' : Metadata S} {s x p : S} {b : Bool}

/-! ### Writes to the metadata -/

lemma isActive_put {d : Option (StateRuntimedata S)} : (m.put s d).isActive x
    = if x = s then (d.map (·.active)).getD false else m.isActive x := by
  by_cases h : x = s
  · subst h
    cases d <;> simp [isActive]
  · simp [h, isActive_congr (getData_put_of_ne h)]

lemma current_put {d : Option (StateRuntimedata S)} : (m.put s d).current x
    = if x = s then d.bind (·.currentState) else m.current x := by
  by_cases h : x = s
  · subst h
    simp [current]
  · simp [h, current_congr (getData_put_of_ne h)]

lemma stateset_put {d : Option (StateRuntimedata S)} : (m.put s d).stateset x
    = if x = s then (d.map (·.stateset)).getD [] else m.stateset x := by
  by_cases h : x = s
  · subst h
    simp [stateset]
  · simp [h, stateset_congr (getData_put_of_ne h)]

lemma isActive_modify {f : StateRuntimedata S → StateRuntimedata S}
    (hf : ∀ d, (f d).active = d.active) : (m.modify s f).isActive x = m.isActive x := by
  unfold modify
  cases h : m.getData s with
  | none => rfl
  | some d =>
      by_cases hx : x = s
      · simp [hx, hf, isActive, h]
      · simp [isActive_put, hx]

lemma current_modify {f : StateRuntimedata S → StateRuntimedata S} : (m.modify s f).current x
    = if x = s then (m.getData s).bind fun d => (f d).currentState else m.current x := by
  unfold modify
  cases h : m.getData s with
  | none =>
      by_cases hx : x = s
      · simp [hx, current, h]
      · simp [hx]
  | some d => simp [current_put]

lemma stateset_modify {f : StateRuntimedata S → StateRuntimedata S} : (m.modify s f).stateset x
    = if x = s then ((m.getData s).map fun d => (f d).stateset).getD [] else m.stateset x := by
  unfold modify
  cases h : m.getData s with
  | none =>
      by_cases hx : x = s
      · simp [hx, stateset, h]
      · simp [hx]
  | some d => simp [stateset_put]

lemma current_modify_of_eq {f : StateRuntimedata S → StateRuntimedata S}
    (hf : ∀ d, (f d).currentState = d.currentState) : (m.modify s f).current x = m.current x := by
  rw [current_modify]
  split
  · simp [*, current]
  · rfl

lemma stateset_modify_of_eq {f : StateRuntimedata S → StateRuntimedata S}
    (hf : ∀ d, (f d).stateset = d.stateset) : (m.modify s f).stateset x = m.stateset x := by
  rw [stateset_modify]
  split
  · simp [*, stateset]
  · rfl

/-- The record `Metadata::activate` leaves for its state. -/
def activated (m : Metadata S) (s : S) : StateRuntimedata S :=
  { (m.getData s).getD {} with active := true, currentState := none }

lemma activate_eq {q : Option S} : m.activate q s = match q with
    | none => m.put s (some (m.activated s))
    | some p => (m.put s (some (m.activated s))).modify p fun d =>
        { d with currentState := some s } := by
  cases q <;> rfl

@[simp] lemma isActive_activate {q : Option S} :
    (m.activate q s).isActive x = (decide (x = s) || m.isActive x) := by
  have h : (m.put s (some (m.activated s))).isActive x = (decide (x = s) || m.isActive x) := by
    rw [isActive_put]
    by_cases hx : x = s <;> simp [hx, activated]
  cases q with
  | none => rw [activate_eq, h]
  | some p => rw [activate_eq, ← h]; exact isActive_modify fun _ => rfl

lemma current_activate (hp : p ≠ s) : (m.activate (some p) s).current x
    = if x = s then none else if x = p ∧ (m.getData p).isSome then some s else m.current x := by
  rw [activate_eq]
  simp only
  rw [current_modify, getData_put_of_ne hp, current_put]
  by_cases hx : x = p
  · subst hx
    cases hd : m.getData x <;> simp [hp, current, hd]
  · simp [hx, activated]

lemma current_activate_none : (m.activate none s).current x
    = if x = s then none else m.current x := by
  rw [activate_eq]
  simp [current_put, activated]

@[simp] lemma stateset_activate {q : Option S} : (m.activate q s).stateset x = m.stateset x := by
  have h : (m.put s (some (m.activated s))).stateset x = m.stateset x := by
    rw [stateset_put]
    split
    · subst x
      cases hd : m.getData s <;> simp [activated, stateset, hd]
    · rfl
  cases q with
  | none => rw [activate_eq, h]
  | some p => rw [activate_eq, ← h]; exact stateset_modify_of_eq fun _ => rfl

@[simp] lemma isActive_deactivate :
    (m.deactivate b s).isActive x = (!decide (x = s) && m.isActive x) := by
  cases b
  · by_cases hx : x = s <;> simp [deactivate, isActive_put, hx]
  · by_cases hx : x = s
    · subst hx
      cases hd : m.getData x <;> simp [deactivate, isActive, hd]
    · simp [deactivate, hx, isActive_congr (getData_modify_of_ne hx)]

lemma current_deactivate :
    (m.deactivate b s).current x = if x = s ∧ b = false then none else m.current x := by
  cases b
  · simp [deactivate, current_put]
  · simp only [deactivate, ↓reduceIte, Bool.true_eq_false, and_false]
    exact current_modify_of_eq fun _ => rfl

lemma stateset_deactivate :
    (m.deactivate b s).stateset x = if x = s ∧ b = false then [] else m.stateset x := by
  cases b
  · simp [deactivate, stateset_put]
  · simp only [deactivate, ↓reduceIte, Bool.true_eq_false, and_false]
    exact stateset_modify_of_eq fun _ => rfl

@[simp] lemma isActive_createRuntimedata :
    (m.createRuntimedata s).isActive x = m.isActive x := by
  unfold createRuntimedata
  cases hd : m.getData s with
  | some d => rfl
  | none =>
      simp only [isActive_put]
      split
      · subst x
        simp [isActive, hd]
      · rfl

@[simp] lemma current_createRuntimedata :
    (m.createRuntimedata s).current x = m.current x := by
  unfold createRuntimedata
  cases hd : m.getData s with
  | some d => rfl
  | none =>
      simp only [current_put]
      split
      · subst x
        simp [current, hd]
      · rfl

@[simp] lemma stateset_createRuntimedata :
    (m.createRuntimedata s).stateset x = m.stateset x := by
  unfold createRuntimedata
  cases hd : m.getData s with
  | some d => rfl
  | none =>
      simp only [stateset_put]
      split
      · subst x
        simp [stateset, hd]
      · rfl

/-! ### Equal up to timeouts -/

/-- The two metadata differ in the timeout entries of their records only. -/
def Agree (m m' : Metadata S) : Prop := ∀ x, ∃ f : List ℕ → List ℕ, m'.getData x
  = (m.getData x).map fun d => { d with timeoutEvents := f d.timeoutEvents }

omit [DecidableEq S] in
lemma agree_refl (m : Metadata S) : Agree m m := fun x => ⟨id, by simp⟩

omit [DecidableEq S] in
lemma Agree.trans {m'' : Metadata S} (h : Agree m m') (h' : Agree m' m'') : Agree m m'' := by
  intro x
  obtain ⟨f, hf⟩ := h x
  obtain ⟨g, hg⟩ := h' x
  exact ⟨g ∘ f, by simp [hg, hf, Function.comp_def]⟩

lemma agree_modify (f : List ℕ → List ℕ) :
    Agree m (m.modify s fun d => { d with timeoutEvents := f d.timeoutEvents }) := by
  intro x
  by_cases hx : x = s
  · subst hx
    exact ⟨f, getData_modify_self⟩
  · exact ⟨id, by simp [getData_modify_of_ne hx]⟩

omit [DecidableEq S] in
lemma Agree.isActive (h : Agree m m') : m'.isActive x = m.isActive x := by
  obtain ⟨f, hf⟩ := h x
  cases hd : m.getData x <;> simp [Metadata.isActive, hf, hd]

omit [DecidableEq S] in
lemma Agree.current (h : Agree m m') : m'.current x = m.current x := by
  obtain ⟨f, hf⟩ := h x
  cases hd : m.getData x <;> simp [Metadata.current, hf, hd]

omit [DecidableEq S] in
lemma Agree.stateset (h : Agree m m') : m'.stateset x = m.stateset x := by
  obtain ⟨f, hf⟩ := h x
  cases hd : m.getData x <;> simp [Metadata.stateset, hf, hd]

omit [DecidableEq S] in
lemma Agree.isSome_getData (h : Agree m m') :
    (m'.getData x).isSome = (m.getData x).isSome := by
  obtain ⟨f, hf⟩ := h x
  simp [hf]

end Metadata

variable {S T E P : Type} [DecidableEq S] {c : Chart S T E P}
variable {w w' : World S T E P} {s x p n r h : S}

/-! ### The changes the methods are made of -/

variable (c s w) in
lemma agree_scheduleTimeout (t : T) : w.data.Agree (c.scheduleTimeout s w t).data := by
  unfold Chart.scheduleTimeout
  split
  · exact Metadata.agree_refl _
  · split
    · exact Metadata.agree_modify (· ++ [w.timers.nextId])
    · exact Metadata.agree_refl _

variable (c s w) in
lemma agree_scheduleTimeouts : w.data.Agree (c.scheduleTimeouts s w).data := by
  unfold Chart.scheduleTimeouts
  induction c.transitions s generalizing w with
  | nil => exact Metadata.agree_refl _
  | cons t l ih => exact (agree_scheduleTimeout c w s t).trans (ih _)

omit [DecidableEq S] in
@[simp] lemma data_cancelTimeouts : (Chart.cancelTimeouts s w).data = w.data := by
  unfold Chart.cancelTimeouts
  generalize w.data.timeouts s = l
  induction l generalizing w with
  | nil => rfl
  | cons id l ih => exact ih

@[simp] lemma data_activateData :
    (c.activateData s w).data = w.data.activate (c.context s) s := rfl

@[simp] lemma isActive_arrive :
    (c.arrive s w).data.isActive x = (decide (x = s) || w.data.isActive x) :=
  (agree_scheduleTimeouts c _ s).isActive.trans Metadata.isActive_activate

lemma current_arrive : (c.arrive s w).data.current x = (c.activateData s w).data.current x :=
  (agree_scheduleTimeouts c _ s).current

@[simp] lemma stateset_arrive : (c.arrive s w).data.stateset x = w.data.stateset x :=
  (agree_scheduleTimeouts c _ s).stateset.trans Metadata.stateset_activate

/-- The current state of the context is the state activated last. -/
lemma current_activateData (hp : c.context s = some p) : (c.activateData s w).data.current x
    = if x = s then none else if x = p ∧ (w.data.getData p).isSome then some s
      else w.data.current x := by
  rw [data_activateData, hp]
  exact Metadata.current_activate fun h => Forest.ne_of_parent (F := c.forest) hp h.symm

@[simp] lemma isActive_deactivateData :
    (c.deactivateData s w).data.isActive x = (!decide (x = s) && w.data.isActive x) := by
  unfold Chart.deactivateData
  cases hd : w.data.getData s with
  | none =>
      by_cases hx : x = s
      · subst hx
        simp [Metadata.isActive, hd]
      · simp [hx]
  | some d =>
      simp only
      split <;> simp [World.onData, World.log]

lemma current_deactivateData : (c.deactivateData s w).data.current x
    = if x = s ∧ (c.kind s).isHistory = false then none else w.data.current x := by
  unfold Chart.deactivateData
  cases hd : w.data.getData s with
  | none =>
      by_cases hx : x = s
      · subst hx
        simp [Metadata.current, hd]
      · simp [hx]
  | some d =>
      simp only
      split <;> simp [World.onData, World.log, Metadata.current_deactivate]

lemma stateset_deactivateData : (c.deactivateData s w).data.stateset x
    = if x = s ∧ (c.kind s).isHistory = false then [] else w.data.stateset x := by
  unfold Chart.deactivateData
  cases hd : w.data.getData s with
  | none =>
      by_cases hx : x = s
      · subst hx
        simp [Metadata.stateset, hd]
      · simp [hx]
  | some d =>
      simp only
      split <;> simp [World.onData, World.log, Metadata.stateset_deactivate]

@[simp] lemma isActive_leave :
    (c.leave s w).data.isActive x = (!decide (x = s) && w.data.isActive x) := by
  rw [Chart.leave, isActive_deactivateData, data_cancelTimeouts]

lemma current_leave : (c.leave s w).data.current x
    = if x = s ∧ (c.kind s).isHistory = false then none else w.data.current x := by
  rw [Chart.leave, current_deactivateData, data_cancelTimeouts]

lemma stateset_leave : (c.leave s w).data.stateset x
    = if x = s ∧ (c.kind s).isHistory = false then [] else w.data.stateset x := by
  rw [Chart.leave, stateset_deactivateData, data_cancelTimeouts]

@[simp] lemma isActive_registerRegion :
    (Chart.registerRegion n r w).data.isActive x = w.data.isActive x := by
  rw [Chart.registerRegion, World.onData]
  exact (Metadata.isActive_modify fun d => by split <;> rfl).trans
    Metadata.isActive_createRuntimedata

@[simp] lemma current_registerRegion :
    (Chart.registerRegion n r w).data.current x = w.data.current x := by
  rw [Chart.registerRegion, World.onData]
  exact (Metadata.current_modify_of_eq fun d => by split <;> rfl).trans
    Metadata.current_createRuntimedata

lemma stateset_registerRegion : (Chart.registerRegion n r w).data.stateset x
    = if x = n ∧ r ∉ w.data.stateset n then w.data.stateset n ++ [r] else w.data.stateset x := by
  simp only [Chart.registerRegion, World.onData]
  rw [Metadata.stateset_modify, Metadata.stateset_createRuntimedata,
    Metadata.getData_createRuntimedata_self]
  by_cases hx : x = n
  · subst hx
    by_cases hr : r ∈ w.data.stateset x
    · cases hd : w.data.getData x <;> simp_all [Metadata.stateset]
    · cases hd : w.data.getData x <;> simp_all [Metadata.stateset]
  · simp [hx]

@[simp] lemma isActive_clearStateset :
    (Chart.clearStateset n w).data.isActive x = w.data.isActive x :=
  Metadata.isActive_modify fun _ => rfl

@[simp] lemma current_clearStateset :
    (Chart.clearStateset n w).data.current x = w.data.current x :=
  Metadata.current_modify_of_eq fun _ => rfl

lemma stateset_clearStateset :
    (Chart.clearStateset n w).data.stateset x = if x = n then [] else w.data.stateset x := by
  refine Metadata.stateset_modify.trans ?_
  split
  · cases w.data.getData n <;> rfl
  · rfl

@[simp] lemma isActive_clearCurrent :
    (Chart.clearCurrent s w).data.isActive x = w.data.isActive x :=
  Metadata.isActive_modify fun _ => rfl

@[simp] lemma stateset_clearCurrent :
    (Chart.clearCurrent s w).data.stateset x = w.data.stateset x :=
  Metadata.stateset_modify_of_eq fun _ => rfl

lemma current_clearCurrent :
    (Chart.clearCurrent s w).data.current x = if x = s then none else w.data.current x := by
  refine Metadata.current_modify.trans ?_
  split
  · cases w.data.getData s <;> rfl
  · rfl

lemma isActive_storeHistory {u : PUnit} (hs : Returns (c.storeHistory h) w u w') :
    w'.data.isActive x = w.data.isActive x := by
  rcases Chart.returns_storeHistory hs with rfl | ⟨_, _, _, -, -, -, -, rfl⟩
  · rfl
  · exact Metadata.isActive_modify fun _ => rfl

lemma current_storeHistory {u : PUnit} (hs : Returns (c.storeHistory h) w u w') :
    w'.data.current x = w.data.current x := by
  rcases Chart.returns_storeHistory hs with rfl | ⟨_, _, _, -, -, -, -, rfl⟩
  · rfl
  · exact Metadata.current_modify_of_eq fun _ => rfl

lemma stateset_storeHistory {u : PUnit} (hs : Returns (c.storeHistory h) w u w') (hx : x ≠ h) :
    w'.data.stateset x = w.data.stateset x := by
  rcases Chart.returns_storeHistory hs with rfl | ⟨_, _, _, -, -, -, -, rfl⟩
  · rfl
  · exact Metadata.stateset_congr (Metadata.getData_modify_of_ne hx)

/-! ### The client's actions -/

/-- The client's actions do not touch the metadata. -/
structure Chart.ActionsKeepData (c : Chart S T E P) : Prop where
  entry : ∀ {s f}, c.entryAction s = some f → ∀ m p, (f m p).1 = m
  doing : ∀ {s f}, c.doAction s = some f → ∀ m p, (f m p).1 = m
  exit : ∀ {s f}, c.exitAction s = some f → ∀ m p, (f m p).1 = m
  effect : ∀ {t f}, c.action t = some f → ∀ m p, (f m p).1 = m

omit [DecidableEq S] in
lemma data_perform {o : Obs S T} {a : Option (Action S P)}
    (ha : ∀ f, a = some f → ∀ m p, (f m p).1 = m) : (w.perform o a).data = w.data := by
  cases a with
  | none => rfl
  | some f => exact ha f rfl _ _

namespace Chart.ActionsKeepData

variable (hc : c.ActionsKeepData) {t : T}

include hc

omit [DecidableEq S] in
@[simp] lemma data_entry : (w.perform (.entry s) (c.entryAction s)).data = w.data :=
  data_perform fun _ => hc.entry

omit [DecidableEq S] in
@[simp] lemma data_doing : (w.perform (.doing s) (c.doAction s)).data = w.data :=
  data_perform fun _ => hc.doing

omit [DecidableEq S] in
@[simp] lemma data_exit : (w.perform (.exit s) (c.exitAction s)).data = w.data :=
  data_perform fun _ => hc.exit

omit [DecidableEq S] in
@[simp] lemma data_effect : (w.perform (.effect t) (c.action t)).data = w.data :=
  data_perform fun _ => hc.effect

omit [DecidableEq S] in
@[simp] lemma data_greet : (c.greet s w).data = w.data := by
  rw [Chart.greet, hc.data_doing, hc.data_entry]

@[simp] lemma data_visit : (c.visit s w).data = (c.activateData s w).data := by
  rw [Chart.visit, hc.data_entry]

end Chart.ActionsKeepData

end CppStatecharts
