import CppStatecharts.Model.System
import CppStatecharts.Semantics.Relabel
import CppStatecharts.Semantics.Trace
import CppStatecharts.Semantics.Rule

/-!
Which parts of the code touch the timers.

* `World.Quiet`: a change that neither touches the timers nor ends an activation, and that leaves no
  mark of such a thing.
* `Chart.ActionsKeepTimers`: the client's actions leave the active flags and the timeout entries of
  the metadata alone.
* `compatible_of_quiet`: for such clients the invariant rule reduces to the quiet changes, the
  scheduling of one timeout by an active state, and the leaving of a state.
* `World.Silent`, `compatible_of_silent`: the same for clients that leave alone the timeout entries,
  but not necessarily the active flags.
-/

namespace CppStatecharts

variable {S T E P : Type} [DecidableEq S]

namespace Metadata

variable {m : Metadata S} {s x : S} {b : Bool}

lemma timeouts_put {d : Option (StateRuntimedata S)} : (m.put s d).timeouts x
    = if x = s then (d.map (·.timeoutEvents)).getD [] else m.timeouts x := by
  by_cases h : x = s
  · subst h
    simp [timeouts]
  · simp [h, timeouts_congr (getData_put_of_ne h)]

lemma timeouts_modify {f : StateRuntimedata S → StateRuntimedata S} : (m.modify s f).timeouts x
    = if x = s then ((m.getData s).map fun d => (f d).timeoutEvents).getD [] else m.timeouts x := by
  cases h : m.getData s with
  | none =>
      by_cases hx : x = s
      · simp [hx, modify, timeouts, h]
      · simp [hx, modify, h]
  | some d => simp [modify, h, timeouts_put]

lemma timeouts_modify_of_eq {f : StateRuntimedata S → StateRuntimedata S}
    (hf : ∀ d, (f d).timeoutEvents = d.timeoutEvents) :
    (m.modify s f).timeouts x = m.timeouts x := by
  rw [timeouts_modify]
  split
  · simp [*, timeouts]
  · rfl

@[simp] lemma timeouts_activate {q : Option S} : (m.activate q s).timeouts x = m.timeouts x := by
  have h : (m.put s (some (m.activated s))).timeouts x = m.timeouts x := by
    rw [timeouts_put]
    split
    · subst x
      cases hd : m.getData s <;> simp [activated, timeouts, hd]
    · rfl
  cases q with
  | none => rw [activate_eq, h]
  | some p => rw [activate_eq, ← h]; exact timeouts_modify_of_eq fun _ => rfl

@[simp] lemma timeouts_createRuntimedata :
    (m.createRuntimedata s).timeouts x = m.timeouts x := by
  cases hd : m.getData s with
  | some d => simp [createRuntimedata, hd]
  | none =>
      simp only [createRuntimedata, hd, timeouts_put]
      split
      · subst x
        simp [timeouts, hd]
      · rfl

lemma timeouts_deactivate :
    (m.deactivate b s).timeouts x = if x = s ∧ b = false then [] else m.timeouts x := by
  cases b
  · simp [deactivate, timeouts_put]
  · simp only [deactivate, ↓reduceIte, Bool.true_eq_false, and_false]
    exact timeouts_modify_of_eq fun _ => rfl

end Metadata

/-! ### Quiet changes -/

/-- The observation is a mark neither of the beginning or the end of a timer's life nor of the end
of an activation. -/
def Obs.quiet : Obs S T → Bool
  | .reset | .deactivated _ | .scheduled .. | .invalidated _ | .dispatched .. => false
  | _ => true

variable (c : Chart S T E P)

/-- The change neither touches the timers nor ends an activation, nor does it begin one of a state
that is active, unless this is a pseudo-state. -/
structure World.Quiet (w w' : World S T E P) : Prop where
  timers : w'.timers = w.timers
  dataId : w'.dataId = w.dataId
  timeouts : ∀ x, w'.data.timeouts x = w.data.timeouts x
  active : ∀ x, w.data.isActive x = true → w'.data.isActive x = true
  trace : ∃ l, w'.trace = l ++ w.trace ∧ ∀ o ∈ l, o.quiet = true
    ∧ ∀ s, o = .activated s → (c.kind s).isPseudo = true ∨ w.data.isActive s = false

namespace World.Quiet

variable {c} {w w₁ w' : World S T E P} {o : Obs S T}

omit [DecidableEq S] in
lemma refl (w : World S T E P) : w.Quiet c w :=
  ⟨rfl, rfl, fun _ => rfl, fun _ => id, [], rfl, by simp⟩

omit [DecidableEq S] in
lemma log (ho : o.quiet = true)
    (ha : ∀ s, o = .activated s → (c.kind s).isPseudo = true ∨ w.data.isActive s = false) :
    w.Quiet c (w.log o) :=
  ⟨rfl, rfl, fun _ => rfl, fun _ => id, [o], rfl, by simpa using ⟨ho, ha⟩⟩

omit [DecidableEq S] in
lemma onData {f : Metadata S → Metadata S} (ht : ∀ x, (f w.data).timeouts x = w.data.timeouts x)
    (ha : ∀ x, w.data.isActive x = true → (f w.data).isActive x = true) : w.Quiet c (w.onData f) :=
  ⟨rfl, rfl, ht, ha, [], rfl, by simp⟩

end World.Quiet

/-- The client's actions leave the active flags and the timeout entries alone. -/
structure Chart.ActionsKeepTimers (c : Chart S T E P) : Prop where
  entry : ∀ {s f}, c.entryAction s = some f → ∀ m p x,
    (f m p).1.isActive x = m.isActive x ∧ (f m p).1.timeouts x = m.timeouts x
  doing : ∀ {s f}, c.doAction s = some f → ∀ m p x,
    (f m p).1.isActive x = m.isActive x ∧ (f m p).1.timeouts x = m.timeouts x
  exit : ∀ {s f}, c.exitAction s = some f → ∀ m p x,
    (f m p).1.isActive x = m.isActive x ∧ (f m p).1.timeouts x = m.timeouts x
  effect : ∀ {t f}, c.action t = some f → ∀ m p x,
    (f m p).1.isActive x = m.isActive x ∧ (f m p).1.timeouts x = m.timeouts x

variable {c} {w w' : World S T E P} {s n r h : S} {o : Obs S T}

omit [DecidableEq S] in
lemma quiet_perform {a : Option (Action S P)} (ho : o.quiet = true) (hs : ∀ s, o ≠ .activated s)
    (ha : ∀ f, a = some f → ∀ m p x,
      (f m p).1.isActive x = m.isActive x ∧ (f m p).1.timeouts x = m.timeouts x) :
    w.Quiet c (w.perform o a) := by
  cases a with
  | none => exact World.Quiet.refl w
  | some f =>
      have hf := ha f rfl w.data w.param
      exact ⟨rfl, rfl, fun x => (hf x).2, fun x hx => (hf x).1.trans hx, [o], rfl,
        by simpa [hs] using ho⟩

lemma quiet_activateData (hs : (c.kind s).isPseudo = true ∨ w.data.isActive s = false) :
    w.Quiet c (c.activateData s w) := by
  refine ⟨rfl, rfl, fun x => Metadata.timeouts_activate, fun x hx => ?_, [.activated s], rfl, ?_⟩
  · simp [hx]
  · simpa [Obs.quiet] using hs

lemma quiet_registerRegion : w.Quiet c (Chart.registerRegion n r w) := by
  refine World.Quiet.onData (fun x => ?_) fun x hx => ?_
  · exact (Metadata.timeouts_modify_of_eq fun d => by split <;> rfl).trans
      Metadata.timeouts_createRuntimedata
  · exact isActive_registerRegion.trans hx

lemma quiet_modify {f : StateRuntimedata S → StateRuntimedata S}
    (ht : ∀ d, (f d).timeoutEvents = d.timeoutEvents) (ha : ∀ d, (f d).active = d.active) :
    w.Quiet c (w.onData fun m => m.modify s f) :=
  World.Quiet.onData (fun _ => Metadata.timeouts_modify_of_eq ht)
    fun _ hx => (Metadata.isActive_modify ha).trans hx

lemma quiet_storeHistory {u : PUnit} (hs : Returns (c.storeHistory h) w u w') : w.Quiet c w' := by
  rcases Chart.returns_storeHistory hs with rfl | ⟨_, _, _, -, -, -, -, rfl⟩
  · exact World.Quiet.refl _
  · exact quiet_modify (fun _ => rfl) fun _ => rfl

lemma timers_enter (w : World S T E P) : (Statechart.enter c w).timers = w.timers := by
  unfold Statechart.enter
  split <;> rfl

/-- Entering the chart is about the metadata, whatever the parameter. -/
lemma frame_enter (w : World S T E P) : (Statechart.enter c w).dataId = w.dataId
    ∧ (Statechart.enter c w).paramId = w.paramId ∧ (Statechart.enter c w).param = w.param := by
  unfold Statechart.enter
  split <;> exact ⟨rfl, rfl, rfl⟩

/-! ### Cancelling and scheduling -/

omit [DecidableEq S] in
lemma mem_items_of_cancelTimeout {tm : Timers S E} {id : ℕ} {e : EventQueueEntry S E}
    (he : e ∈ (tm.cancelTimeout id).timeoutQueue.items) : e ∈ tm.timeoutQueue.items := by
  unfold Timers.cancelTimeout at he
  simp only at he
  split at he
  · exact DelayQueue.mem_of_mem_remove he
  · exact he

/-- What cancelling the timeouts of a state changes. -/
structure World.Cancels (ids : List ℕ) (w w' : World S T E P) : Prop where
  data : w'.data = w.data
  dataId : w'.dataId = w.dataId
  nextId : w'.timers.nextId = w.timers.nextId
  now : w'.timers.now = w.timers.now
  items : ∀ e ∈ w'.timers.timeoutQueue.items, e ∈ w.timers.timeoutQueue.items
  invalid : ∀ id, id ∈ w'.timers.invalid ↔ id ∈ ids ∨ id ∈ w.timers.invalid
  trace : ∃ l, w'.trace = l ++ w.trace ∧ ∀ o ∈ l, ∃ id ∈ ids, o = .invalidated id

omit [DecidableEq S] in
lemma cancels_cancelTimeouts (s : S) (w : World S T E P) :
    w.Cancels (w.data.timeouts s) (Chart.cancelTimeouts s w) := by
  unfold Chart.cancelTimeouts
  generalize w.data.timeouts s = ids
  induction ids generalizing w with
  | nil => exact ⟨rfl, rfl, rfl, rfl, fun _ => id, by simp, [], rfl, by simp⟩
  | cons id ids ih =>
      have h := ih (Chart.cancelEntry w id)
      have hinv : ∀ i, i ∈ (Chart.cancelEntry w id).timers.invalid ↔ i = id
        ∨ i ∈ w.timers.invalid := by
        intro i
        unfold Chart.cancelEntry Timers.cancelTimeout
        simp only
        split <;> simp [Timers.markInvalid]
      obtain ⟨l, hl, hids⟩ := h.trace
      refine ⟨h.data, h.dataId, h.nextId.trans ?_, h.now.trans ?_, fun e he => ?_,
        fun i => ?_, l ++ [.invalidated id], ?_, ?_⟩
      · unfold Chart.cancelEntry Timers.cancelTimeout
        simp only
        split <;> rfl
      · unfold Chart.cancelEntry Timers.cancelTimeout
        simp only
        split <;> rfl
      · exact (mem_items_of_cancelTimeout (h.items e he) :
          e ∈ (w.timers.markInvalid id).timeoutQueue.items)
      · rw [List.foldl_cons, h.invalid, hinv, List.mem_cons]
        tauto
      · rw [List.foldl_cons, hl]
        simp [Chart.cancelEntry]
      · intro o ho
        rcases List.mem_append.mp ho with ho | ho
        · obtain ⟨i, hi, rfl⟩ := hids o ho
          exact ⟨i, List.mem_cons_of_mem _ hi, rfl⟩
        · exact ⟨id, List.mem_cons_self, List.mem_singleton.mp ho⟩

/-- What leaving an active state changes. -/
lemma timeouts_leave {x : S} : (c.leave s w).data.timeouts x
    = if x = s ∧ (c.kind s).isHistory = false then [] else w.data.timeouts x := by
  rw [Chart.leave]
  unfold Chart.deactivateData
  rw [data_cancelTimeouts]
  cases hd : w.data.getData s with
  | none =>
      by_cases hx : x = s
      · subst hx
        simp [Metadata.timeouts, hd]
      · simp [hx]
  | some d =>
      simp only
      split <;> simp [World.onData, World.log, Metadata.timeouts_deactivate]

lemma timers_leave : (c.leave s w).timers = (Chart.cancelTimeouts s w).timers
    ∧ (c.leave s w).dataId = (Chart.cancelTimeouts s w).dataId := by
  unfold Chart.leave Chart.deactivateData
  split
  · exact ⟨rfl, rfl⟩
  · simp only
    split <;> exact ⟨rfl, rfl⟩

omit [DecidableEq S] in
/-- Cancelling concerns neither the parameter nor the actions. -/
lemma frame_cancelTimeouts : (Chart.cancelTimeouts s w).paramId = w.paramId
    ∧ (Chart.cancelTimeouts s w).param = w.param
    ∧ Obs.performed (Chart.cancelTimeouts s w).trace = Obs.performed w.trace := by
  unfold Chart.cancelTimeouts
  generalize w.data.timeouts s = ids
  induction ids generalizing w with
  | nil => exact ⟨rfl, rfl, rfl⟩
  | cons id ids ih => exact ih (w := Chart.cancelEntry w id)

lemma paramId_leave : (c.leave s w).paramId = w.paramId := by
  unfold Chart.leave Chart.deactivateData
  split
  · exact frame_cancelTimeouts.1
  · simp only
    split <;> exact frame_cancelTimeouts.1

/-- The marks of leaving a state: last, that it is left, unless it is a history. -/
lemma trace_leave_cases : ∃ l, (∀ o ∈ l, ∃ id ∈ w.data.timeouts s, o = .invalidated id)
    ∧ ((c.leave s w).trace = l ++ w.trace
        ∧ ((c.kind s).isHistory = true ∨ w.data.getData s = none)
      ∨ (c.leave s w).trace = .deactivated s :: (l ++ w.trace) ∧ (c.kind s).isHistory = false) := by
  obtain ⟨l, hl, hids⟩ := (cancels_cancelTimeouts s w).trace
  refine ⟨l, hids, ?_⟩
  unfold Chart.leave Chart.deactivateData
  split
  · rename_i hd
    exact Or.inl ⟨hl, Or.inr (by rwa [data_cancelTimeouts] at hd)⟩
  · simp only
    split
    · exact Or.inl ⟨hl, Or.inl ‹_›⟩
    · rename_i hh
      exact Or.inr ⟨congrArg (_ :: ·) hl, by simpa using hh⟩

/-- The marks of leaving a state, among them that it is left, unless it is a history. -/
lemma trace_leave : ∃ l, (c.leave s w).trace = l ++ w.trace
    ∧ (∀ o ∈ l, o = .deactivated s ∨ ∃ id ∈ w.data.timeouts s, o = .invalidated id)
    ∧ ((c.kind s).isHistory = false → (w.data.getData s).isSome = true → .deactivated s ∈ l) := by
  obtain ⟨l, hids, ⟨hl, hs⟩ | ⟨hl, -⟩⟩ := trace_leave_cases (c := c) (s := s) (w := w)
  · refine ⟨l, hl, fun o ho => Or.inr (hids o ho), fun hh hd => ?_⟩
    rcases hs with hs | hs
    · rw [hs] at hh
      cases hh
    · rw [hs] at hd
      cases hd
  · refine ⟨.deactivated s :: l, hl, fun o ho => ?_, fun _ _ => List.mem_cons_self⟩
    exact (List.mem_cons.mp ho).imp id (hids o)

/-- A round of the loop of `State::activate` does nothing, or schedules an entry. -/
lemma scheduleTimeout_cases (s : S) (w : World S T E P) (t : T) :
    c.scheduleTimeout s w t = w ∨ ∃ ev ms, c.event t = some ev ∧ c.timeout ev = some ms
      ∧ c.scheduleTimeout s w t = { w with
          data := w.data.modify s fun d =>
            { d with timeoutEvents := d.timeoutEvents ++ [w.timers.nextId] }
          timers := w.timers.enqueueTimeout s w.dataId ev w.paramId ms
          trace := .scheduled w.timers.nextId s w.timers.now ms :: w.trace }
      ∧ w.timers.running = true := by
  unfold Chart.scheduleTimeout
  split
  · exact Or.inl rfl
  · rename_i ev ms h
    obtain ⟨ev', he, h⟩ := Option.bind_eq_some_iff.mp h
    obtain ⟨ms', hms, h⟩ := Option.map_eq_some_iff.mp h
    cases h
    split
    · exact Or.inr ⟨_, _, he, hms, rfl, ‹_›⟩
    · exact Or.inl rfl

/-- Scheduling concerns neither the parameter nor the actions. -/
lemma frame_scheduleTimeouts : (c.scheduleTimeouts s w).param = w.param
    ∧ Obs.performed (c.scheduleTimeouts s w).trace = Obs.performed w.trace := by
  unfold Chart.scheduleTimeouts
  induction c.transitions s generalizing w with
  | nil => exact ⟨rfl, rfl⟩
  | cons t l ih =>
      rw [List.foldl_cons, ih.1, ih.2]
      rcases scheduleTimeout_cases (c := c) s w t with h | ⟨_, _, -, -, h, -⟩
      · rw [h]
        exact ⟨rfl, rfl⟩
      · rw [h]
        exact ⟨rfl, rfl⟩

/-! ### The invariant rule for timers -/

omit [DecidableEq S] in
@[simp] lemma paramId_perform {a : Option (Action S P)} :
    (w.perform o a).paramId = w.paramId := by
  cases a <;> rfl

lemma paramId_storeHistory {u : PUnit} (hs : Returns (c.storeHistory h) w u w') :
    w'.paramId = w.paramId := by
  rcases Chart.returns_storeHistory hs with rfl | ⟨_, _, _, -, -, -, -, rfl⟩ <;> rfl

/-- A preorder that contains the quiet changes, the scheduling of one timeout of an active state and
the leaving of a state is kept by every method, when the actions do not touch the timers. -/
lemma compatible_of_quiet {R : World S T E P → World S T E P → Prop} (hc : c.ActionsKeepTimers)
    (htrans : ∀ {w₁ w₂ w₃}, R w₁ w₂ → R w₂ w₃ → R w₁ w₃)
    (hquiet : ∀ w w', w.Quiet c w' → w'.paramId = w.paramId → R w w')
    (hschedule : ∀ s w t, (c.kind s).isPseudo = false → w.data.isActive s = true →
      R w (c.scheduleTimeout s w t))
    (hleave : ∀ s w, w.data.isActive s = true → R w (c.leave s w)) :
    Compatible c Set.univ R where
  null := trivial
  refl w := hquiet w w (World.Quiet.refl w) rfl
  trans := htrans
  fire _ _ _ _ _ := hquiet _ _ (World.Quiet.log rfl (by simp)) rfl
  fired _ _ _ := hquiet _ _ (World.Quiet.log rfl (by simp)) rfl
  fallThrough _ _ _ _ := hquiet _ _ (World.Quiet.log rfl (by simp)) rfl
  bracket _ _ _ h := htrans (hquiet _ _ (World.Quiet.log rfl (by simp)) rfl) <|
    htrans h (hquiet _ _ (World.Quiet.log rfl (by simp)) rfl)
  effect _ _ := hquiet _ _ (quiet_perform rfl (by simp) fun _ => hc.effect) paramId_perform
  entry _ _ := hquiet _ _ (quiet_perform rfl (by simp) fun _ => hc.entry) paramId_perform
  doing _ _ := hquiet _ _ (quiet_perform rfl (by simp) fun _ => hc.doing) paramId_perform
  exit _ _ := hquiet _ _ (quiet_perform rfl (by simp) fun _ => hc.exit) paramId_perform
  activateData _ _ hs := hquiet _ _ (quiet_activateData (Or.inl hs)) rfl
  arrive s w hs hi := by
    refine htrans (hquiet w (c.activateData s w) (quiet_activateData (Or.inr hi)) rfl) ?_
    -- along the loop over the transitions, the state stays active
    have key : ∀ (l : List T) (w : World S T E P), w.data.isActive s = true →
        R w (l.foldl (c.scheduleTimeout s) w) := by
      intro l
      induction l with
      | nil => exact fun w _ => hquiet w w (World.Quiet.refl w) rfl
      | cons t l ih =>
          intro w hw
          exact htrans (hschedule s w t hs hw)
            (ih _ ((agree_scheduleTimeout c w s t).isActive.trans hw))
    exact key _ _ (by simp)
  leave := hleave
  registerRegion _ _ _ _ := hquiet _ _ quiet_registerRegion rfl
  clearStateset _ _ _ := hquiet _ _ (quiet_modify (fun _ => rfl) fun _ => rfl) rfl
  clearCurrent _ _ _ := hquiet _ _ (quiet_modify (fun _ => rfl) fun _ => rfl) rfl
  storeHistory _ _ _ _ _ _ h := hquiet _ _ (quiet_storeHistory h) (paramId_storeHistory h)

/-! ### The rule for actions that may change the active flags -/

/-- The change touches neither the timers nor the timeout entries. -/
structure World.Silent (w w' : World S T E P) : Prop where
  timers : w'.timers = w.timers
  dataId : w'.dataId = w.dataId
  paramId : w'.paramId = w.paramId
  timeouts : ∀ x, w'.data.timeouts x = w.data.timeouts x

omit [DecidableEq S] in
lemma World.Silent.refl (w : World S T E P) : w.Silent w := ⟨rfl, rfl, rfl, fun _ => rfl⟩

omit [DecidableEq S] in
lemma World.Silent.log (w : World S T E P) (o : Obs S T) : w.Silent (w.log o) :=
  ⟨rfl, rfl, rfl, fun _ => rfl⟩

omit [DecidableEq S] in
lemma World.Silent.perform {a : Option (Action S P)} (ha : ∀ f, a = some f → f.KeepsTimeouts) :
    w.Silent (w.perform o a) := by
  cases a with
  | none => exact World.Silent.refl w
  | some f => exact ⟨rfl, rfl, rfl, ha f rfl w.data w.param⟩

lemma World.Silent.modify {f : StateRuntimedata S → StateRuntimedata S}
    (hf : ∀ d, (f d).timeoutEvents = d.timeoutEvents) : w.Silent (w.onData (·.modify s f)) :=
  ⟨rfl, rfl, rfl, fun _ => Metadata.timeouts_modify_of_eq hf⟩

/-- A preorder that contains the silent changes, the client's actions, the scheduling of one timeout
and the leaving of a state is kept by every method. -/
lemma compatible_of_actions {R : World S T E P → World S T E P → Prop} {Q : Action S P → Prop}
    (hc : c.EveryAction Q) (haction : ∀ w (o : Obs S T) f, Q f → R w (w.perform o (some f)))
    (htrans : ∀ {w₁ w₂ w₃}, R w₁ w₂ → R w₂ w₃ → R w₁ w₃)
    (hsilent : ∀ w w', w.Silent w' → R w w') (hschedule : ∀ s w t, R w (c.scheduleTimeout s w t))
    (hleave : ∀ s w, R w (c.leave s w)) : Compatible c Set.univ R :=
  have hperform : ∀ (w : World S T E P) o {a : Option (Action S P)}, (∀ f, a = some f → Q f) →
      R w (w.perform o a) := fun w o a ha => by
    cases a with
    | none => exact hsilent w w (World.Silent.refl w)
    | some f => exact haction w o f (ha f rfl)
  { null := trivial
    refl w := hsilent w w (World.Silent.refl w)
    trans := htrans
    fire _ _ _ _ _ := hsilent _ _ (World.Silent.log _ _)
    fired _ _ _ := hsilent _ _ (World.Silent.log _ _)
    fallThrough _ _ _ _ := hsilent _ _ (World.Silent.log _ _)
    bracket _ _ _ h := htrans (hsilent _ _ (World.Silent.log _ _)) <|
      htrans h (hsilent _ _ (World.Silent.log _ _))
    effect _ _ := hperform _ _ fun _ => hc.effect
    entry _ _ := hperform _ _ fun _ => hc.entry
    doing _ _ := hperform _ _ fun _ => hc.doing
    exit _ _ := hperform _ _ fun _ => hc.exit
    activateData _ _ _ := hsilent _ _ ⟨rfl, rfl, rfl, fun _ => Metadata.timeouts_activate⟩
    arrive s w _ _ := by
      have hfold := @rel_foldl _ _ R ⟨fun w => hsilent w w (World.Silent.refl w)⟩
        ⟨fun _ _ _ => htrans⟩ (c.scheduleTimeout s) (hschedule s) (c.transitions s)
      exact htrans
        (hsilent w (c.activateData s w) ⟨rfl, rfl, rfl, fun _ => Metadata.timeouts_activate⟩)
        (hfold _)
    leave s w _ := hleave s w
    registerRegion _ _ _ _ := hsilent _ _ ⟨rfl, rfl, rfl, fun _ =>
      (Metadata.timeouts_modify_of_eq fun d => by split <;> rfl).trans
        Metadata.timeouts_createRuntimedata⟩
    clearStateset _ _ _ := hsilent _ _ (World.Silent.modify fun _ => rfl)
    clearCurrent _ _ _ := hsilent _ _ (World.Silent.modify fun _ => rfl)
    storeHistory _ _ _ _ _ _ h := by
      rcases Chart.returns_storeHistory h with rfl | ⟨_, _, _, -, -, -, -, rfl⟩
      · exact hsilent _ _ (World.Silent.refl _)
      · exact hsilent _ _ (World.Silent.modify fun _ => rfl) }

/-- The same when the actions leave the timeout entries alone. -/
lemma compatible_of_silent {R : World S T E P → World S T E P → Prop}
    (hc : c.EveryAction Action.KeepsTimeouts) (htrans : ∀ {w₁ w₂ w₃}, R w₁ w₂ → R w₂ w₃ → R w₁ w₃)
    (hsilent : ∀ w w', w.Silent w' → R w w') (hschedule : ∀ s w t, R w (c.scheduleTimeout s w t))
    (hleave : ∀ s w, R w (c.leave s w)) : Compatible c Set.univ R :=
  compatible_of_actions hc
    (fun w _ _ hf => hsilent w _ (World.Silent.perform fun _ h => Option.some.inj h ▸ hf))
    htrans hsilent hschedule hleave

end CppStatecharts
