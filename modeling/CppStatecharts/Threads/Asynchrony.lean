import CppStatecharts.Semantics.Fuel
import CppStatecharts.Semantics.Simulation
import CppStatecharts.Model.Asynchron
import CppStatecharts.Timers.Frame

/-!
`Statechart::startAsynchron` and `Statechart::dispatchAsynchron` against `start` and `dispatch`, for
a chart without timeouts.

* `World.Alike`: two worlds with the same metadata and parameter, in which the same actions were
  executed; `similar_alike` makes it a simulation.
* `World.Steady`, `compatible_steady`: such a chart never touches the timers.
* `Metadata.flag`, `compatible_candid`: the record of the chart, as long as it exists, is active.
* `System.Asynchronously`, `System.Synchronously`: a client that works through the pool, in any
  interleaving with the threads, and a client that calls.
* `synchronously_of_asynchronously`: once the pool has drained, both have done the same. An action
  that ends the chart behind its back makes a difference: `Secretive.not_synchronously`.
-/

namespace CppStatecharts

variable {S T E P : Type} [DecidableEq S]

/-! ### Alike worlds -/

/-- The same metadata, the same parameter and the same actions so far. -/
structure World.Alike (w v : World S T E P) : Prop where
  data : w.data = v.data
  param : w.param = v.param
  performed : Obs.performed w.trace = Obs.performed v.trace

/-- No transition has a timeout event. -/
def Chart.Timeless (c : Chart S T E P) : Prop := ∀ t ev, c.event t = some ev → c.timeout ev = none

namespace World.Alike

variable {c : Chart S T E P} {w v : World S T E P} {o o' : Obs S T} {s : S}

omit [DecidableEq S] in
lemma log (h : w.Alike v) (ho : o.isAction = false) (ho' : o'.isAction = false) :
    (w.log o).Alike (v.log o') :=
  ⟨h.data, h.param, by simpa [World.log, Obs.performed, ho, ho'] using h.performed⟩

omit [DecidableEq S] in
lemma onData (h : w.Alike v) (f : Metadata S → Metadata S) : (w.onData f).Alike (v.onData f) :=
  ⟨congrArg f h.data, h.param, h.performed⟩

omit [DecidableEq S] in
lemma perform (h : w.Alike v) (o : Obs S T) (a : Option (Action S P)) :
    (w.perform o a).Alike (v.perform o a) := by
  cases a with
  | none => exact h
  | some f =>
      refine ⟨by simp [World.perform, World.log, h.data, h.param],
        by simp [World.perform, World.log, h.data, h.param], ?_⟩
      have hp := h.performed
      simp only [World.perform, World.log, Obs.performed, List.filter_cons] at hp ⊢
      rw [hp]

omit [DecidableEq S] in
lemma cancelTimeouts : (Chart.cancelTimeouts s w).Alike w :=
  ⟨data_cancelTimeouts, frame_cancelTimeouts.2.1, frame_cancelTimeouts.2.2⟩

omit [DecidableEq S] in
lemma symm (h : w.Alike v) : v.Alike w := ⟨h.data.symm, h.param.symm, h.performed.symm⟩

omit [DecidableEq S] in
lemma trans {x : World S T E P} (h : w.Alike v) (h' : v.Alike x) : w.Alike x :=
  ⟨h.data.trans h'.data, h.param.trans h'.param, h.performed.trans h'.performed⟩

lemma deactivateData (h : w.Alike v) : (c.deactivateData s w).Alike (c.deactivateData s v) := by
  unfold Chart.deactivateData
  rw [h.data]
  cases v.data.getData s with
  | none => exact h
  | some d =>
      simp only
      split
      · exact h.onData _
      · exact (h.onData _).log rfl rfl

end World.Alike

namespace Chart.Timeless

variable {c : Chart S T E P} {w : World S T E P}

/-- A chart without timeouts has nothing to schedule. -/
lemma scheduleTimeout (hc : c.Timeless) (s : S) (t : T) : c.scheduleTimeout s w t = w := by
  rcases scheduleTimeout_cases s w t with h | ⟨ev, ms, he, hms, -⟩
  · exact h
  · rw [hc t ev he] at hms
    cases hms

lemma scheduleTimeouts (hc : c.Timeless) (s : S) : c.scheduleTimeouts s w = w := by
  unfold Chart.scheduleTimeouts
  induction c.transitions s with
  | nil => rfl
  | cons t l ih => rw [List.foldl_cons, hc.scheduleTimeout, ih]

end Chart.Timeless

/-- Without timeouts, the methods cannot tell alike worlds apart. -/
lemma similar_alike {c : Chart S T E P} (hc : c.Timeless) : c.Similar World.Alike where
  isActive _ h := by rw [h.data]
  current _ h := by rw [h.data]
  stateset _ h := by rw [h.data]
  isSome _ h := by rw [h.data]
  guardHolds _ h := by simp only [Transition.guardHolds, h.data, h.param]
  triggered _ _ h := by simp only [Transition.triggered, h.data, h.param]
  fire _ h := h.log rfl rfl
  fired _ _ h := h.log rfl rfl
  fallThrough _ _ h := h.log rfl rfl
  entering _ h := h.log rfl rfl
  entered _ h := h.log rfl rfl
  effect _ h := h.perform _ _
  entry _ h := h.perform _ _
  doing _ h := h.perform _ _
  exit _ h := h.perform _ _
  activateData _ h := (h.onData _).log rfl rfl
  scheduleTimeouts s h _ := by rwa [hc.scheduleTimeouts, hc.scheduleTimeouts]
  leave _ h _ :=
    (World.Alike.cancelTimeouts.trans (h.trans World.Alike.cancelTimeouts.symm)).deactivateData
  registerRegion _ _ h := h.onData _
  clearStateset _ h := h.onData _
  clearCurrent _ h := h.onData _
  storeChain _ _ h := h.onData _

/-! ### The timers stand still -/

/-- The timers stay as they are, as long as no timeout entry is noted down. -/
def World.Steady (w w' : World S T E P) : Prop := w'.dataId = w.dataId ∧ w'.paramId = w.paramId
  ∧ ((∀ x, w.data.timeouts x = []) → w'.timers = w.timers ∧ ∀ x, w'.data.timeouts x = [])

variable {c : Chart S T E P}

lemma compatible_steady (hc : c.Timeless) (ha : c.EveryAction Action.KeepsTimeouts) :
    Compatible c Set.univ World.Steady := by
  refine compatible_of_silent ha ?_ ?_ ?_ ?_
  · intro w₁ w₂ w₃ h h'
    refine ⟨h'.1.trans h.1, h'.2.1.trans h.2.1, fun ht => ?_⟩
    obtain ⟨h₁, h₂⟩ := h.2.2 ht
    obtain ⟨h₃, h₄⟩ := h'.2.2 h₂
    exact ⟨h₃.trans h₁, h₄⟩
  · exact fun w w' h => ⟨h.dataId, h.paramId, fun ht =>
      ⟨h.timers, fun x => (h.timeouts x).trans (ht x)⟩⟩
  · intro s w t
    rw [hc.scheduleTimeout]
    exact ⟨rfl, rfl, fun ht => ⟨rfl, ht⟩⟩
  · intro s w
    refine ⟨?_, paramId_leave, fun ht => ?_⟩
    · exact timers_leave.2.trans (cancels_cancelTimeouts s w).dataId
    · have hcancel : Chart.cancelTimeouts s w = w := by simp [Chart.cancelTimeouts, ht]
      refine ⟨by rw [timers_leave.1, hcancel], fun x => ?_⟩
      rw [timeouts_leave]
      split
      · rfl
      · exact ht x

/-! ### The chart is active as long as it has a record -/

namespace Metadata

variable {m : Metadata S} {s x : S}

omit [DecidableEq S] in
/-- Whether there is a record of `s`, and whether it is active. -/
def flag (m : Metadata S) (s : S) : Option Bool := (m.getData s).map (·.active)

omit [DecidableEq S] in
lemma isActive_of_flag (h : m.flag s ≠ some false) (hs : (m.getData s).isSome = true) :
    m.isActive s = true := by
  obtain ⟨d, hd⟩ := Option.isSome_iff_exists.mp hs
  cases hact : d.active
  · exact absurd (by simp [flag, hd, hact]) h
  · simp [isActive, hd, hact]

lemma flag_put {d : Option (StateRuntimedata S)} :
    (m.put s d).flag x = if x = s then d.map (·.active) else m.flag x := by
  by_cases h : x = s
  · subst h
    simp [flag]
  · simp [h, flag, getData_put_of_ne h]

lemma flag_modify {f : StateRuntimedata S → StateRuntimedata S}
    (hf : ∀ d, (f d).active = d.active) : (m.modify s f).flag x = m.flag x := by
  by_cases h : x = s
  · subst h
    simp [flag, Function.comp_def, hf]
  · simp [flag, getData_modify_of_ne h]

lemma flag_activate {p : Option S} :
    (m.activate p s).flag x = if x = s then some true else m.flag x := by
  have h : (m.put s (some (m.activated s))).flag x = if x = s then some true else m.flag x := by
    rw [flag_put]
    rfl
  cases p with
  | none => rw [activate_eq, h]
  | some p => rw [activate_eq, ← h]; exact flag_modify fun _ => rfl

lemma flag_deactivate_of_ne {b : Bool} (h : x ≠ s) : (m.deactivate b s).flag x = m.flag x := by
  simp [flag, getData_deactivate_of_ne h]

lemma flag_createRuntimedata_of_ne (h : x ≠ s) :
    (m.createRuntimedata s).flag x = m.flag x := by
  simp [flag, getData_createRuntimedata_of_ne h]

end Metadata

/-- The action leaves alone whether the chart has a record and whether this record is active. -/
def Action.KeepsFlag (s : S) (f : Action S P) : Prop := ∀ m p, (f m p).1.flag s = m.flag s

namespace World

/-- If the record of the chart, as long as it exists, is active before, then it is so after. -/
def Candid (c : Chart S T E P) (w w' : World S T E P) : Prop :=
  w.data.flag c.root ≠ some false → w'.data.flag c.root ≠ some false

variable {w w' : World S T E P} {s : S}

omit [DecidableEq S] in
lemma Candid.of_eq (h : w'.data.flag c.root = w.data.flag c.root) : w.Candid c w' :=
  fun hw => h ▸ hw

omit [DecidableEq S] in
lemma Candid.perform {a : Option (Action S P)} {o : Obs S T}
    (ha : ∀ f, a = some f → f.KeepsFlag c.root) : w.Candid c (w.perform o a) := by
  cases a with
  | none => exact Candid.of_eq rfl
  | some f => exact Candid.of_eq (ha f rfl w.data w.param)

lemma Candid.modify {f : StateRuntimedata S → StateRuntimedata S}
    (hf : ∀ d, (f d).active = d.active) : w.Candid c (w.onData (·.modify s f)) :=
  Candid.of_eq (Metadata.flag_modify hf)

lemma Candid.activateData : w.Candid c (c.activateData s w) := by
  intro hw
  rw [data_activateData, Metadata.flag_activate]
  split
  · simp
  · exact hw

lemma Candid.scheduleTimeout (t : T) : w.Candid c (c.scheduleTimeout s w t) := by
  rcases scheduleTimeout_cases s w t with h | ⟨_, _, -, -, h, -⟩
  · rw [h]
    exact id
  · rw [h]
    exact Candid.of_eq (Metadata.flag_modify fun _ => rfl)

lemma Candid.arrive : w.Candid c (c.arrive s w) := by
  have hfold := @rel_foldl _ _ (Candid c) ⟨fun _ => id⟩ ⟨fun _ _ _ h h' => h' ∘ h⟩
    (c.scheduleTimeout s) (fun _ => Candid.scheduleTimeout) (c.transitions s)
  exact fun hw => hfold _ (Candid.activateData hw)

/-- A state that is left loses its record, and a history keeps it; the chart is no history. -/
lemma Candid.leave : w.Candid c (c.leave s w) := by
  intro hw
  unfold Chart.leave Chart.deactivateData
  rw [data_cancelTimeouts]
  have hdeact : (w.data.deactivate (c.kind s).isHistory s).flag c.root ≠ some false := by
    by_cases hs : c.root = s
    · subst hs
      simp [Metadata.flag, Metadata.getData_deactivate_self,
        StateKind.isHistory_eq_false_of_isContext (k := c.kind c.root)
          (by rw [(c.kind_statechart _).mpr rfl]; rfl)]
    · rwa [Metadata.flag_deactivate_of_ne hs]
  split
  · simpa using hw
  · simp only
    split <;> simpa [World.onData, World.log] using hdeact

end World

lemma compatible_candid (ha : c.EveryAction (Action.KeepsFlag c.root)) :
    Compatible c Set.univ (World.Candid c) where
  null := trivial
  refl _ := id
  trans h h' := h' ∘ h
  fire _ _ _ _ _ := id
  fired _ _ _ := id
  fallThrough _ _ _ _ := id
  bracket _ _ _ h := h
  effect _ _ := World.Candid.perform fun _ => ha.effect
  entry _ _ := World.Candid.perform fun _ => ha.entry
  doing _ _ := World.Candid.perform fun _ => ha.doing
  exit _ _ := World.Candid.perform fun _ => ha.exit
  activateData _ _ _ := World.Candid.activateData
  arrive _ _ _ _ := World.Candid.arrive
  leave _ _ _ := World.Candid.leave
  registerRegion n r w hn := by
    have hne : c.root ≠ n := by
      rintro rfl
      rw [(c.kind_statechart _).mpr rfl] at hn
      cases hn
    refine World.Candid.of_eq ?_
    exact (Metadata.flag_modify fun d => by split <;> rfl).trans
      (Metadata.flag_createRuntimedata_of_ne hne)
  clearStateset _ _ _ := World.Candid.modify fun _ => rfl
  clearCurrent _ _ _ := World.Candid.modify fun _ => rfl
  storeHistory _ _ _ _ _ _ h := by
    rcases Chart.returns_storeHistory h with rfl | ⟨_, _, _, -, -, -, -, rfl⟩
    · exact id
    · exact World.Candid.modify fun _ => rfl

/-! ### The pool and the caller -/

/-- A step of a thread, or the passing of time. -/
def Op.isThread : Op S E → Bool
  | .tick _ | .expire | .check | .deliver | .work => true
  | _ => false

namespace System

variable [Inhabited P] {σ₀ σ σ' τ : System S T E P} {d p : ℕ} {l : List (Option E)} {op : Op S E}

/-- A client enters the chart through the pool, and then leaves the events `l` to it, which are no
timeouts, in any interleaving with the threads. All entries share the parameter at `p`. -/
inductive Asynchronously (c : Chart S T E P) (d p : ℕ) :
    List (Option E) → System S T E P → System S T E P → Prop
  | start (σ : System S T E P) : Asynchronously c d p [] σ (σ.startAsynchron c d (.given (some p)))
  | dispatch {l σ σ₁} (e : Option E) : Asynchronously c d p l σ σ₁ → e.bind c.timeout = none →
      Asynchronously c d p (l ++ [e]) σ (σ₁.dispatchAsynchron c d e (.given (some p)))
  | thread {l σ σ₁ σ'} (op : Op S E) : Asynchronously c d p l σ σ₁ → op.isThread = true →
      Step c op σ₁ σ' → Asynchronously c d p l σ σ'

/-- The calls of a single client, one after the other, whatever they return or throw. -/
def Synchronously (c : Chart S T E P) : List (Op S E) → System S T E P → System S T E P → Prop
  | [], σ, σ' => σ' = σ
  | op :: l, σ, σ' => ∃ σ₁, Step c op σ σ₁ ∧ Synchronously c l σ₁ σ'

/-- A chart at rest: it runs, and its pool, its worker and its timeout queue are empty. -/
structure Rested (σ : System S T E P) : Prop where
  running : σ.timers.running = true
  pool : σ.pool = []
  worker : σ.worker = none
  queue : σ.timers.timeoutQueue.items = []
  invalid : ∀ id ∈ σ.timers.invalid, id < σ.timers.nextId

lemma Synchronously.snoc {l : List (Op S E)} (h : Synchronously c l σ₀ σ) (hs : Step c op σ σ') :
    Synchronously c (l ++ [op]) σ₀ σ' := by
  induction l generalizing σ₀ with
  | nil => exact ⟨σ', h ▸ hs, rfl⟩
  | cons op' l ih =>
      obtain ⟨σ₁, h₁, h₂⟩ := h
      exact ⟨σ₁, h₁, ih h₂⟩

omit [DecidableEq S] in
lemma Invokes.unique {α : Type} {f : ℕ → Comp (World S T E P) α} (hf : Monotone f) {p : Option ℕ}
    (h : Invokes f d p σ σ') (h' : Invokes f d p σ τ) : σ' = τ := by
  obtain ⟨a, w, hw, rfl⟩ := h
  obtain ⟨b, x, hx, rfl⟩ := h'
  rw [(hw.unique hf hx).2]

/-- A client that calls leaves the chart in one state only. -/
lemma Synchronously.unique {l : List (Op S E)} (hl : ∀ op ∈ l, op.isThread = false)
    (h : Synchronously c l σ₀ σ) (h' : Synchronously c l σ₀ σ') : σ = σ' := by
  induction l generalizing σ₀ with
  | nil => exact h.trans h'.symm
  | cons op l ih =>
      obtain ⟨σ₁, h₁, h₂⟩ := h
      obtain ⟨σ₂, h₁', h₂'⟩ := h'
      have hop := hl op List.mem_cons_self
      have heq : σ₁ = σ₂ := by
        cases op with
        | start d p => exact h₁.unique (Statechart.monotone_start c) h₁'
        | restoreState s d p => exact h₁.unique (Statechart.monotone_restoreState c s) h₁'
        | dispatch d e p => exact h₁.unique (Statechart.monotone_dispatch c e) h₁'
        | _ => cases hop
      subst heq
      exact ih (fun op' h => hl op' (List.mem_cons_of_mem _ h)) h₂ h₂'

/-- The client has submitted the events `l`, and the worker has treated the first of them as a
caller would have. -/
structure Backlog (c : Chart S T E P) (d p : ℕ) (l : List (Option E)) (σ₀ σ : System S T E P) :
    Prop where
  running : σ.timers.running = true
  queue : σ.timers.timeoutQueue.items = []
  invalid : ∀ id ∈ σ.timers.invalid, id < σ.timers.nextId
  waiting : ∀ e ∈ σ.worker.toList ++ σ.pool,
    e.data = d ∧ e.state = c.root ∧ e.param = some p ∧ e.id ∉ σ.timers.invalid
  timeouts : ∀ x, (σ.stores d).timeouts x = []
  sound : (σ.stores d).flag c.root ≠ some false
  caught : ∃ done τ, l = done ++ (σ.worker.toList ++ σ.pool).map (·.event)
    ∧ Synchronously c (done.map (.dispatch d · (some p)))
      (σ₀.put (Statechart.enter c (σ₀.world d p))) τ
    ∧ (σ.world d p).Alike (τ.world d p)

omit [DecidableEq S] [Inhabited P] in
/-- After a call, its metadata and its parameter are the ones it has left. -/
lemma world_put {w : World S T E P} (hd : w.dataId = d) (hp : w.paramId = p) :
    (σ.put w).world d p = w := by
  subst hd hp
  simp [put, world]

omit [DecidableEq S] [Inhabited P] in
lemma put_put {w w' : World S T E P} (hd : w'.dataId = w.dataId) (hp : w'.paramId = w.paramId) :
    (σ.put w).put w' = σ.put w' := by
  simp [put, hd, hp]

/-- To start is to enter the chart and to offer the null event. -/
lemma step_start (hc : c.Timeless) (ha : c.EveryAction Action.KeepsTimeouts)
    (h : Step c (.dispatch d none (some p)) (σ.put (Statechart.enter c (σ.world d p))) σ') :
    Step c (.start d (some p)) σ σ' := by
  obtain ⟨a, w', ⟨n, hn⟩, rfl⟩ := h
  have hworld : (σ.put (Statechart.enter c (σ.world d p))).world d p
      = Statechart.enter c (σ.world d p) :=
    world_put (frame_enter _).1 (frame_enter _).2.1
  simp only [argument, hworld] at hn ⊢
  have hst := (compatible_steady hc ha).dispatch n trivial _ _ _ hn
  exact ⟨a, w', ⟨n, returns_bind.mpr ⟨⟨⟩, _, returns_modify.mpr rfl, hn⟩⟩, put_put hst.1 hst.2.1⟩

/-- A chart without a record does nothing. -/
lemma step_dispatch_of_isSome (h : ((σ.stores d).getData c.root).isSome = false) (e : Option E) :
    Step c (.dispatch d e (some p)) σ σ := by
  refine ⟨.returned false, σ.world d p, ⟨0, ?_⟩, (put_world σ d p).symm⟩
  refine returns_bind.mpr ⟨false, σ.world d p, returns_peek.mpr ⟨h.symm, rfl⟩, ?_⟩
  exact returns_pure.mpr ⟨rfl, rfl⟩

/-! ### The steps of the client and of the threads -/

/-- The beginning of `startAsynchron`. -/
lemma backlog_enter (h₀ : Rested σ₀) :
    Backlog c d p [] σ₀ (σ₀.put (Statechart.enter c (σ₀.world d 0))) := by
  have ht : (Statechart.enter c (σ₀.world d 0)).timers = σ₀.timers := timers_enter _
  have hd : (Statechart.enter c (σ₀.world d 0)).dataId = d := (frame_enter _).1
  refine ⟨?_, ?_, ?_, ?_, fun x => ?_, ?_, [], _, ?_, rfl, ?_⟩
  · simpa [put, ht] using h₀.running
  · simpa [put, ht] using h₀.queue
  · simpa [put, ht] using h₀.invalid
  · simp [put, h₀.worker, h₀.pool]
  · simp only [put, hd, Function.update_self]
    have hreset : ∀ x, (Metadata.reset : Metadata S).timeouts x = [] := fun _ => rfl
    unfold Statechart.enter
    split <;> simp [hreset, World.onData, World.log]
  · simp only [put, hd, Function.update_self]
    unfold Statechart.enter
    split <;> simp [Metadata.flag_activate, World.onData, World.log]
  · simp [put, h₀.worker, h₀.pool]
  · have hparam : ∀ q, (σ₀.put (Statechart.enter c (σ₀.world d q))).params = σ₀.params := by
      intro q
      simp only [put, (frame_enter (c := c) (σ₀.world d q)).2.1,
        (frame_enter (c := c) (σ₀.world d q)).2.2]
      exact Function.update_eq_self _ _
    refine ⟨?_, congrFun ((hparam 0).trans (hparam p).symm) p, ?_⟩
    all_goals
      simp only [world, put, (frame_enter (c := c) _).1, Function.update_self]
      unfold Statechart.enter
      split <;> rfl

lemma Backlog.submit (h : Backlog c d p l σ₀ σ) {e : Option E} (he : e.bind c.timeout = none) :
    Backlog c d p (l ++ [e]) σ₀ (σ.submit c d e (some p)) := by
  obtain ⟨done, τ, hl, hs, hal⟩ := h.caught
  unfold System.submit
  rw [if_pos h.running]
  simp only [he, Option.isSome_none, Bool.false_eq_true, ↓reduceIte]
  refine ⟨h.running, h.queue, fun id hid => (h.invalid id hid).trans (Nat.lt_succ_self _),
    fun e' he' => ?_, h.timeouts, h.sound, done, τ, ?_, hs, hal.data, hal.param,
    hal.performed⟩
  · rw [← List.append_assoc] at he'
    rcases List.mem_append.mp he' with he' | he'
    · exact h.waiting e' he'
    · obtain rfl := List.mem_singleton.mp he'
      exact ⟨rfl, rfl, rfl, fun hid => absurd (h.invalid _ hid) (lt_irrefl _)⟩
  · simp [hl, newEntry]

lemma Backlog.expire (h : Backlog c d p l σ₀ σ) : σ.expire = σ := by
  unfold System.expire DelayQueue.take
  rw [h.queue]
  simp only [h.running, ↓reduceIte]
  split <;> simp_all

/-- The worker takes the next event, or finds that the chart has no record any more; then the
caller's dispatch does nothing either. -/
lemma Backlog.check (h : Backlog c d p l σ₀ σ) : Backlog c d p l σ₀ σ.check := by
  unfold System.check
  split
  · rename_i entry pool hworker hpool
    have hentry := h.waiting entry (by simp [hworker, hpool])
    obtain ⟨done, τ, hl, hs, hal⟩ := h.caught
    split
    · refine ⟨h.running, h.queue, h.invalid, fun e he => h.waiting e ?_, h.timeouts, h.sound,
        done, τ, ?_, hs, hal.data, hal.param, hal.performed⟩
      · simpa [hworker, hpool] using he
      · simpa [hworker, hpool] using hl
    · rename_i hdrop
      have hrec : ((τ.stores d).getData c.root).isSome = false := by
        rw [← show σ.stores d = τ.stores d from hal.data]
        refine Bool.eq_false_iff.mpr fun hsome => hdrop ⟨hentry.2.2.2, ?_⟩
        rw [hentry.1, hentry.2.1]
        exact Metadata.isActive_of_flag h.sound hsome
      refine ⟨h.running, h.queue, h.invalid, fun e he => h.waiting e ?_, h.timeouts, h.sound,
        done ++ [entry.event], τ, ?_, ?_, hal.data, hal.param, hal.performed⟩
      · have he : e ∈ pool := by simpa [hworker] using he
        simp [hpool, he]
      · simp [hl, hworker, hpool]
      · rw [List.map_append]
        exact hs.snoc (step_dispatch_of_isSome hrec _)
  · exact h

variable (hc : c.Timeless) (ha : c.EveryAction fun f => f.KeepsTimeouts ∧ f.KeepsFlag c.root)

include hc ha

/-- The worker does what the caller does next. -/
lemma Backlog.deliver (h : Backlog c d p l σ₀ σ) (hs : Deliver c σ σ') :
    Backlog c d p l σ₀ σ' := by
  obtain ⟨entry, hworker, a, w', ⟨n, hn⟩, rfl⟩ := hs
  obtain ⟨hd, -, hp, -⟩ := h.waiting entry (by simp [hworker])
  simp only [hd, hp, argument] at hn ⊢
  obtain ⟨⟨⟩, w₁, h₁, h₂⟩ := returns_bind.mp hn
  obtain rfl := returns_modify.mp h₁
  obtain ⟨done, τ, hl, hsync, hal⟩ := h.caught
  have ht := compatible_steady hc (ha.mono fun _ hf => hf.1)
  have hsteady := ht.dispatch n trivial _ _ _ h₂
  have hsound := (compatible_candid (ha.mono fun _ hf => hf.2)).dispatch n trivial _ _ _ h₂ h.sound
  obtain ⟨htimers, htimeouts⟩ := hsteady.2.2 h.timeouts
  have hlog : ((({ σ with worker := none } : System S T E P).world d p).log
      (.dispatched entry.id σ.timers.now)).Alike (τ.world d p) :=
        ⟨hal.data, hal.param, hal.performed⟩
  obtain ⟨v', hv, hal'⟩ := (similar_alike hc).dispatch n entry.event _ _ _ _ hlog h₂
  have hv' := ht.dispatch n trivial _ _ _ hv
  have hworld : (({ σ with worker := none } : System S T E P).put w').world d p = w' :=
    world_put hsteady.1 hsteady.2.1
  have hdata : (({ σ with worker := none } : System S T E P).put w').stores d = w'.data :=
    congrArg World.data hworld
  have htm : (({ σ with worker := none } : System S T E P).put w').timers = σ.timers := htimers
  refine ⟨htm ▸ h.running, htm ▸ h.queue, htm ▸ h.invalid, fun e he => ?_,
    fun x => hdata ▸ htimeouts x, hdata ▸ hsound, done ++ [entry.event], τ.put v', ?_, ?_, ?_⟩
  · rw [htm]
    exact h.waiting e (List.mem_append_right _ (by simpa [put] using he))
  · simp [hl, hworker, put]
  · rw [List.map_append]
    exact hsync.snoc ⟨a, v', ⟨n, hv⟩, rfl⟩
  · have hworld' : (τ.put v').world d p = v' := world_put hv'.1 hv'.2.1
    rw [hworld, hworld']
    exact hal'

lemma Backlog.thread (h : Backlog c d p l σ₀ σ) (hop : op.isThread = true) (hs : Step c op σ σ') :
    Backlog c d p l σ₀ σ' := by
  cases op with
  | tick ns =>
      obtain rfl := hs
      obtain ⟨done, τ, hl, hsync, hal⟩ := h.caught
      exact ⟨h.running, h.queue, h.invalid, h.waiting, h.timeouts, h.sound, done, τ, hl, hsync,
        hal.data, hal.param, hal.performed⟩
  | expire => exact (hs.trans h.expire) ▸ h
  | check => exact hs ▸ h.check
  | deliver => exact h.deliver hc ha hs
  | work =>
      rcases hs.2 with ⟨-, rfl⟩ | hs
      · exact h.check
      · exact h.check.deliver hc ha hs
  | start => cases hop
  | restoreState => cases hop
  | dispatch => cases hop

lemma Asynchronously.backlog (h₀ : Rested σ₀) (h : Asynchronously c d p l σ₀ σ) :
    Backlog c d p (none :: l) σ₀ σ := by
  induction h with
  | start => exact (backlog_enter h₀).submit rfl
  | dispatch e _ he ih => exact (ih h₀).submit he
  | thread op _ hop hs ih => exact (ih h₀).thread hc ha hop hs

/-- **The pool does what a caller does.** For a chart without timeouts whose actions leave the
timeout entries and the activity of the chart itself alone: once the pool has drained, the metadata,
the parameter and the sequence of the actions are those of `start` and `dispatch`, called with the
same events in the order of their submission. -/
theorem synchronously_of_asynchronously (h₀ : Rested σ₀) (h : Asynchronously c d p l σ₀ σ)
    (hpool : σ.pool = []) (hworker : σ.worker = none) :
    ∃ τ, Synchronously c (.start d (some p) :: l.map (.dispatch d · (some p))) σ₀ τ
      ∧ (∀ τ', Synchronously c (.start d (some p) :: l.map (.dispatch d · (some p))) σ₀ τ' → τ' = τ)
      ∧ σ.stores d = τ.stores d ∧ σ.params p = τ.params p
      ∧ Obs.performed (σ.traces d) = Obs.performed (τ.traces d) := by
  obtain ⟨done, τ, hl, hs, hal⟩ := (h.backlog hc ha h₀).caught
  obtain rfl : none :: l = done := by simpa [hpool, hworker] using hl
  obtain ⟨σ₁, h₁, h₂⟩ := hs
  have hτ : Synchronously c (.start d (some p) :: l.map (.dispatch d · (some p))) σ₀ τ :=
    ⟨σ₁, step_start hc (ha.mono fun _ hf => hf.1) h₁, h₂⟩
  refine ⟨τ, hτ, fun τ' h' => h'.unique (fun op hop => ?_) hτ, hal.data, hal.param, hal.performed⟩
  rcases List.mem_cons.mp hop with rfl | hop
  · rfl
  · obtain ⟨e, -, rfl⟩ := List.mem_map.mp hop
    rfl

end System

/-! ### An action that ends the chart behind its back -/

namespace Secretive

inductive St where
  | chart | s | a | b
  deriving DecidableEq

instance : Fintype St := ⟨{.chart, .s, .a, .b}, fun x => by cases x <;> decide⟩

inductive Tr where
  | begin | go
  deriving DecidableEq

instance : Fintype Tr := ⟨{.begin, .go}, fun t => by cases t <;> decide⟩

/-- The state `a` is left for `b` on the event `go`. -/
def chart (entry : Option (Action St ℕ)) : Chart St Tr Event ℕ where
  name := "secretive"
  root := .chart
  ownedStates := [.s, .a, .b]
  ownedTransitions := [.begin, .go]
  kind
    | .chart => .statechart
    | .s => .pseudoState .start
    | _ => .state
  context
    | .chart => none
    | _ => some .chart
  depth
    | .chart => 0
    | _ => 1
  entryAction
    | .a => entry
    | _ => none
  source
    | .begin => .s
    | .go => .a
  target
    | .begin => .a
    | .go => .b
  event
    | .begin => none
    | .go => some (.event "go")
  equals ev e _ _ := ev.equals e
  timeout := Event.timeout

/-- `getData(chart)->active = false`. -/
def retire : Action St ℕ := fun m p => (m.modify .chart fun d => { d with active := false }, p)

/-- Counts the entries. -/
def count : Action St ℕ := fun m p => (m, p + 1)

/-- A new system, whose clients have one parameter. -/
abbrev initial : System St Tr Event ℕ := System.fresh (fun _ => 0) 1

lemma timeless (entry : Option (Action St ℕ)) : (chart entry).Timeless := by
  intro t ev h
  cases t <;> simp [chart] at h ⊢
  subst h
  rfl

set_option maxRecDepth 4000 in
/-- **An event that is lost.** The entry action makes the chart look inactive to the worker, which
drops the event that a caller gets through. -/
theorem not_synchronously : ∃ σ τ, (chart (some retire)).Timeless
    ∧ System.Asynchronously (chart (some retire)) 0 0 [some (.event "go")] initial σ
    ∧ σ.pool = [] ∧ σ.worker = none
    ∧ System.Synchronously (chart (some retire))
      [.start 0 (some 0), .dispatch 0 (some (.event "go")) (some 0)] initial τ
    ∧ (σ.stores 0).current .chart = some .a ∧ (τ.stores 0).current .chart = some .b := by
  have hthread : ∀ op {l σ σ' τ}, System.Asynchronously (chart (some retire)) 0 0 l τ σ →
      op.isThread = true → System.exec (chart (some retire)) 4 σ op = some σ' →
      System.Asynchronously (chart (some retire)) 0 0 l τ σ' := fun _ _ _ _ _ h hop he =>
    .thread _ h hop (System.step_of_exec he)
  have h₀ := System.Asynchronously.dispatch (c := chart (some retire)) (d := 0) (p := 0)
    (some (.event "go")) (.start initial) rfl
  have h₁ := hthread .work h₀ rfl rfl
  exact ⟨_, _, timeless _, hthread .work h₁ rfl rfl, rfl, rfl,
    ⟨_, System.step_of_exec (n := 4) rfl, _, System.step_of_exec (n := 4) rfl, rfl⟩, rfl, rfl⟩

lemma everyAction_count : (chart (some count)).EveryAction fun f =>
    f.KeepsTimeouts ∧ f.KeepsFlag (chart (some count)).root := by
  refine ⟨fun {x f} h => ?_, fun h => ?_, fun h => ?_, fun h => ?_⟩
  · cases x <;> simp only [chart, reduceCtorEq, Option.some.injEq] at h
    subst h
    exact ⟨fun _ _ _ => rfl, fun _ _ => rfl⟩
  all_goals simp [chart] at h

set_option maxRecDepth 4000 in
/-- With an action that counts the entries, the pool does what the caller does. -/
theorem synchronously_go : ∃ σ,
    System.Asynchronously (chart (some count)) 0 0 [some (.event "go")] initial σ
    ∧ (σ.stores 0).current .chart = some .b ∧ σ.params 0 = 1
    ∧ ∃ τ, System.Synchronously (chart (some count))
        [.start 0 (some 0), .dispatch 0 (some (.event "go")) (some 0)] initial τ
      ∧ (∀ τ', System.Synchronously (chart (some count))
        [.start 0 (some 0), .dispatch 0 (some (.event "go")) (some 0)] initial τ' → τ' = τ)
      ∧ σ.stores 0 = τ.stores 0 ∧ σ.params 0 = τ.params 0
      ∧ Obs.performed (σ.traces 0) = Obs.performed (τ.traces 0) := by
  have hthread : ∀ op {l σ σ' τ}, System.Asynchronously (chart (some count)) 0 0 l τ σ →
      op.isThread = true → System.exec (chart (some count)) 4 σ op = some σ' →
      System.Asynchronously (chart (some count)) 0 0 l τ σ' := fun _ _ _ _ _ h hop he =>
    .thread _ h hop (System.step_of_exec he)
  -- the event is submitted while the worker has tested the first entry
  have h₀ := hthread .check (.start initial) rfl rfl
  have h₁ := System.Asynchronously.dispatch (some (.event "go")) h₀ rfl
  have h₂ := hthread .deliver h₁ rfl rfl
  have h₃ := hthread .work h₂ rfl rfl
  have hrest : System.Rested initial := ⟨rfl, rfl, rfl, rfl, fun _ h => nomatch h⟩
  exact ⟨_, h₃, rfl, rfl,
    System.synchronously_of_asynchronously (timeless _) everyAction_count hrest h₃ rfl rfl⟩

end Secretive

end CppStatecharts
