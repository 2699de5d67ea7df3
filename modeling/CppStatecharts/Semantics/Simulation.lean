import CppStatecharts.Library.Simulation
import CppStatecharts.Semantics.Effects

/-!
The simulation rule of the development.

* `Chart.Within c V t`, `Chart.Closed c V`: from the states of `V`, a transition and the methods
  reach states of `V` only.
* `Chart.SimilarOn c V B`: worlds related by `B` agree on what the methods of `c` read when they are
  called on states of `V`, and every elementary change leads from related worlds to related worlds.
* `Chart.SimilarOn.step`: two tables of methods that simulate each other along `B` do so one level
  up; `Chart.SimilarOn.methods`: every method simulates itself, with the same number of nested
  calls.
* `Chart.Similar c B`: the same for all states; `Chart.Similar.dispatch` says so of the calls of
  `Statechart`.
-/

namespace CppStatecharts

variable {S T E P : Type} [DecidableEq S]

/-- The transition leads from `V` to `V`, and leaves and enters states of `V` only. -/
structure Chart.Within (c : Chart S T E P) (V : S → Prop) (t : T) : Prop where
  source : V (c.source t)
  deactivates : ∀ s ∈ c.deactivates t, V s
  activates : ∀ s ∈ c.activates t, V s

/-- From the states of `V`, the methods reach states of `V` only. -/
structure Chart.Closed (c : Chart S T E P) (V : S → Prop) : Prop where
  child : ∀ {s p}, c.context s = some p → V p → V s
  context : ∀ {h p}, (c.kind h).isHistory = true → V h → c.context h = some p → V p
  within : ∀ {t}, t ∈ c.ownedTransitions → V (c.source t) → c.Within V t

/-- Worlds related by `B` look alike to the methods of `c` on states of `V`, and the elementary
changes keep them related. -/
structure Chart.SimilarOn (c : Chart S T E P) (V : S → Prop)
    (B : World S T E P → World S T E P → Prop) : Prop extends c.Closed V where
  isActive : ∀ {w x} s, V s → B w x → w.data.isActive s = x.data.isActive s
  current : ∀ {w x} s, V s → c.kind s ≠ .concurrentState → B w x →
    w.data.current s = x.data.current s
  current_mem : ∀ {w x s q}, V s → B w x → w.data.current s = some q → V q
  stateset : ∀ {w x} s, V s → B w x → w.data.stateset s = x.data.stateset s
  stateset_mem : ∀ {w x h q}, V h → (c.kind h).isHistory = true → B w x →
    q ∈ w.data.stateset h → V q
  isSome : ∀ {w x} s, V s → B w x → (w.data.getData s).isSome = (x.data.getData s).isSome
  guardHolds : ∀ {w x} t, V (c.source t) → B w x →
    Transition.guardHolds c t w = Transition.guardHolds c t x
  triggered : ∀ {w x} t e, V (c.source t) → B w x →
    Transition.triggered c t e w = Transition.triggered c t e x
  joinReady : ∀ {w x} j, V j → B w x → PseudoState.joinReady c j w = PseudoState.joinReady c j x
  fire : ∀ {w x} t, V (c.source t) → B w x →
    B (w.log (.fire t w.data)) (x.log (.fire t x.data))
  fired : ∀ {w₀ x₀ w x} t, V (c.source t) → B w₀ x₀ → B w x →
    B (w.log (.fired t w₀.data w.data)) (x.log (.fired t x₀.data x.data))
  fallThrough : ∀ {w x} s b, V s → B w x →
    B (w.log (.fallThrough s b)) (x.log (.fallThrough s b))
  entering : ∀ {w x} n, V n → B w x → B (w.log (.entering n)) (x.log (.entering n))
  entered : ∀ {w x} n, V n → B w x → B (w.log (.entered n)) (x.log (.entered n))
  effect : ∀ {w x} t, V (c.source t) → B w x → B (w.perform (.effect t) (c.action t))
    (x.perform (.effect t) (c.action t))
  entry : ∀ {w x} s, V s → B w x →
    B (w.perform (.entry s) (c.entryAction s)) (x.perform (.entry s) (c.entryAction s))
  doing : ∀ {w x} s, V s → B w x →
    B (w.perform (.doing s) (c.doAction s)) (x.perform (.doing s) (c.doAction s))
  exit : ∀ {w x} s, V s → B w x →
    B (w.perform (.exit s) (c.exitAction s)) (x.perform (.exit s) (c.exitAction s))
  activateData : ∀ {w x} s, V s → (c.kind s).isPseudo = true → B w x →
    B (c.activateData s w) (c.activateData s x)
  arrive : ∀ {w x} s, V s → (c.kind s).isPseudo = false → w.data.isActive s = false → B w x →
    B (c.arrive s w) (c.arrive s x)
  leave : ∀ {w x} s, V s → w.data.isActive s = true → B w x → B (c.leave s w) (c.leave s x)
  registerRegion : ∀ {w x} n r, V n → V r → c.kind n = .concurrentState → B w x →
    B (Chart.registerRegion n r w) (Chart.registerRegion n r x)
  clearStateset : ∀ {w x} n, V n → c.kind n = .concurrentState → B w x →
    B (Chart.clearStateset n w) (Chart.clearStateset n x)
  clearCurrent : ∀ {w x} s, V s → c.kind s = .hierarchicalState → B w x →
    B (Chart.clearCurrent s w) (Chart.clearCurrent s x)
  storeHistory : ∀ {w x} s h chain, V s → c.history s = some h →
    HierarchicalState.storesHistory c s h (w.data.current s) = true → B w x →
    Returns (c.storeHistory h) w ⟨⟩ (w.onData (·.modify h fun d => { d with stateset := chain })) →
    Returns (c.storeHistory h) x ⟨⟩ (x.onData (·.modify h fun d => { d with stateset := chain })) →
    B (w.onData (·.modify h fun d => { d with stateset := chain }))
      (x.onData (·.modify h fun d => { d with stateset := chain }))

/-- The methods of one table simulate those of another, on states of `V`. -/
structure Methods.SimulateOn (V : S → Prop) (B : World S T E P → World S T E P → Prop)
    (v v' : Methods S T E P) : Prop where
  lookup : ∀ j, V j → Simulates B (v.lookup j) (v'.lookup j)
  activate : ∀ s, V s → Simulates B (v.activate s) (v'.activate s)
  deactivate : ∀ s, V s → Simulates B (v.deactivate s) (v'.deactivate s)
  dispatch : ∀ s e, V s → Simulates B (v.dispatch s e) (v'.dispatch s e)

namespace Chart.SimilarOn

variable {c : Chart S T E P} {V : S → Prop} {B : World S T E P → World S T E P → Prop}
variable {v v' : Methods S T E P} {s n r : S} {t : T} {e : Option E}

/-! ### Transitions -/

lemma own (h : c.SimilarOn V B) (hs : V s) (ht : t ∈ c.transitions s) : c.Within V t :=
  h.within (Chart.mem_transitions.mp ht).1 ((Chart.mem_transitions.mp ht).2.symm ▸ hs)

lemma allowed (h : c.SimilarOn V B) (hv : v.SimulateOn V B v') (ht : c.Within V t) :
    Simulates B (Transition.allowed c v t) (Transition.allowed c v' t) := by
  refine simulates_bind (simulates_peek fun w x hB => h.guardHolds t ht.source hB) fun g =>
    simulates_ite ?_ (simulates_pure _)
  cases hl : (c.activates t).getLast? with
  | none => exact simulates_pure _
  | some s =>
      have hs : V s := ht.activates s (List.mem_of_getLast? hl)
      exact simulates_ite (hv.lookup s hs) (simulates_pure _)

lemma activateAll (h : c.SimilarOn V B) (hv : v.SimulateOn V B v') :
    ∀ {l : List S}, (∀ s ∈ l, V s) →
      Simulates B (Transition.activateAll c v l) (Transition.activateAll c v' l)
  | [], _ => simulates_pure _
  | [s], hl => simulates_bind (hv.activate s (hl s List.mem_cons_self)) fun _ => simulates_pure _
  | s :: r :: rest, hl => by
      have hs := hl s List.mem_cons_self
      have htail : ∀ q ∈ r :: rest, V q := fun q hq => hl q (List.mem_cons_of_mem s hq)
      have hrest := simulates_bind (hv.activate s hs) fun _ => activateAll h hv htail
      unfold Transition.activateAll
      by_cases hk : c.kind s = .concurrentState
      · simp only [hk, ↓reduceIte]
        exact simulates_bind (simulates_modify fun _ _ =>
          h.registerRegion s r hs (htail r List.mem_cons_self) hk) fun _ => hrest
      · simp only [hk, ↓reduceIte]
        exact hrest

lemma transition_fire (h : c.SimilarOn V B) (hv : v.SimulateOn V B v') (ht : c.Within V t) :
    Simulates B (Transition.fire c v t) (Transition.fire c v' t) := by
  intro w x u w' hB hf
  obtain ⟨w₁, w₂, h₁, h₂, rfl⟩ := Transition.returns_fire.mp hf
  obtain ⟨x₁, hx₁, hB₁⟩ := simulates_forM (fun s hs => hv.deactivate s (ht.deactivates s hs))
    _ _ _ _ (h.fire t ht.source hB) h₁
  obtain ⟨x₂, hx₂, hB₂⟩ := h.activateAll hv ht.activates
    _ _ _ _ (h.effect t ht.source hB₁) h₂
  exact ⟨_, Transition.returns_fire.mpr ⟨x₁, x₂, hx₁, hx₂, rfl⟩, h.fired t ht.source hB hB₂⟩

lemma execute (h : c.SimilarOn V B) (hv : v.SimulateOn V B v') (ht : c.Within V t)
    (e : Option E) : Simulates B (Transition.execute c v t e) (Transition.execute c v' t e) := by
  refine simulates_bind (simulates_peek fun w x hB => h.triggered t e ht.source hB) fun b =>
    simulates_ite ?_ (simulates_pure _)
  refine simulates_bind (h.allowed hv ht) fun b => simulates_ite ?_ (simulates_pure _)
  exact simulates_bind (h.transition_fire hv ht) fun _ => simulates_pure _

/-! ### States -/

lemma state_activate (h : c.SimilarOn V B) (hs : V s) (hk : (c.kind s).isPseudo = false) :
    Simulates B (State.activate c s) (State.activate c s) := by
  intro w x b w' hB ha
  rcases State.returns_activate.mp ha with ⟨hi, rfl, rfl⟩ | ⟨hi, rfl, rfl⟩
  · exact ⟨x, State.returns_activate.mpr (Or.inl ⟨h.isActive s hs hB ▸ hi, rfl, rfl⟩), hB⟩
  · refine ⟨_, State.returns_activate.mpr (Or.inr ⟨h.isActive s hs hB ▸ hi, rfl, rfl⟩), ?_⟩
    exact h.doing s hs (h.entry s hs (h.arrive s hs hk hi hB))

lemma state_deactivate (h : c.SimilarOn V B) (hs : V s) :
    Simulates B (State.deactivate c s) (State.deactivate c s) := by
  intro w x u w' hB hd
  rcases State.returns_deactivate.mp hd with ⟨hi, rfl⟩ | ⟨hi, rfl⟩
  · exact ⟨x, State.returns_deactivate.mpr (Or.inl ⟨h.isActive s hs hB ▸ hi, rfl⟩), hB⟩
  · exact ⟨_, State.returns_deactivate.mpr (Or.inr ⟨h.isActive s hs hB ▸ hi, rfl⟩),
      h.exit s hs (h.leave s hs hi hB)⟩

lemma state_dispatch (h : c.SimilarOn V B) (hv : v.SimulateOn V B v') (hs : V s)
    (e : Option E) : Simulates B (State.dispatch c v s e) (State.dispatch c v' s e) :=
  simulates_anyM fun _ ht => h.execute hv (h.own hs ht) e

/-! ### Histories -/

/-- The chain a history stores is read off the current states of hierarchical states, and stays
inside. -/
lemma calculateHistoryChain_eq (h : c.SimilarOn V B) {w x : World S T E P} (hB : B w x)
    (type : PseudoStateType) : ∀ (k : ℕ) {q : Option S}, (∀ y, q = some y → V y) →
      c.calculateHistoryChain w.data type k q = c.calculateHistoryChain x.data type k q
  | 0, none, _ | 0, some _, _ | _ + 1, none, _ => rfl
  | k + 1, some s, hq => by
      have hs := hq s rfl
      simp only [Chart.calculateHistoryChain]
      split
      · rfl
      · split
        · rename_i hk
          rw [← h.current s hs (by rw [hk]; decide) hB,
            calculateHistoryChain_eq h hB type k fun y hy => h.current_mem hs hB hy]
        · rfl

lemma saveHistory (h : c.SimilarOn V B) (hs : V s) {w x w' : World S T E P} (hB : B w x)
    (hr : Returns (HierarchicalState.saveHistory c s (w.data.current s)) w ⟨⟩ w') :
    ∃ x', Returns (HierarchicalState.saveHistory c s (w.data.current s)) x ⟨⟩ x' ∧ B w' x' := by
  rcases HierarchicalState.returns_saveHistory.mp hr with ⟨rfl, hno⟩ | ⟨q, hq, hst, hr⟩
  · exact ⟨x, HierarchicalState.returns_saveHistory.mpr (Or.inl ⟨rfl, hno⟩), hB⟩
  obtain ⟨hqk, hqs⟩ := Chart.history_eq_some_iff.mp hq
  have hqV := h.child hqs hs
  have hsk : c.kind s ≠ .concurrentState := by
    rw [c.history_context hqk hqs]
    decide
  have hsome := h.isSome q hqV hB
  suffices ∃ x', Returns (c.storeHistory q) x ⟨⟩ x' ∧ B w' x' by
    obtain ⟨x', hx', hB'⟩ := this
    exact ⟨x', HierarchicalState.returns_saveHistory.mpr (Or.inr ⟨q, hq, hst, hx'⟩), hB'⟩
  have hstore := fun chain => h.storeHistory (w := w) (x := x) s q chain hs hq hst hB
  unfold Chart.storeHistory Returns StateT.run at hr hstore ⊢
  cases hw : w.data.getData q with
  | none =>
      have hx : x.data.getData q = none := by simpa [hw] using hsome
      have hww : w' = w := by simpa [hw, eq_comm] using hr
      exact ⟨x, by simp [hx], hww ▸ hB⟩
  | some d =>
      obtain ⟨d', hx⟩ : ∃ d', x.data.getData q = some d' :=
        Option.isSome_iff_exists.mp (by rw [← hsome, hw]; rfl)
      cases hk : c.kind q
      case pseudoState type =>
        have hchain := h.calculateHistoryChain_eq hB type c.chainBound
          fun y hy => h.current_mem hs hB hy
        rw [h.current s hs hsk hB] at hchain
        simp only [hw, hqs, hk, hx, h.current s hs hsk hB, hchain] at hr hstore ⊢
        obtain ⟨chain, hc, hw'⟩ := Option.map_eq_some_iff.mp hr
        obtain ⟨-, rfl⟩ := Prod.mk.inj hw'
        simp only [hc] at hstore ⊢
        exact ⟨_, rfl, hstore chain rfl rfl⟩
      all_goals
        rw [hk] at hqk
        cases hqk

/-! ### `HierarchicalState` -/

lemma hierarchical_deactivate (h : c.SimilarOn V B) (hv : v.SimulateOn V B v') (hs : V s)
    (hk : c.kind s = .hierarchicalState) :
    Simulates B (HierarchicalState.deactivate c v s) (HierarchicalState.deactivate c v' s) := by
  intro w x u w' hB hd
  rcases HierarchicalState.returns_deactivate.mp hd with ⟨hi, rfl⟩ | ⟨hi, w₁, w₂, h₁, h₂, h₃⟩
  · exact ⟨x, HierarchicalState.returns_deactivate.mpr (Or.inl ⟨h.isActive s hs hB ▸ hi, rfl⟩), hB⟩
  have hcur := h.current s hs (by rw [hk]; decide) hB
  obtain ⟨x₁, hx₁, hB₁⟩ := h.saveHistory hs hB h₁
  obtain ⟨x₂, hx₂, hB₂⟩ : ∃ x₂, Returns (HierarchicalState.deactivateCurrent v'
      (w.data.current s)) x₁ ⟨⟩ x₂ ∧ B w₂ x₂ := by
    cases hq : w.data.current s with
    | none =>
        rw [hq] at h₂
        exact simulates_pure _ _ _ _ _ hB₁ h₂
    | some q =>
        rw [hq] at h₂
        exact hv.deactivate q (h.current_mem hs hB hq) _ _ _ _ hB₁ h₂
  obtain ⟨x', hx', hB'⟩ := h.state_deactivate hs _ _ _ _ (h.clearCurrent s hs hk hB₂) h₃
  rw [hcur] at hx₁ hx₂
  exact ⟨x', HierarchicalState.returns_deactivate.mpr
    (Or.inr ⟨h.isActive s hs hB ▸ hi, x₁, x₂, hx₁, hx₂, hx'⟩), hB'⟩

/-- A program that goes on with the current state. -/
lemma simulates_current_bind (h : c.SimilarOn V B) (hs : V s) (hk : c.kind s ≠ .concurrentState)
    {α : Type} {f f' : Option S → Comp (World S T E P) α}
    (hf : ∀ q, (∀ y, q = some y → V y) → Simulates B (f q) (f' q)) :
    Simulates B (peek (·.data.current s) >>= f) (peek (·.data.current s) >>= f') :=
  simulates_peek_bind (fun q => ∀ y, q = some y → V y)
    (fun _ _ hB => ⟨h.current s hs hk hB, fun _ hy => h.current_mem hs hB hy⟩) hf

lemma enterStart (h : c.SimilarOn V B) (hv : v.SimulateOn V B v') (hs : V s)
    (hk : c.kind s ≠ .concurrentState) :
    Simulates B (HierarchicalState.enterStart c v s) (HierarchicalState.enterStart c v' s) := by
  refine h.simulates_current_bind hs hk fun cur _ => ?_
  cases cur with
  | some q => exact simulates_pure _
  | none =>
      cases hst : c.startState s with
      | none => exact simulates_pure _
      | some st =>
          obtain ⟨hstk, hsts⟩ := Chart.startState_eq_some hst
          refine simulates_bind (simulates_modify fun _ _ =>
            h.activateData st (h.child hsts hs) (by rw [hstk]; rfl)) fun _ =>
              h.simulates_current_bind hs hk fun q hq => ?_
          cases q with
          | none => exact simulates_pure _
          | some q => exact simulates_bind (hv.activate q (hq q rfl)) fun _ => simulates_pure _

lemma dispatchCurrent (h : c.SimilarOn V B) (hv : v.SimulateOn V B v') (hs : V s)
    (hk : c.kind s ≠ .concurrentState) (e : Option E) :
    Simulates B (HierarchicalState.dispatchCurrent v s e)
      (HierarchicalState.dispatchCurrent v' s e) := by
  refine h.simulates_current_bind hs hk fun q hq => ?_
  cases q with
  | none => exact simulates_pure _
  | some q => exact hv.dispatch q e (hq q rfl)

lemma hierarchical_tryTransition (h : c.SimilarOn V B) (hv : v.SimulateOn V B v')
    (ht : c.Within V t) (fin : Bool) (e : Option E) :
    Simulates B (HierarchicalState.tryTransition c v fin e t)
      (HierarchicalState.tryTransition c v' fin e t) := by
  refine simulates_ite (h.execute hv ht e) (simulates_ite ?_ (simulates_pure _))
  exact simulates_bind (h.execute hv ht none) fun b =>
    simulates_ite (simulates_pure _) (h.execute hv ht e)

lemma hierarchical_dispatch (h : c.SimilarOn V B) (hv : v.SimulateOn V B v') (hs : V s)
    (hk : c.kind s = .hierarchicalState) (e : Option E) :
    Simulates B (HierarchicalState.dispatch c v s e) (HierarchicalState.dispatch c v' s e) := by
  have hconc : c.kind s ≠ .concurrentState := by
    rw [hk]
    decide
  refine simulates_bind (simulates_peek fun w x => h.isActive s hs) fun b =>
    simulates_ite ?_ (simulates_pure _)
  refine simulates_bind (h.enterStart hv hs hconc) fun _ =>
    simulates_bind (h.dispatchCurrent hv hs hconc e) fun handled =>
      simulates_bind (simulates_peek fun w x => h.isActive s hs) fun b =>
        simulates_ite ?_ (simulates_pure _)
  refine simulates_bind (simulates_peek fun w x hB => by rw [h.current s hs hconc hB]) fun fin =>
    simulates_ite (simulates_pure _) ?_
  have hloop := simulates_anyM (l := c.transitions s) fun t ht =>
    h.hierarchical_tryTransition hv (h.own hs ht) fin e
  exact simulates_ite
    (simulates_bind (simulates_modify fun _ _ => h.fallThrough s e.isSome hs) fun _ => hloop) hloop

/-! ### `ConcurrentState` -/

lemma enterRegion (hv : v.SimulateOn V B v')
    (hn : ∀ w x, B w x → w.data.stateset n = x.data.stateset n) (hr : V r) :
    Simulates B (ConcurrentState.enterRegion v n r) (ConcurrentState.enterRegion v' n r) := by
  refine simulates_bind (simulates_peek fun w x hB => by rw [hn w x hB]) fun b =>
    simulates_ite (simulates_pure _) ?_
  refine simulates_bind (hv.activate r hr) fun b => simulates_ite ?_ (simulates_pure _)
  exact simulates_bind (hv.dispatch r none hr) fun _ => simulates_pure _

lemma region (h : c.SimilarOn V B) (hn : V n) (hr : r ∈ c.regions n) : V r :=
  h.child (Chart.mem_regions.mp hr).2 hn

lemma enterRegions (h : c.SimilarOn V B) (hv : v.SimulateOn V B v') (hn : V n) :
    Simulates B (ConcurrentState.enterRegions c v n) (ConcurrentState.enterRegions c v' n) := by
  refine simulates_bind (simulates_peek fun w x => h.isSome n hn) fun b =>
    simulates_ite ?_ (simulates_pure _)
  refine simulates_bind (simulates_modify fun _ _ => h.entering n hn) fun _ => ?_
  exact simulates_bind (simulates_forM fun r hr =>
    enterRegion hv (fun _ _ => h.stateset n hn) (h.region hn hr)) fun _ =>
      simulates_modify fun _ _ => h.entered n hn

lemma concurrent_activate (h : c.SimilarOn V B) (hv : v.SimulateOn V B v') (hn : V n)
    (hk : c.kind n = .concurrentState) :
    Simulates B (ConcurrentState.activate c v n) (ConcurrentState.activate c v' n) := by
  refine simulates_bind (h.state_activate hn (by rw [hk]; rfl)) fun b =>
    simulates_ite ?_ (simulates_pure _)
  exact simulates_bind (h.enterRegions hv hn) fun _ => simulates_pure _

lemma concurrent_deactivate (h : c.SimilarOn V B) (hv : v.SimulateOn V B v') (hn : V n)
    (hk : c.kind n = .concurrentState) :
    Simulates B (ConcurrentState.deactivate c v n) (ConcurrentState.deactivate c v' n) := by
  refine simulates_bind (simulates_modify fun _ _ => h.clearStateset n hn hk) fun _ => ?_
  exact simulates_bind (simulates_forM fun r hr => hv.deactivate r (h.region hn hr)) fun _ =>
    h.state_deactivate hn

omit [DecidableEq S] in
lemma dispatchRegion (hv : v.SimulateOn V B v')
    (hn : ∀ w x, B w x → w.data.isActive n = x.data.isActive n) (hr : V r) (e : Option E) :
    Simulates B (ConcurrentState.dispatchRegion v n e r)
      (ConcurrentState.dispatchRegion v' n e r) :=
  simulates_bind (simulates_peek hn) fun _ => simulates_ite (hv.dispatch r e hr) (simulates_pure _)

omit [DecidableEq S] in
lemma dispatchRegions (hv : v.SimulateOn V B v')
    (hn : ∀ w x, B w x → w.data.isActive n = x.data.isActive n) (e : Option E) :
    ∀ {l : List S}, (∀ r ∈ l, V r) → Simulates B (ConcurrentState.dispatchRegions v n e l)
      (ConcurrentState.dispatchRegions v' n e l)
  | [], _ => simulates_pure _
  | _ :: _, hl => simulates_bind (dispatchRegion hv hn (hl _ List.mem_cons_self) e) fun _ =>
      simulates_bind (dispatchRegions hv hn e fun q hq => hl q (List.mem_cons_of_mem _ hq))
        fun _ => simulates_pure _

/-- Whether the regions of a concurrent state are finished is read off the current states. -/
lemma finished (h : c.SimilarOn V B) (hn : V n) {w x : World S T E P} (hB : B w x) :
    ConcurrentState.finished c n w = ConcurrentState.finished c n x := by
  unfold ConcurrentState.finished
  rw [Bool.eq_iff_iff, List.all_eq_true, List.all_eq_true]
  refine forall₂_congr fun r hr => ?_
  have hk : c.kind r ≠ .concurrentState := by
    rw [(Chart.mem_regions.mp hr).1]
    decide
  rw [h.current r (h.region hn hr) hk hB]

lemma concurrent_tryTransition (h : c.SimilarOn V B) (hv : v.SimulateOn V B v') (hn : V n)
    (ht : c.Within V t) (e : Option E) :
    Simulates B (ConcurrentState.tryTransition c v n e t)
      (ConcurrentState.tryTransition c v' n e t) := by
  refine simulates_bind (simulates_peek fun w x => h.isActive n hn) fun b =>
    simulates_ite ?_ (simulates_pure _)
  exact simulates_bind (simulates_peek fun w x => h.finished hn) fun b =>
    simulates_ite (simulates_pure _) (h.execute hv ht e)

lemma concurrent_dispatch (h : c.SimilarOn V B) (hv : v.SimulateOn V B v') (hn : V n)
    (e : Option E) :
    Simulates B (ConcurrentState.dispatch c v n e) (ConcurrentState.dispatch c v' n e) :=
  simulates_bind (dispatchRegions hv (fun _ _ => h.isActive n hn) e fun _ hr => h.region hn hr)
    fun _ =>
    simulates_ite (simulates_pure _)
      (simulates_anyM fun _ ht => h.concurrent_tryTransition hv hn (h.own hn ht) e)

/-! ### `PseudoState` -/

lemma pseudo_lookup (h : c.SimilarOn V B) (hv : v.SimulateOn V B v') (hs : V s) :
    Simulates B (PseudoState.lookup c v s) (PseudoState.lookup c v' s) :=
  simulates_bind (simulates_peek fun _ _ => h.joinReady s hs) fun _ =>
    simulates_ite (simulates_pure _) (simulates_anyM fun _ ht => h.allowed hv (h.own hs ht))

lemma registerRegions (h : c.SimilarOn V B) {l : List S} (hl : ∀ s ∈ l, V s)
    {w x : World S T E P} (hB : B w x) : B (c.registerRegions l w) (c.registerRegions l x) := by
  unfold Chart.registerRegions
  have hps : ∀ p ∈ l.zip l.tail, V p.1 ∧ V p.2 := fun p hp =>
    ⟨hl _ (List.of_mem_zip hp).1, hl _ (List.mem_of_mem_tail (List.of_mem_zip hp).2)⟩
  generalize l.zip l.tail = ps at hps
  induction ps generalizing w x with
  | nil => exact hB
  | cons p ps ih =>
      rw [List.foldl_cons, List.foldl_cons]
      refine ih ?_ fun q hq => hps q (List.mem_cons_of_mem p hq)
      obtain ⟨h₁, h₂⟩ := hps p List.mem_cons_self
      split
      · exact h.registerRegion p.1 p.2 h₁ h₂ ‹_› hB
      · exact hB

lemma pseudo_activate (h : c.SimilarOn V B) (hv : v.SimulateOn V B v') (hs : V s)
    (hk : (c.kind s).isPseudo = true) :
    Simulates B (PseudoState.activate c v s) (PseudoState.activate c v' s) := by
  refine simulates_bind (simulates_modify fun _ _ => h.activateData s hs hk) fun _ =>
    simulates_bind (simulates_modify fun _ _ => h.entry s hs) fun _ => ?_
  by_cases hh : (c.kind s).isHistory = true
  · simp only [hh, ↓reduceIte]
    refine simulates_peek_bind (fun l => ∀ q ∈ l, V q)
      (fun w x hB => ⟨h.stateset s hs hB, fun q => h.stateset_mem hs hh hB⟩) fun stored hst =>
        simulates_bind (simulates_forM fun q hq => ?_) fun _ => simulates_pure _
    exact simulates_bind (hv.activate q (hst q hq)) fun _ => simulates_pure _
  · simp only [hh, Bool.false_eq_true, ↓reduceIte]
    refine simulates_ite (simulates_bind (simulates_forM fun t ht => ?_) fun _ =>
      simulates_pure _) (simulates_pure _)
    have hown := h.own hs ht
    exact simulates_bind (simulates_peek fun w x => h.guardHolds t hown.source) fun b =>
      simulates_ite (simulates_modify fun _ _ => h.registerRegions hown.activates)
        (simulates_pure _)

lemma pseudo_dispatch (h : c.SimilarOn V B) (hv : v.SimulateOn V B v') (hs : V s)
    (e : Option E) :
    Simulates B (PseudoState.dispatch c v s e) (PseudoState.dispatch c v' s e) := by
  unfold PseudoState.dispatch
  by_cases hh : (c.kind s).isHistory = true
  · simp only [hh, ↓reduceIte]
    refine simulates_peek_bind (fun q => ∀ y, q = some y → V y) (fun w x hB => ?_) fun q hq => ?_
    · unfold PseudoState.restored
      cases hp : c.context s with
      | none => exact ⟨rfl, fun _ hy => by cases hy⟩
      | some p =>
          have hpV := h.context hh hs hp
          have hpk : c.kind p ≠ .concurrentState := by
            rw [c.history_context hh hp]
            decide
          rw [Option.bind_some, Option.bind_some, h.current p hpV hpk hB]
          refine ⟨rfl, fun y hy => ?_⟩
          have hcur := h.current p hpV hpk hB
          cases hc : x.data.current p with
          | none => rw [hc] at hy; cases hy
          | some q =>
              rw [hc] at hy hcur
              simp only at hy
              split at hy
              · cases hy
              · exact Option.some.inj hy ▸ h.current_mem hpV hB hcur
    · cases q with
      | none => exact h.state_dispatch hv hs e
      | some q => exact hv.dispatch q e (hq q rfl)
  · simp only [hh, Bool.false_eq_true, ↓reduceIte]
    refine simulates_ite ?_ (h.state_dispatch hv hs e)
    exact simulates_bind (simulates_forM fun t ht => simulates_bind (h.execute hv (h.own hs ht) e)
      fun _ => simulates_pure _) fun _ => simulates_pure _

/-! ### Virtual dispatch -/

section Step

variable (h : c.SimilarOn V B) (hv : v.SimulateOn V B v')

include h hv

lemma step_activate (hs : V s) :
    Simulates B ((c.step v).activate s) ((c.step v').activate s) := by
  cases hk : c.kind s <;> simp only [Chart.step, hk]
  case concurrentState => exact h.concurrent_activate hv hs hk
  case pseudoState => exact h.pseudo_activate hv hs (by rw [hk]; rfl)
  all_goals exact h.state_activate hs (by rw [hk]; rfl)

lemma step_deactivate (hs : V s) :
    Simulates B ((c.step v).deactivate s) ((c.step v').deactivate s) := by
  cases hk : c.kind s <;> simp only [Chart.step, hk]
  case hierarchicalState => exact h.hierarchical_deactivate hv hs hk
  case concurrentState => exact h.concurrent_deactivate hv hs hk
  all_goals exact h.state_deactivate hs

lemma step_dispatch (hs : V s) (e : Option E) :
    Simulates B ((c.step v).dispatch s e) ((c.step v').dispatch s e) := by
  cases hk : c.kind s <;> simp only [Chart.step, hk]
  case hierarchicalState => exact h.hierarchical_dispatch hv hs hk e
  case concurrentState => exact h.concurrent_dispatch hv hs e
  case pseudoState => exact h.pseudo_dispatch hv hs e
  all_goals exact h.state_dispatch hv hs e

/-- Tables that simulate each other do so one level up. -/
lemma step : (c.step v).SimulateOn V B (c.step v') where
  lookup _ hj := h.pseudo_lookup hv hj
  activate _ := h.step_activate hv
  deactivate _ := h.step_deactivate hv
  dispatch _ e hs := h.step_dispatch hv hs e

end Step

omit [DecidableEq S] in
lemma simulateOn_failure : (⟨fun _ => failure, fun _ => failure, fun _ => failure,
    fun _ _ => failure⟩ : Methods S T E P).SimulateOn V B v' :=
  ⟨fun _ _ => simulates_failure, fun _ _ => simulates_failure, fun _ _ => simulates_failure,
    fun _ _ _ => simulates_failure⟩

/-- **The simulation rule.** A relation that the elementary changes keep is kept by every method,
and the two runs give the same answers. -/
theorem methods (h : c.SimilarOn V B) : ∀ k : ℕ, (c.methods k).SimulateOn V B (c.methods k)
  | 0 => simulateOn_failure
  | k + 1 => h.step (methods h k)

/-! ### The calls of `Statechart` -/

variable (h : c.SimilarOn V B) (hroot : V c.root)

include h hroot

lemma pass (n : ℕ) (e : Option E) :
    Simulates B (Statechart.pass c n e) (Statechart.pass c n e) := by
  have hk : c.kind c.root ≠ .concurrentState := by
    rw [(c.kind_statechart _).mpr rfl]
    decide
  refine h.simulates_current_bind hroot hk fun q hq => ?_
  cases q with
  | none => exact simulates_pure _
  | some q => exact (h.methods n).dispatch q e (hq q rfl)

lemma completionLoop (n : ℕ) : ∀ fuel : ℕ,
    Simulates B (Statechart.completionLoop c n fuel) (Statechart.completionLoop c n fuel)
  | 0 => simulates_pure _
  | fuel + 1 => simulates_bind (pass h hroot n none) fun _ =>
      simulates_ite (completionLoop n fuel) (simulates_pure _)

lemma dispatch (n : ℕ) (e : Option E) :
    Simulates B (Statechart.dispatch c n e) (Statechart.dispatch c n e) := by
  refine simulates_bind (simulates_peek fun w x => h.isSome c.root hroot) fun b =>
    simulates_ite ?_ (simulates_pure _)
  refine simulates_bind (h.pass hroot n e) fun rc =>
    simulates_bind (h.completionLoop hroot n _) fun b => ?_
  exact simulates_ite (simulates_pure _) (simulates_pure _)

end Chart.SimilarOn

/-! ### The rule for all states -/

/-- Worlds related by `B` look alike to the methods of `c`, and the elementary changes keep them
related. -/
structure Chart.Similar (c : Chart S T E P) (B : World S T E P → World S T E P → Prop) : Prop where
  isActive : ∀ {w v} s, B w v → w.data.isActive s = v.data.isActive s
  current : ∀ {w v} s, B w v → w.data.current s = v.data.current s
  stateset : ∀ {w v} s, B w v → w.data.stateset s = v.data.stateset s
  isSome : ∀ {w v} s, B w v → (w.data.getData s).isSome = (v.data.getData s).isSome
  guardHolds : ∀ {w v} t, B w v → Transition.guardHolds c t w = Transition.guardHolds c t v
  triggered : ∀ {w v} t e, B w v → Transition.triggered c t e w = Transition.triggered c t e v
  fire : ∀ {w v} t, B w v → B (w.log (.fire t w.data)) (v.log (.fire t v.data))
  fired : ∀ {w₀ v₀ w v} t, B w₀ v₀ → B w v →
    B (w.log (.fired t w₀.data w.data)) (v.log (.fired t v₀.data v.data))
  fallThrough : ∀ {w v} s b, B w v → B (w.log (.fallThrough s b)) (v.log (.fallThrough s b))
  entering : ∀ {w v} n, B w v → B (w.log (.entering n)) (v.log (.entering n))
  entered : ∀ {w v} n, B w v → B (w.log (.entered n)) (v.log (.entered n))
  effect : ∀ {w v} t, B w v → B (w.perform (.effect t) (c.action t))
    (v.perform (.effect t) (c.action t))
  entry : ∀ {w v} s, B w v →
    B (w.perform (.entry s) (c.entryAction s)) (v.perform (.entry s) (c.entryAction s))
  doing : ∀ {w v} s, B w v →
    B (w.perform (.doing s) (c.doAction s)) (v.perform (.doing s) (c.doAction s))
  exit : ∀ {w v} s, B w v →
    B (w.perform (.exit s) (c.exitAction s)) (v.perform (.exit s) (c.exitAction s))
  activateData : ∀ {w v} s, B w v → B (c.activateData s w) (c.activateData s v)
  scheduleTimeouts : ∀ {w v} s, B w v → w.data.isActive s = true →
    B (c.scheduleTimeouts s w) (c.scheduleTimeouts s v)
  leave : ∀ {w v} s, B w v → w.data.isActive s = true → B (c.leave s w) (c.leave s v)
  registerRegion : ∀ {w v} n r, B w v →
    B (Chart.registerRegion n r w) (Chart.registerRegion n r v)
  clearStateset : ∀ {w v} n, B w v → B (Chart.clearStateset n w) (Chart.clearStateset n v)
  clearCurrent : ∀ {w v} s, B w v → B (Chart.clearCurrent s w) (Chart.clearCurrent s v)
  storeChain : ∀ {w v} h chain, B w v → B
    (w.onData (·.modify h fun d => { d with stateset := chain }))
    (v.onData (·.modify h fun d => { d with stateset := chain }))

/-- Every method that is reached by virtual dispatch simulates itself. -/
structure Methods.Simulate (B : World S T E P → World S T E P → Prop) (v : Methods S T E P) :
    Prop where
  lookup : ∀ j, Simulates B (v.lookup j) (v.lookup j)
  activate : ∀ s, Simulates B (v.activate s) (v.activate s)
  deactivate : ∀ s, Simulates B (v.deactivate s) (v.deactivate s)
  dispatch : ∀ s e, Simulates B (v.dispatch s e) (v.dispatch s e)

namespace Chart.Similar

variable {c : Chart S T E P} {B : World S T E P → World S T E P → Prop}

lemma within_true (t : T) : c.Within (fun _ => True) t :=
  ⟨trivial, fun _ _ => trivial, fun _ _ => trivial⟩

/-- All states are a set that the methods do not leave. -/
lemma similarOn (h : c.Similar B) : c.SimilarOn (fun _ => True) B where
  child _ _ := trivial
  context _ _ _ := trivial
  within _ _ := within_true _
  isActive s _ := h.isActive s
  current s _ _ := h.current s
  current_mem _ _ _ := trivial
  stateset s _ := h.stateset s
  stateset_mem _ _ _ _ := trivial
  isSome s _ := h.isSome s
  guardHolds t _ := h.guardHolds t
  triggered t e _ := h.triggered t e
  joinReady j _ hB := by
    simp only [PseudoState.joinReady, h.isActive _ hB, h.guardHolds _ hB]
  fire t _ := h.fire t
  fired t _ := h.fired t
  fallThrough s b _ := h.fallThrough s b
  entering n _ := h.entering n
  entered n _ := h.entered n
  effect t _ := h.effect t
  entry s _ := h.entry s
  doing s _ := h.doing s
  exit s _ := h.exit s
  activateData s _ _ := h.activateData s
  arrive s _ _ _ hB := h.scheduleTimeouts s (h.activateData s hB) (by simp)
  leave s _ ha hB := h.leave s hB ha
  registerRegion n r _ _ _ := h.registerRegion n r
  clearStateset n _ _ := h.clearStateset n
  clearCurrent s _ _ := h.clearCurrent s
  storeHistory _ q chain _ _ _ hB _ _ := h.storeChain q chain hB

omit [DecidableEq S] in
lemma simulate {v : Methods S T E P} (h : v.SimulateOn (fun _ => True) B v) : v.Simulate B :=
  ⟨fun j => h.lookup j trivial, fun s => h.activate s trivial, fun s => h.deactivate s trivial,
    fun s e => h.dispatch s e trivial⟩

omit [DecidableEq S] in
lemma simulateOn {v : Methods S T E P} (h : v.Simulate B) : v.SimulateOn (fun _ => True) B v :=
  ⟨fun j _ => h.lookup j, fun s _ => h.activate s, fun s _ => h.deactivate s,
    fun s e _ => h.dispatch s e⟩

lemma transition_fire (h : c.Similar B) {v : Methods S T E P} (hv : v.Simulate B) (t : T) :
    Simulates B (Transition.fire c v t) (Transition.fire c v t) :=
  h.similarOn.transition_fire (simulateOn hv) (within_true t)

/-- Every method simulates itself. -/
theorem methods (h : c.Similar B) (k : ℕ) : (c.methods k).Simulate B :=
  simulate (h.similarOn.methods k)

lemma dispatch (h : c.Similar B) (n : ℕ) (e : Option E) :
    Simulates B (Statechart.dispatch c n e) (Statechart.dispatch c n e) :=
  h.similarOn.dispatch trivial n e

end Chart.Similar

end CppStatecharts
