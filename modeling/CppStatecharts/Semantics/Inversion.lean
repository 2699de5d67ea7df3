import CppStatecharts.Model.Statechart

/-!
What a run of a method consists of: one inversion lemma per method.

* `Methods.Pure`: the look-ahead `PseudoState::lookup` leaves the world as it is
  (`pure_methods`), and so does `Transition::allowed` (`Methods.Pure.allowed`).
* `Chart.arrive`, `Chart.leave`: what `State::activate` and `State::deactivate` do to a state
  between the test of its activity and the client's actions.
* `State.returns_activate` to `PseudoState.returns_dispatch`: the runs of each method, one
  alternative for each way through its code.
* `Statechart.returns_start`, `Statechart.returns_restoreState`: the runs of the calls.
-/

namespace CppStatecharts

variable {S T E P : Type} [DecidableEq S] {c : Chart S T E P} {v : Methods S T E P}
variable {w w' : World S T E P} {s h n q : S} {t : T} {e : Option E} {b : Bool} {u : PUnit}

/-! ### The look-ahead -/

/-- The look-ahead only reads. -/
def Methods.Pure (v : Methods S T E P) : Prop := ∀ j, Keeps (· = ·) (v.lookup j)

lemma Methods.Pure.keeps_allowed (hv : v.Pure) (t : T) :
    Keeps (· = ·) (Transition.allowed c v t) := by
  refine keeps_bind (keeps_peek _) fun g => keeps_ite ?_ (keeps_pure _)
  cases (c.activates t).getLast? with
  | none => exact keeps_pure _
  | some s => exact keeps_ite (hv s) (keeps_pure _)

lemma Methods.Pure.allowed (hv : v.Pure) (h : Returns (Transition.allowed c v t) w b w') :
    w' = w := (hv.keeps_allowed t w b w' h).symm

lemma Methods.Pure.keeps_lookup (hv : v.Pure) (j : S) :
    Keeps (· = ·) (PseudoState.lookup c v j) :=
  keeps_bind (keeps_peek _) fun _ =>
    keeps_ite (keeps_pure _) (keeps_anyM fun t _ => hv.keeps_allowed t)

variable (c) in
lemma pure_methods : ∀ k : ℕ, (c.methods k).Pure
  | 0 => fun _ => keeps_failure
  | k + 1 => (pure_methods k).keeps_lookup

/-! ### Transitions -/

lemma Transition.guardHolds_of_allowed (h : Returns (Transition.allowed c v t) w true w') :
    Transition.guardHolds c t w = true := by
  simp only [Transition.allowed, returns_bind, returns_peek, returns_ite] at h
  obtain ⟨g, w₁, ⟨rfl, rfl⟩, ⟨hg, -⟩ | ⟨-, h⟩⟩ := h
  · exact hg
  · exact absurd (returns_pure.mp h).1 (by simp)

/-- A transition into a pseudo-state is allowed when a way out of it is. -/
lemma Transition.returns_allowed_of_isPseudo (hg : Transition.guardHolds c t w = true)
    (hs : (c.activates t).getLast? = some s) (hk : (c.kind s).isPseudo = true) :
    Returns (Transition.allowed c v t) w b w' ↔ Returns (v.lookup s) w b w' := by
  simp [Transition.allowed, hg, hs, hk]

/-- Any other transition is allowed when its guard holds. -/
lemma Transition.returns_allowed (hg : Transition.guardHolds c t w = true)
    (hs : ∀ s, (c.activates t).getLast? = some s → (c.kind s).isPseudo = false) :
    Returns (Transition.allowed c v t) w b w' ↔ b = true ∧ w' = w := by
  cases hl : (c.activates t).getLast? with
  | none => simp [Transition.allowed, hg, hl]
  | some s => simp [Transition.allowed, hg, hl, hs s hl]

/-- A pseudo-state other than a join looks for a way out at once. -/
lemma PseudoState.returns_lookup (hj : c.kind s ≠ .pseudoState .join) :
    Returns (PseudoState.lookup c v s) w b w'
      ↔ Returns ((c.transitions s).anyM (Transition.allowed c v)) w b w' := by
  simp [PseudoState.lookup, hj]

lemma Transition.returns_fire : Returns (Transition.fire c v t) w u w'
    ↔ ∃ w₁ w₂, Returns ((c.deactivates t).forM v.deactivate) (w.log (.fire t w.data)) ⟨⟩ w₁
      ∧ Returns (Transition.activateAll c v (c.activates t))
          (w₁.perform (.effect t) (c.action t)) ⟨⟩ w₂
      ∧ w' = w₂.log (.fired t w.data w₂.data) := by
  simp [Transition.fire]

/-- A transition fires, or nothing happens. -/
lemma Transition.returns_execute (hv : v.Pure) :
    Returns (Transition.execute c v t e) w b w'
      ↔ b = true ∧ Transition.triggered c t e w = true
          ∧ Returns (Transition.allowed c v t) w true w ∧ Returns (Transition.fire c v t) w ⟨⟩ w'
        ∨ b = false ∧ w' = w ∧ (Transition.triggered c t e w = true →
            Returns (Transition.allowed c v t) w false w) := by
  simp only [Transition.execute, returns_bind, returns_peek, returns_ite, returns_pure]
  constructor
  · rintro ⟨_, _, ⟨rfl, rfl⟩, ⟨ht, a, w₁, ha, ⟨rfl, u, w₂, hf, rfl, rfl⟩ | ⟨hna, rfl, rfl⟩⟩
      | ⟨ht, rfl, rfl⟩⟩
    · obtain rfl := hv.allowed ha
      exact Or.inl ⟨rfl, ht, ha, hf⟩
    · obtain rfl := hv.allowed ha
      exact Or.inr ⟨rfl, rfl, fun _ => by simpa [hna] using ha⟩
    · exact Or.inr ⟨rfl, rfl, fun h => absurd h ht⟩
  · rintro (⟨rfl, ht, ha, hf⟩ | ⟨rfl, rfl, ha⟩)
    · exact ⟨_, w, ⟨rfl, rfl⟩, Or.inl ⟨ht, true, w, ha, Or.inl ⟨rfl, ⟨⟩, w', hf, rfl, rfl⟩⟩⟩
    · refine ⟨_, w', ⟨rfl, rfl⟩, ?_⟩
      by_cases ht : Transition.triggered c t e w' = true
      · exact Or.inl ⟨ht, false, w', ha ht, Or.inr ⟨by simp, rfl, rfl⟩⟩
      · exact Or.inr ⟨ht, rfl, rfl⟩

/-! ### `State` -/

/-- The change `State::activate` makes before the client's actions run. -/
def Chart.arrive (c : Chart S T E P) (s : S) (w : World S T E P) : World S T E P :=
  c.scheduleTimeouts s (c.activateData s w)

/-- The change `State::deactivate` makes before the client's action runs. -/
def Chart.leave (c : Chart S T E P) (s : S) (w : World S T E P) : World S T E P :=
  c.deactivateData s (Chart.cancelTimeouts s w)

/-- The client's entry and do actions, in this order. -/
def Chart.greet (c : Chart S T E P) (s : S) (w : World S T E P) : World S T E P :=
  (w.perform (.entry s) (c.entryAction s)).perform (.doing s) (c.doAction s)

lemma State.returns_activate : Returns (State.activate c s) w b w'
    ↔ w.data.isActive s = true ∧ b = false ∧ w' = w
      ∨ w.data.isActive s = false ∧ b = true ∧ w' = c.greet s (c.arrive s w) := by
  cases h : w.data.isActive s <;> simp [State.activate, Chart.greet, Chart.arrive, h]

lemma State.returns_deactivate : Returns (State.deactivate c s) w u w'
    ↔ w.data.isActive s = false ∧ w' = w
      ∨ w.data.isActive s = true ∧ w' = (c.leave s w).perform (.exit s) (c.exitAction s) := by
  cases h : w.data.isActive s <;> simp [State.deactivate, Chart.leave, h]

/-! ### `HierarchicalState` -/

/-- A history stores the chain below the current substate of its context, or nothing. -/
lemma Chart.returns_storeHistory (hs : Returns (c.storeHistory h) w u w') :
    w' = w ∨ ∃ p type chain, c.context h = some p ∧ c.kind h = .pseudoState type
      ∧ (w.data.getData h).isSome = true
      ∧ c.calculateHistoryChain w.data type c.chainBound (w.data.current p) = some chain
      ∧ w' = w.onData fun m => m.modify h fun d => { d with stateset := chain } := by
  unfold Chart.storeHistory Returns StateT.run at hs
  dsimp only at hs
  split at hs
  · rename_i d p type hd hp hk
    obtain ⟨chain, hc, hw⟩ := Option.map_eq_some_iff.mp hs
    obtain ⟨-, rfl⟩ := Prod.mk.injEq .. ▸ hw
    exact Or.inr ⟨p, type, chain, hp, hk, by simp [hd], hc, rfl⟩
  · obtain ⟨-, rfl⟩ := Prod.mk.injEq .. ▸ Option.some.inj hs
    exact Or.inl rfl

lemma HierarchicalState.returns_saveHistory {cur : Option S} :
    Returns (HierarchicalState.saveHistory c s cur) w u w'
      ↔ (w' = w ∧ ∀ h, c.history s = some h → HierarchicalState.storesHistory c s h cur = false)
        ∨ ∃ h, c.history s = some h ∧ HierarchicalState.storesHistory c s h cur = true
          ∧ Returns (c.storeHistory h) w ⟨⟩ w' := by
  cases hh : c.history s with
  | none => simp [HierarchicalState.saveHistory, hh]
  | some h =>
      cases hs : HierarchicalState.storesHistory c s h cur <;>
        simp [HierarchicalState.saveHistory, hh, hs]

lemma HierarchicalState.returns_deactivate : Returns (HierarchicalState.deactivate c v s) w u w'
    ↔ w.data.isActive s = false ∧ w' = w
      ∨ w.data.isActive s = true ∧ ∃ w₁ w₂,
        Returns (HierarchicalState.saveHistory c s (w.data.current s)) w ⟨⟩ w₁
        ∧ Returns (HierarchicalState.deactivateCurrent v (w.data.current s)) w₁ ⟨⟩ w₂
        ∧ Returns (State.deactivate c s) (Chart.clearCurrent s w₂) ⟨⟩ w' := by
  cases h : w.data.isActive s <;> simp [HierarchicalState.deactivate, h]

/-- The first entry happens only without a substate and with a start state. -/
lemma HierarchicalState.returns_enterStart : Returns (HierarchicalState.enterStart c v s) w u w'
    ↔ (w' = w ∧ (w.data.current s = none → c.startState s = none))
      ∨ ∃ st, w.data.current s = none ∧ c.startState s = some st
        ∧ (((c.activateData st w).data.current s = none ∧ w' = c.activateData st w)
          ∨ ∃ q b, (c.activateData st w).data.current s = some q
            ∧ Returns (v.activate q) (c.activateData st w) b w') := by
  cases hc : w.data.current s with
  | some q => simp [HierarchicalState.enterStart, hc]
  | none =>
      cases hst : c.startState s with
      | none => simp [HierarchicalState.enterStart, hc, hst]
      | some st =>
          cases hq : (c.activateData st w).data.current s <;>
            simp [HierarchicalState.enterStart, hc, hst, hq]

omit [DecidableEq S] in
lemma HierarchicalState.returns_dispatchCurrent :
    Returns (HierarchicalState.dispatchCurrent v s e) w b w'
      ↔ w.data.current s = none ∧ b = false ∧ w' = w
        ∨ ∃ q, w.data.current s = some q ∧ Returns (v.dispatch q e) w b w' := by
  cases h : w.data.current s <;> simp [HierarchicalState.dispatchCurrent, h]

/-- The world in which the own transitions of `s` are tried after its substate. -/
def HierarchicalState.offered (s : S) (e : Option E) (handled : Bool) (w : World S T E P) :
    World S T E P :=
  if handled then w.log (.fallThrough s e.isSome) else w

lemma HierarchicalState.returns_dispatch : Returns (HierarchicalState.dispatch c v s e) w b w'
    ↔ w.data.isActive s = false ∧ b = false ∧ w' = w
      ∨ w.data.isActive s = true ∧ ∃ w₁ w₂ handled,
        Returns (HierarchicalState.enterStart c v s) w ⟨⟩ w₁
        ∧ Returns (HierarchicalState.dispatchCurrent v s e) w₁ handled w₂
        ∧ (w₂.data.isActive s = false ∧ b = handled ∧ w' = w₂
          ∨ w₂.data.isActive s = true ∧ handled = true
            ∧ c.isFinal (w₂.data.current s) = false ∧ b = true ∧ w' = w₂
          ∨ w₂.data.isActive s = true
            ∧ (handled = true → c.isFinal (w₂.data.current s) = true)
            ∧ Returns ((c.transitions s).anyM
                (HierarchicalState.tryTransition c v (c.isFinal (w₂.data.current s)) e))
              (HierarchicalState.offered s e handled w₂) b w') := by
  cases h : w.data.isActive s
  · simp [HierarchicalState.dispatch, h]
  · simp only [HierarchicalState.dispatch, returns_bind, returns_peek, exists_and_left, h,
      ↓reduceIte, true_and, exists_punit, Bool.true_eq_false, false_and, false_or,
      exists_eq_left, and_assoc]
    refine exists_congr fun w₁ => ?_
    refine and_congr_right fun _ => ?_
    rw [exists_comm]
    refine exists_congr fun w₂ => exists_congr fun handled => and_congr_right fun _ => ?_
    cases hs : w₂.data.isActive s
    · simp
    · cases handled <;> cases hf : c.isFinal (w₂.data.current s) <;>
        simp [HierarchicalState.offered, hf]

/-- A transition without a trigger does not look at the event. -/
lemma Transition.execute_of_event_eq_none (ht : c.event t = none) (e e' : Option E) :
    Transition.execute c v t e = Transition.execute c v t e' := by
  have h : Transition.triggered c t e = Transition.triggered c t e' := by
    funext w
    simp [Transition.triggered, ht]
  rw [Transition.execute, h, Transition.execute]

lemma execute_false (hp : v.Pure) (h : Returns (Transition.execute c v t e) w false w') :
    w' = w := by
  rcases (Transition.returns_execute hp).mp h with ⟨hb, -⟩ | ⟨-, rfl, -⟩
  · exact absurd hb (by simp)
  · rfl

/-- A round of the loop over the own transitions, by trigger and completion. -/
lemma HierarchicalState.returns_tryTransition (hv : v.Pure) {fin : Bool} :
    Returns (HierarchicalState.tryTransition c v fin e t) w b w'
      ↔ (c.event t = none ∧ fin = false) ∧ b = false ∧ w' = w
        ∨ (c.event t = none → fin = true) ∧ Returns (Transition.execute c v t e) w b w' := by
  cases ht : c.event t with
  | some ev => simp [HierarchicalState.tryTransition, ht]
  | none =>
      cases fin with
      | false => simp [HierarchicalState.tryTransition, ht]
      | true =>
          have he := Transition.execute_of_event_eq_none (v := v) ht none e
          simp only [HierarchicalState.tryTransition, ht, he, Option.isSome_none,
            Bool.false_eq_true, ↓reduceIte, returns_bind, returns_ite, returns_pure]
          constructor
          · rintro ⟨a, w₁, h, ⟨rfl, rfl, rfl⟩ | ⟨ha, h'⟩⟩
            · exact Or.inr ⟨fun _ => trivial, h⟩
            · rcases (Transition.returns_execute hv).mp h with ⟨rfl, -⟩ | ⟨-, rfl, -⟩
              · exact absurd rfl ha
              · exact Or.inr ⟨fun _ => trivial, h'⟩
          · rintro (⟨⟨-, hf⟩, -⟩ | ⟨-, h⟩)
            · exact absurd hf (by simp)
            · refine ⟨b, w', h, ?_⟩
              rcases (Transition.returns_execute hv).mp h with ⟨rfl, -⟩ | ⟨rfl, rfl, -⟩
              · exact Or.inl ⟨rfl, rfl, rfl⟩
              · exact Or.inr ⟨by simp, h⟩

lemma HierarchicalState.tryTransition_false (hp : v.Pure) {fin : Bool}
    (h : Returns (HierarchicalState.tryTransition c v fin e t) w false w') : w' = w := by
  rcases (HierarchicalState.returns_tryTransition hp).mp h with ⟨-, -, rfl⟩ | ⟨-, h⟩
  · rfl
  · exact execute_false hp h

/-! ### `ConcurrentState` -/

lemma ConcurrentState.returns_enterRegion : Returns (ConcurrentState.enterRegion v n h) w u w'
    ↔ h ∈ w.data.stateset n ∧ w' = w
      ∨ h ∉ w.data.stateset n ∧ Returns (v.activate h) w false w'
      ∨ h ∉ w.data.stateset n ∧ ∃ w₁ b, Returns (v.activate h) w true w₁
          ∧ Returns (v.dispatch h none) w₁ b w' := by
  by_cases hh : h ∈ w.data.stateset n <;> simp [ConcurrentState.enterRegion, hh, returns_ite]

lemma ConcurrentState.returns_enterRegions : Returns (ConcurrentState.enterRegions c v n) w u w'
    ↔ w.data.getData n = none ∧ w' = w
      ∨ (∃ d, w.data.getData n = some d) ∧ ∃ w₁,
        Returns ((c.regions n).forM (ConcurrentState.enterRegion v n)) (w.log (.entering n)) ⟨⟩ w₁
        ∧ w' = w₁.log (.entered n) := by
  cases hd : w.data.getData n <;> simp [ConcurrentState.enterRegions, hd]

lemma ConcurrentState.returns_activate : Returns (ConcurrentState.activate c v n) w b w'
    ↔ w.data.isActive n = true ∧ b = false ∧ w' = w
      ∨ w.data.isActive n = false ∧ b = true
        ∧ Returns (ConcurrentState.enterRegions c v n) (c.greet n (c.arrive n w)) ⟨⟩ w' := by
  simp only [ConcurrentState.activate, returns_bind, State.returns_activate, returns_ite,
    returns_pure, exists_punit]
  constructor
  · rintro ⟨a, w₁, ⟨h, rfl, rfl⟩ | ⟨h, rfl, rfl⟩, ⟨ha, w₂, h₂, rfl, rfl⟩ | ⟨ha, rfl, rfl⟩⟩
    · exact absurd ha (by simp)
    · exact Or.inl ⟨h, rfl, rfl⟩
    · exact Or.inr ⟨h, rfl, h₂⟩
    · exact absurd rfl ha
  · rintro (⟨h, rfl, rfl⟩ | ⟨h, rfl, h'⟩)
    · exact ⟨false, w', Or.inl ⟨h, rfl, rfl⟩, Or.inr ⟨by simp, rfl, rfl⟩⟩
    · exact ⟨true, _, Or.inr ⟨h, rfl, rfl⟩, Or.inl ⟨rfl, w', h', rfl, rfl⟩⟩

lemma ConcurrentState.returns_deactivate : Returns (ConcurrentState.deactivate c v n) w u w'
    ↔ ∃ w₁, Returns ((c.regions n).forM v.deactivate) (Chart.clearStateset n w) ⟨⟩ w₁
      ∧ Returns (State.deactivate c n) w₁ ⟨⟩ w' := by
  simp [ConcurrentState.deactivate]

omit [DecidableEq S] in
lemma ConcurrentState.returns_dispatchRegion :
    Returns (ConcurrentState.dispatchRegion v n e h) w b w'
      ↔ w.data.isActive n = false ∧ b = false ∧ w' = w
        ∨ w.data.isActive n = true ∧ Returns (v.dispatch h e) w b w' := by
  cases hn : w.data.isActive n <;> simp [ConcurrentState.dispatchRegion, hn]

omit [DecidableEq S] in
lemma ConcurrentState.returns_dispatchRegions_cons {l : List S} :
    Returns (ConcurrentState.dispatchRegions v n e (h :: l)) w b w'
      ↔ ∃ b₁ w₁ b₂, Returns (ConcurrentState.dispatchRegion v n e h) w b₁ w₁
        ∧ Returns (ConcurrentState.dispatchRegions v n e l) w₁ b₂ w' ∧ b = (b₁ || b₂) := by
  simp [ConcurrentState.dispatchRegions, and_comm]

lemma ConcurrentState.returns_tryTransition :
    Returns (ConcurrentState.tryTransition c v n e t) w b w'
      ↔ (w.data.isActive n = false
          ∨ c.event t = none ∧ ConcurrentState.finished c n w = false) ∧ b = false ∧ w' = w
        ∨ w.data.isActive n = true
          ∧ (c.event t = none → ConcurrentState.finished c n w = true)
          ∧ Returns (Transition.execute c v t e) w b w' := by
  cases hn : w.data.isActive n <;> cases he : c.event t <;>
    cases hf : ConcurrentState.finished c n w <;>
    simp [ConcurrentState.tryTransition, hn, he, hf]

lemma ConcurrentState.tryTransition_false (hp : v.Pure)
    (h : Returns (ConcurrentState.tryTransition c v n e t) w false w') : w' = w := by
  rcases ConcurrentState.returns_tryTransition.mp h with ⟨-, -, rfl⟩ | ⟨-, -, h⟩
  · rfl
  · exact execute_false hp h

lemma ConcurrentState.returns_dispatch : Returns (ConcurrentState.dispatch c v n e) w b w'
    ↔ Returns (ConcurrentState.dispatchRegions v n e (c.regions n)) w true w' ∧ b = true
      ∨ ∃ w₁, Returns (ConcurrentState.dispatchRegions v n e (c.regions n)) w false w₁
        ∧ Returns ((c.transitions n).anyM (ConcurrentState.tryTransition c v n e)) w₁ b w' := by
  simp only [ConcurrentState.dispatch, returns_bind, returns_ite, returns_pure]
  constructor
  · rintro ⟨a, w₁, h, ⟨rfl, rfl, rfl⟩ | ⟨ha, h'⟩⟩
    · exact Or.inl ⟨h, rfl⟩
    · exact Or.inr ⟨w₁, by simpa [ha] using h, h'⟩
  · rintro (⟨h, rfl⟩ | ⟨w₁, h, h'⟩)
    · exact ⟨true, w', h, Or.inl ⟨rfl, rfl, rfl⟩⟩
    · exact ⟨false, w₁, h, Or.inr ⟨by simp, h'⟩⟩

/-! ### `PseudoState` -/

/-- The change a pseudo-state makes before it restores or registers anything. -/
def Chart.visit (c : Chart S T E P) (s : S) (w : World S T E P) : World S T E P :=
  (c.activateData s w).perform (.entry s) (c.entryAction s)

/-- The loop of a fork over its branches. -/
def PseudoState.registerBranches (c : Chart S T E P) (s : S) : Comp (World S T E P) PUnit :=
  (c.transitions s).forM fun t => do
    if ← peek (Transition.guardHolds c t) then
      modify (c.registerRegions (c.activates t))

lemma PseudoState.returns_activate : Returns (PseudoState.activate c v s) w b w'
    ↔ b = true ∧ ((c.kind s).isHistory = true
          ∧ Returns (((c.visit s w).data.stateset s).forM fun q => do let _ ← v.activate q)
              (c.visit s w) ⟨⟩ w'
        ∨ (c.kind s).isHistory = false ∧ c.kind s = .pseudoState .fork
          ∧ Returns (PseudoState.registerBranches c s) (c.visit s w) ⟨⟩ w'
        ∨ (c.kind s).isHistory = false ∧ c.kind s ≠ .pseudoState .fork ∧ w' = c.visit s w) := by
  cases hh : (c.kind s).isHistory
  · by_cases hf : c.kind s = .pseudoState .fork
    · simp [PseudoState.activate, Chart.visit, PseudoState.registerBranches, hf,
        StateKind.isHistory]
    · simp [PseudoState.activate, Chart.visit, hh, hf]
  · simp [PseudoState.activate, Chart.visit, hh]

lemma PseudoState.returns_dispatch : Returns (PseudoState.dispatch c v s e) w b w'
    ↔ (∃ q, (c.kind s).isHistory = true ∧ PseudoState.restored c s w = some q
          ∧ Returns (v.dispatch q e) w b w')
      ∨ c.kind s = .pseudoState .fork ∧ b = true
        ∧ Returns ((c.transitions s).forM fun t => do let _ ← Transition.execute c v t e) w ⟨⟩ w'
      ∨ ((c.kind s).isHistory = true ∧ PseudoState.restored c s w = none
          ∨ (c.kind s).isHistory = false ∧ c.kind s ≠ .pseudoState .fork)
        ∧ Returns (State.dispatch c v s e) w b w' := by
  cases hh : (c.kind s).isHistory
  · by_cases hf : c.kind s = .pseudoState .fork
    · simp [PseudoState.dispatch, hf, StateKind.isHistory]
    · simp [PseudoState.dispatch, hh, hf]
  · have hf : c.kind s ≠ .pseudoState .fork := fun h => by simp [h, StateKind.isHistory] at hh
    cases hr : PseudoState.restored c s w <;>
      simp [PseudoState.dispatch, hh, hr, hf]

/-! ### The calls -/

namespace Statechart

variable {k : ℕ} {o : Outcome}

lemma returns_start :
    Returns (start c k) w o w' ↔ Returns (dispatch c k none) (enter c w) o w' := by
  simp [start]

/-- The world after a reset. -/
def forget (w : World S T E P) : World S T E P := (w.onData fun _ => .reset).log .reset

/-- The loop of `restoreState` over the states of a path. -/
def activateAll (c : Chart S T E P) (k : ℕ) (l : List S) : Comp (World S T E P) PUnit :=
  l.forM fun x => do let _ ← (c.methods k).activate x

lemma returns_restoreState : Returns (restoreState c k s) w b w'
    ↔ w.data.isActive c.root = true ∧ b = false ∧ w' = w
      ∨ w.data.isActive c.root = false ∧ b = true
        ∧ Returns (activateAll c k (restorePath c s)) (forget w) ⟨⟩ w' := by
  cases h : w.data.isActive c.root <;>
    simp [restoreState, activateAll, forget, h, and_comm, eq_comm]

end Statechart

end CppStatecharts
