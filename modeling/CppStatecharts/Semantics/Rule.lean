import CppStatecharts.Semantics.Inversion

/-!
The invariant rules of the development.

* `Chart.Eligible`: what is known of the source of a transition that is tried.
* `Tries c e R v`: the preorder `R` contains the first entries, the runs of the transitions tried on
  the event `e` and the dispatches of `e` by the methods called; then it contains the dispatches of
  the methods one level up (`Tries.step`). `Offers c e R v` asks for the runs of all transitions.
* `Arriving c Es R`: the preorder `R` contains every elementary change that the methods of `c` make
  when the events offered are among `Es`, but for those of a firing, and of the entry of a history,
  which `Arriving.methods` takes as wholes. States are left by firings alone, so nothing is asked of
  `deactivate`.
* `Entering c Es R`: it contains the visits of histories, too, and `Entering.methods` takes firings
  alone as wholes.
* `Steady c Es R`: it contains the changes that leave states, too, and `Steady.methods` says so of
  `deactivate`.
* `Compatible c Es R`: it contains the changes of a firing, too.
* `Compatible.methods`: every run of every method then relates its first world to its last
  by `R`; `Compatible.pass`, `Compatible.completionLoop` and `Compatible.dispatch` say the same of
  `Statechart::dispatch`.
* `Compatible.calls`: the same for any sequence of calls, when `R` also contains the beginning of
  `Statechart::start` and the choice of a parameter.
-/

namespace CppStatecharts

variable {S T E P : Type} [DecidableEq S]

/-! ### The rule for dispatching -/

/-- What the code makes sure of before it tries the transition `t`: a hierarchical or concurrent
source is active, and it is completed, unless `t` has a trigger. -/
structure Chart.Eligible (c : Chart S T E P) (t : T) (w : World S T E P) : Prop where
  active : c.kind (c.source t) = .hierarchicalState ∨ c.kind (c.source t) = .concurrentState →
    w.data.isActive (c.source t) = true
  final : c.kind (c.source t) = .hierarchicalState → c.event t = none →
    c.isFinal (w.data.current (c.source t)) = true
  finished : c.kind (c.source t) = .concurrentState → c.event t = none →
    ConcurrentState.finished c (c.source t) w = true

/-- The preorder `R` contains the first entries, the runs of single transitions on the event `e`
where they are tried, and the dispatches of the methods called. -/
structure Tries (c : Chart S T E P) (e : Option E) (R : World S T E P → World S T E P → Prop)
    (v : Methods S T E P) : Prop where
  refl : ∀ w, R w w
  trans : ∀ {w₁ w₂ w₃}, R w₁ w₂ → R w₂ w₃ → R w₁ w₃
  fallThrough : ∀ s w, R w (w.log (.fallThrough s e.isSome))
  enterStart : ∀ s, Keeps R (HierarchicalState.enterStart c v s)
  execute : ∀ t w b w', c.Eligible t w → Returns (Transition.execute c v t e) w b w' → R w w'
  dispatch : ∀ s, Keeps R (v.dispatch s e)

namespace Tries

variable {c : Chart S T E P} {e : Option E} {R : World S T E P → World S T E P → Prop}
variable {v : Methods S T E P}

lemma std_refl (h : Tries c e R v) : Std.Refl R := ⟨h.refl⟩

lemma isTrans (h : Tries c e R v) : IsTrans (World S T E P) R := ⟨fun _ _ _ => h.trans⟩

/-- Other sources are not asked anything. -/
lemma keeps_execute (h : Tries c e R v) {t : T} (hk : c.kind (c.source t) ≠ .hierarchicalState)
    (hk' : c.kind (c.source t) ≠ .concurrentState) : Keeps R (Transition.execute c v t e) :=
  fun w b w' => h.execute t w b w'
    ⟨fun h => (h.elim hk hk').elim, fun h => absurd h hk, fun h => absurd h hk'⟩

lemma state_dispatch (h : Tries c e R v) {s : S} (hk : c.kind s ≠ .hierarchicalState)
    (hk' : c.kind s ≠ .concurrentState) : Keeps R (State.dispatch c v s e) := by
  have := h.std_refl
  have := h.isTrans
  refine keeps_anyM fun t ht => ?_
  obtain rfl := (Chart.mem_transitions.mp ht).2
  exact h.keeps_execute hk hk'

lemma dispatchCurrent (h : Tries c e R v) (s : S) :
    Keeps R (HierarchicalState.dispatchCurrent v s e) := by
  intro w b w' hd
  rcases HierarchicalState.returns_dispatchCurrent.mp hd with ⟨-, -, rfl⟩ | ⟨q, -, hq⟩
  · exact h.refl _
  · exact h.dispatch q _ _ _ hq

/-- The transitions tried before the one that fires change nothing. -/
lemma hierarchical_transitions (h : Tries c e R v) (hp : v.Pure) {s : S} {fin : Bool}
    (hk : c.kind s = .hierarchicalState) {w w' : World S T E P} {b : Bool}
    (hs : w.data.isActive s = true) (hfin : fin = true → c.isFinal (w.data.current s) = true)
    (hd : Returns ((c.transitions s).anyM (HierarchicalState.tryTransition c v fin e)) w b w') :
    R w w' := by
  rcases (returns_anyM_of_eq fun _ _ _ => HierarchicalState.tryTransition_false hp).mp hd with
    ⟨-, rfl, -⟩ | ⟨-, pre, t, post, hl, -, ht⟩
  · exact h.refl _
  obtain rfl := (Chart.mem_transitions.mp (hl ▸ by simp : t ∈ c.transitions s)).2
  rcases (HierarchicalState.returns_tryTransition hp).mp ht with ⟨-, -, rfl⟩ | ⟨hf, ht⟩
  · exact h.refl _
  · exact h.execute t _ _ _ ⟨fun _ => hs, fun _ he => hfin (hf he), fun hc => by simp [hk] at hc⟩ ht

lemma hierarchical_dispatch (h : Tries c e R v) (hp : v.Pure) {s : S}
    (hk : c.kind s = .hierarchicalState) : Keeps R (HierarchicalState.dispatch c v s e) := by
  intro w b w' hd
  rcases HierarchicalState.returns_dispatch.mp hd with
    ⟨-, -, rfl⟩ | ⟨-, w₁, w₂, handled, h₁, h₂, h₃⟩
  · exact h.refl _
  have hsub := h.trans (h.enterStart s _ _ _ h₁) (h.dispatchCurrent s _ _ _ h₂)
  rcases h₃ with ⟨-, -, rfl⟩ | ⟨-, -, -, -, rfl⟩ | ⟨ha, -, h₃⟩
  · exact hsub
  · exact hsub
  · cases handled with
    | false => exact h.trans hsub (h.hierarchical_transitions hp hk ha id h₃)
    | true =>
        exact h.trans hsub <| h.trans (h.fallThrough s w₂) <|
          h.hierarchical_transitions hp hk ha id h₃

lemma dispatchRegion (h : Tries c e R v) (n r : S) :
    Keeps R (ConcurrentState.dispatchRegion v n e r) := by
  intro w b w' hd
  rcases ConcurrentState.returns_dispatchRegion.mp hd with ⟨-, -, rfl⟩ | ⟨-, hd⟩
  · exact h.refl _
  · exact h.dispatch r _ _ _ hd

lemma dispatchRegions (h : Tries c e R v) (n : S) :
    ∀ l : List S, Keeps R (ConcurrentState.dispatchRegions v n e l)
  | [] => have := h.std_refl; keeps_pure _
  | r :: l => by
      intro w b w' hd
      obtain ⟨b₁, w₁, b₂, h₁, h₂, -⟩ := ConcurrentState.returns_dispatchRegions_cons.mp hd
      exact h.trans (h.dispatchRegion n r _ _ _ h₁) (dispatchRegions h n l _ _ _ h₂)

lemma concurrent_dispatch (h : Tries c e R v) {n : S} (hk : c.kind n = .concurrentState) :
    Keeps R (ConcurrentState.dispatch c v n e) := by
  have := h.std_refl
  have := h.isTrans
  intro w b w' hd
  rcases ConcurrentState.returns_dispatch.mp hd with ⟨hd, -⟩ | ⟨w₁, h₁, h₂⟩
  · exact h.dispatchRegions n _ _ _ _ hd
  refine h.trans (h.dispatchRegions n _ _ _ _ h₁) (keeps_anyM (fun t ht => ?_) _ _ _ h₂)
  obtain rfl := (Chart.mem_transitions.mp ht).2
  intro w b w' ht
  rcases ConcurrentState.returns_tryTransition.mp ht with ⟨-, -, rfl⟩ | ⟨ha, hf, ht⟩
  · exact h.refl _
  · exact h.execute t _ _ _ ⟨fun _ => ha, fun hc => by simp [hk] at hc, fun _ => hf⟩ ht

lemma pseudo_dispatch (h : Tries c e R v) {s : S} {type : PseudoStateType}
    (hk : c.kind s = .pseudoState type) : Keeps R (PseudoState.dispatch c v s e) := by
  have := h.std_refl
  have := h.isTrans
  have hstate : Keeps R (State.dispatch c v s e) :=
    h.state_dispatch (by simp [hk]) (by simp [hk])
  intro w b w' hd
  rcases PseudoState.returns_dispatch.mp hd with ⟨q, -, -, hd⟩ | ⟨-, -, hd⟩ | ⟨-, hd⟩
  · exact h.dispatch q _ _ _ hd
  · refine keeps_forM (fun t ht => keeps_bind ?_ fun _ => keeps_pure _) _ _ _ hd
    obtain rfl := (Chart.mem_transitions.mp ht).2
    exact h.keeps_execute (by simp [hk]) (by simp [hk])
  · exact hstate _ _ _ hd

lemma step (h : Tries c e R v) (hp : v.Pure) (s : S) : Keeps R ((c.step v).dispatch s e) := by
  cases hk : c.kind s <;> simp only [Chart.step, hk]
  case hierarchicalState => exact h.hierarchical_dispatch hp hk
  case concurrentState => exact h.concurrent_dispatch hk
  case pseudoState => exact h.pseudo_dispatch hk
  all_goals exact h.state_dispatch (by simp [hk]) (by simp [hk])

end Tries

/-- The preorder `R` contains the first entries, the runs of single transitions on the event `e` and
the dispatches of the methods called. -/
structure Offers (c : Chart S T E P) (e : Option E) (R : World S T E P → World S T E P → Prop)
    (v : Methods S T E P) : Prop where
  refl : ∀ w, R w w
  trans : ∀ {w₁ w₂ w₃}, R w₁ w₂ → R w₂ w₃ → R w₁ w₃
  fallThrough : ∀ s w, R w (w.log (.fallThrough s e.isSome))
  enterStart : ∀ s, Keeps R (HierarchicalState.enterStart c v s)
  execute : ∀ t, Keeps R (Transition.execute c v t e)
  dispatch : ∀ s, Keeps R (v.dispatch s e)

namespace Offers

variable {c : Chart S T E P} {e : Option E} {R : World S T E P → World S T E P → Prop}
variable {v : Methods S T E P}

lemma tries (h : Offers c e R v) : Tries c e R v :=
  ⟨h.refl, h.trans, h.fallThrough, h.enterStart, fun t w b w' _ => h.execute t w b w', h.dispatch⟩

lemma dispatchCurrent (h : Offers c e R v) (s : S) :
    Keeps R (HierarchicalState.dispatchCurrent v s e) := h.tries.dispatchCurrent s

lemma dispatchRegion (h : Offers c e R v) (n r : S) :
    Keeps R (ConcurrentState.dispatchRegion v n e r) := h.tries.dispatchRegion n r

lemma dispatchRegions (h : Offers c e R v) (n : S) (l : List S) :
    Keeps R (ConcurrentState.dispatchRegions v n e l) := h.tries.dispatchRegions n l

lemma hierarchical_tryTransition (h : Offers c e R v) (hp : v.Pure) (fin : Bool) (t : T) :
    Keeps R (HierarchicalState.tryTransition c v fin e t) := by
  intro w b w' ht
  rcases (HierarchicalState.returns_tryTransition hp).mp ht with ⟨-, -, rfl⟩ | ⟨-, ht⟩
  · exact h.refl _
  · exact h.execute t _ _ _ ht

lemma concurrent_tryTransition (h : Offers c e R v) (n : S) (t : T) :
    Keeps R (ConcurrentState.tryTransition c v n e t) := by
  intro w b w' ht
  rcases ConcurrentState.returns_tryTransition.mp ht with ⟨-, -, rfl⟩ | ⟨-, -, ht⟩
  · exact h.refl _
  · exact h.execute t _ _ _ ht

end Offers

/-! ### The rule for all methods -/

/-- The preorder `R` contains every elementary change the methods make outside firings, while the
events offered are among `Es`, but for the visits of histories. A concurrent state's entry is
bracketed by its marks. -/
structure Arriving (c : Chart S T E P) (Es : Set (Option E))
    (R : World S T E P → World S T E P → Prop) : Prop where
  null : none ∈ Es
  refl : ∀ w, R w w
  trans : ∀ {w₁ w₂ w₃}, R w₁ w₂ → R w₂ w₃ → R w₁ w₃
  fallThrough : ∀ s w, ∀ e ∈ Es, R w (w.log (.fallThrough s e.isSome))
  bracket : ∀ n w w', R (w.log (.entering n)) w' → R w (w'.log (.entered n))
  entry : ∀ s w, R w (w.perform (.entry s) (c.entryAction s))
  doing : ∀ s w, R w (w.perform (.doing s) (c.doAction s))
  visit : ∀ s w, (c.kind s).isPseudo = true → (c.kind s).isHistory = false →
    R w (c.activateData s w)
  arrive : ∀ s w, (c.kind s).isPseudo = false → w.data.isActive s = false → R w (c.arrive s w)
  registerRegion : ∀ n r w, c.kind n = .concurrentState → R w (Chart.registerRegion n r w)

/-- The preorder `R` contains every elementary change the methods make outside firings, while the
events offered are among `Es`. -/
structure Entering (c : Chart S T E P) (Es : Set (Option E))
    (R : World S T E P → World S T E P → Prop) : Prop extends Arriving c Es R where
  activateData : ∀ s w, (c.kind s).isPseudo = true → R w (c.activateData s w)
  visit := fun s w hs _ => activateData s w hs

/-- The preorder `R` contains every elementary change the methods make, while the events offered are
among `Es`, but for those of a transition that fires. -/
structure Steady (c : Chart S T E P) (Es : Set (Option E))
    (R : World S T E P → World S T E P → Prop) : Prop extends Entering c Es R where
  exit : ∀ s w, R w (w.perform (.exit s) (c.exitAction s))
  leave : ∀ s w, w.data.isActive s = true → R w (c.leave s w)
  clearStateset : ∀ n w, c.kind n = .concurrentState → R w (Chart.clearStateset n w)
  clearCurrent : ∀ s w, c.kind s = .hierarchicalState → R w (Chart.clearCurrent s w)
  storeHistory : ∀ s h w w', c.history s = some h →
    HierarchicalState.storesHistory c s h (w.data.current s) = true →
    Returns (c.storeHistory h) w ⟨⟩ w' → R w w'

/-- The preorder `R` contains every elementary change the methods make while the events offered
are among `Es`. -/
structure Compatible (c : Chart S T E P) (Es : Set (Option E))
    (R : World S T E P → World S T E P → Prop) : Prop extends Steady c Es R where
  fire : ∀ t w, ∀ e ∈ Es, Transition.triggered c t e w = true → R w (w.log (.fire t w.data))
  fired : ∀ t m w, R w (w.log (.fired t m w.data))
  effect : ∀ t w, R w (w.perform (.effect t) (c.action t))

/-- Every method that enters states or offers events, these among `Es`, relates its first world to
its last. -/
structure Methods.Enter (Es : Set (Option E)) (R : World S T E P → World S T E P → Prop)
    (v : Methods S T E P) : Prop where
  activate : ∀ s, Keeps R (v.activate s)
  dispatch : ∀ s, ∀ e ∈ Es, Keeps R (v.dispatch s e)

/-- Every method that is reached by virtual dispatch, with events among `Es`, relates its first
world to its last. -/
structure Methods.Keep (Es : Set (Option E)) (R : World S T E P → World S T E P → Prop)
    (v : Methods S T E P) : Prop where
  activate : ∀ s, Keeps R (v.activate s)
  deactivate : ∀ s, Keeps R (v.deactivate s)
  dispatch : ∀ s, ∀ e ∈ Es, Keeps R (v.dispatch s e)

omit [DecidableEq S] in
lemma Methods.Keep.toEnter {Es : Set (Option E)} {R : World S T E P → World S T E P → Prop}
    {v : Methods S T E P} (h : v.Keep Es R) : v.Enter Es R := ⟨h.activate, h.dispatch⟩

/-- The first change that the activation of `s` makes, if any. -/
inductive Chart.Receives (c : Chart S T E P) (s : S) (w : World S T E P) : World S T E P → Prop
  | active (ha : w.data.isActive s = true) : Receives c s w w
  | arrive (hs : (c.kind s).isPseudo = false) (hi : w.data.isActive s = false) :
      Receives c s w (c.arrive s w)
  | visit (hs : (c.kind s).isPseudo = true) : Receives c s w (c.activateData s w)

namespace Arriving

variable {c : Chart S T E P} {Es : Set (Option E)} {R : World S T E P → World S T E P → Prop}
variable {v : Methods S T E P} {w w₁ w' : World S T E P} {s : S} {b : Bool}

lemma std_refl (h : Arriving c Es R) : Std.Refl R := ⟨h.refl⟩

lemma isTrans (h : Arriving c Es R) : IsTrans (World S T E P) R := ⟨fun _ _ _ => h.trans⟩

lemma greet (h : Arriving c Es R) (s : S) (w : World S T E P) : R w (c.greet s w) :=
  h.trans (h.entry s w) (h.doing s _)

lemma registerRegions (h : Arriving c Es R) (l : List S) (w : World S T E P) :
    R w (c.registerRegions l w) := by
  have := h.std_refl
  have := h.isTrans
  refine rel_foldl (fun w p => ?_) _ w
  split
  · exact h.registerRegion _ _ _ ‹_›
  · exact h.refl w

lemma activateAll (h : Arriving c Es R) (hv : v.Enter Es R) :
    ∀ l : List S, Keeps R (Transition.activateAll c v l)
  | [] => have := h.std_refl; keeps_pure _
  | [s] => by
      have := h.std_refl
      have := h.isTrans
      exact keeps_bind (hv.activate s) fun _ => keeps_pure _
  | s :: r :: rest => by
      have := h.std_refl
      have := h.isTrans
      have hrest := keeps_bind (hv.activate s) fun _ => activateAll h hv (r :: rest)
      by_cases hs : c.kind s = .concurrentState
      · simp only [Transition.activateAll, hs, ↓reduceIte]
        exact keeps_bind (keeps_modify fun w => h.registerRegion s r w hs) fun _ => hrest
      · simp only [Transition.activateAll, hs, ↓reduceIte]
        exact hrest

/-! ### States -/

lemma enterStart (h : Arriving c Es R) (hv : v.Enter Es R) (s : S) :
    Keeps R (HierarchicalState.enterStart c v s) := by
  intro w u w' he
  rcases HierarchicalState.returns_enterStart.mp he with ⟨rfl, -⟩ | ⟨st, -, hst, he⟩
  · exact h.refl _
  have hk := (Chart.startState_eq_some hst).1
  have hvisit : R w (c.activateData st w) := h.visit st w (by rw [hk]; rfl) (by rw [hk]; rfl)
  rcases he with ⟨-, rfl⟩ | ⟨q, b, -, he⟩
  · exact hvisit
  · exact h.trans hvisit (hv.activate q _ _ _ he)

lemma enterRegion (h : Arriving c Es R) (hv : v.Enter Es R) (n r : S) :
    Keeps R (ConcurrentState.enterRegion v n r) := by
  intro w u w' he
  rcases ConcurrentState.returns_enterRegion.mp he with
    ⟨-, rfl⟩ | ⟨-, ha⟩ | ⟨-, w₁, b, ha, hd⟩
  · exact h.refl _
  · exact hv.activate r _ _ _ ha
  · exact h.trans (hv.activate r _ _ _ ha) (hv.dispatch r none h.null _ _ _ hd)

/-- An activation goes on from its first change. -/
lemma activate_receives (h : Arriving c Es R) (hv : v.Enter Es R)
    (hs : (c.kind s).isHistory = false) (ha : Returns ((c.step v).activate s) w b w') :
    ∃ w₁, c.Receives s w w₁ ∧ R w₁ w' := by
  have := h.std_refl
  have := h.isTrans
  cases hk : c.kind s <;> simp only [Chart.step, hk] at ha
  case concurrentState =>
    rcases ConcurrentState.returns_activate.mp ha with ⟨hact, -, rfl⟩ | ⟨hi, -, ha⟩
    · exact ⟨_, .active hact, h.refl _⟩
    refine ⟨_, .arrive (by rw [hk]; rfl) hi, h.trans (h.greet s _) ?_⟩
    rcases ConcurrentState.returns_enterRegions.mp ha with ⟨-, rfl⟩ | ⟨-, w₁, h₁, rfl⟩
    · exact h.refl _
    · exact h.bracket s _ w₁ (keeps_forM (fun r _ => h.enterRegion hv s r) _ _ _ h₁)
  case pseudoState =>
    refine ⟨_, .visit (by rw [hk]; rfl), h.trans (h.entry s _) ?_⟩
    rcases (PseudoState.returns_activate.mp ha).2 with ⟨hh, -⟩ | ⟨-, -, ha⟩ | ⟨-, -, rfl⟩
    · rw [hs] at hh
      cases hh
    · refine keeps_forM (fun t _ => ?_) _ _ _ ha
      exact keeps_bind (keeps_peek _) fun _ =>
        keeps_ite (keeps_modify fun w => h.registerRegions _ w) (keeps_pure _)
    · exact h.refl _
  all_goals
    rcases State.returns_activate.mp ha with ⟨hact, -, rfl⟩ | ⟨hi, -, rfl⟩
    · exact ⟨_, .active hact, h.refl _⟩
    · exact ⟨_, .arrive (by rw [hk]; rfl) hi, h.greet s _⟩

lemma receives (h : Arriving c Es R) (hs : (c.kind s).isHistory = false)
    (hr : c.Receives s w w₁) : R w w₁ := by
  cases hr with
  | active => exact h.refl _
  | arrive hk hi => exact h.arrive s w hk hi
  | visit hk => exact h.visit s w hk hs

/-! ### Virtual dispatch -/

lemma offers (h : Arriving c Es R) (hv : v.Enter Es R)
    (hx : ∀ t, ∀ e ∈ Es, Keeps R (Transition.execute c v t e)) {e : Option E} (he : e ∈ Es) :
    Offers c e R v where
  refl := h.refl
  trans := h.trans
  fallThrough s w := h.fallThrough s w e he
  enterStart := h.enterStart hv
  execute t := hx t e he
  dispatch s := hv.dispatch s e he

section Execute

variable (h : Arriving c Es R) (hp : v.Pure) (hv : v.Enter Es R)
variable (hx : ∀ t, ∀ e ∈ Es, ∀ w b w', c.Eligible t w →
  Returns (Transition.execute c v t e) w b w' → R w w')

include h hv hx

lemma tries {e : Option E} (he : e ∈ Es) : Tries c e R v where
  refl := h.refl
  trans := h.trans
  fallThrough s w := h.fallThrough s w e he
  enterStart := h.enterStart hv
  execute t := hx t e he
  dispatch s := hv.dispatch s e he

include hp in
lemma step (hh : ∀ s, (c.kind s).isHistory = true → Keeps R (PseudoState.activate c v s)) :
    (c.step v).Enter Es R where
  activate s w b w' ha := by
    by_cases hs : (c.kind s).isHistory = true
    · rcases StateKind.eq_of_isHistory hs with hk | hk <;> simp only [Chart.step, hk] at ha <;>
        exact hh s hs _ _ _ ha
    · obtain ⟨w₁, hr, h₁⟩ := h.activate_receives hv (by simpa using hs) ha
      exact h.trans (h.receives (by simpa using hs) hr) h₁
  dispatch s _ he := (h.tries hv hx he).step hp s

end Execute

/-- A preorder that contains the runs of the transitions tried, the entries of histories and all
other changes relates the first world of every activation and every dispatch to its last. -/
theorem methods (h : Arriving c Es R)
    (hh : ∀ k, (∀ j ≤ k, (c.methods j).Enter Es R) → ∀ s, (c.kind s).isHistory = true →
      Keeps R (PseudoState.activate c (c.methods k) s))
    (hx : ∀ k, (c.methods k).Enter Es R →
      ∀ t, ∀ e ∈ Es, ∀ w b w', c.Eligible t w →
        Returns (Transition.execute c (c.methods k) t e) w b w' → R w w') (k : ℕ) :
    (c.methods k).Enter Es R := by
  induction k using Nat.strong_induction_on with
  | _ k ih =>
      cases k with
      | zero => exact ⟨fun _ => keeps_failure, fun _ _ _ => keeps_failure⟩
      | succ k =>
          have hk := ih k (Nat.lt_succ_self k)
          exact h.step (pure_methods c k) hk (hx k hk)
            (hh k fun j hj => ih j (Nat.lt_succ_of_le hj))

/-! ### Calls -/

section Calls

variable {k : ℕ} (h : Arriving c Es R) (hm : (c.methods k).Enter Es R)

include h hm

lemma pass {e : Option E} (he : e ∈ Es) : Keeps R (Statechart.pass c k e) := by
  have := h.std_refl
  have := h.isTrans
  refine keeps_bind (keeps_peek _) fun q => ?_
  cases q with
  | none => exact keeps_pure _
  | some q => exact hm.dispatch q e he

lemma completionLoop : ∀ fuel : ℕ, Keeps R (Statechart.completionLoop c k fuel)
  | 0 => have := h.std_refl; keeps_pure _
  | fuel + 1 => by
      have := h.std_refl
      have := h.isTrans
      exact keeps_bind (h.pass hm h.null) fun _ => keeps_ite (completionLoop fuel) (keeps_pure _)

lemma complete (rc : Bool) : Keeps R (Statechart.complete c k rc) := by
  have := h.std_refl
  have := h.isTrans
  exact keeps_bind (h.completionLoop hm _) fun b => by cases b <;> exact keeps_pure _

lemma dispatch {e : Option E} (he : e ∈ Es) : Keeps R (Statechart.dispatch c k e) := by
  have := h.std_refl
  have := h.isTrans
  refine keeps_bind (keeps_peek _) fun _ => keeps_ite ?_ (keeps_pure _)
  exact keeps_bind (h.pass hm he) fun rc => h.complete hm rc

variable (hes : ∀ e, e ∈ Es) (hparam : ∀ (p : P) w, R w { w with param := p })
variable (henter : ∀ w, R w (Statechart.enter c w))

include hes hparam henter

/-- A relation that also contains the beginning of a call relates the first world of a call to its
last. -/
lemma call (l : Call E P) : Keeps R (Statechart.call c k l) := by
  have := h.isTrans
  cases l with
  | start p => exact keeps_bind (keeps_modify (hparam p)) fun _ =>
      keeps_bind (keeps_modify henter) fun _ => h.dispatch hm (hes none)
  | dispatch e p => exact keeps_bind (keeps_modify (hparam p)) fun _ => h.dispatch hm (hes e)

lemma calls (l : List (Call E P)) : Keeps R (Statechart.calls c k l) := by
  have := h.std_refl
  have := h.isTrans
  exact keeps_forM fun l _ => keeps_bind (h.call hm hes hparam henter l) fun _ => keeps_pure _

end Calls

end Arriving

namespace Entering

variable {c : Chart S T E P} {Es : Set (Option E)} {R : World S T E P → World S T E P → Prop}
variable {v : Methods S T E P} {s : S}

lemma state_activate (h : Entering c Es R) (hs : (c.kind s).isPseudo = false) :
    Keeps R (State.activate c s) := by
  intro w b w' ha
  rcases State.returns_activate.mp ha with ⟨-, -, rfl⟩ | ⟨hi, -, rfl⟩
  · exact h.refl _
  · exact h.trans (h.arrive s w hs hi) (h.greet s _)

lemma history_activate (h : Entering c Es R) (hv : v.Enter Es R)
    (hs : (c.kind s).isHistory = true) : Keeps R (PseudoState.activate c v s) := by
  have := h.std_refl
  have := h.isTrans
  have hk : (c.kind s).isPseudo = true := by
    rcases StateKind.eq_of_isHistory hs with hk | hk <;> rw [hk] <;> rfl
  intro w b w' ha
  have hvisit : R w (c.visit s w) := h.trans (h.activateData s w hk) (h.entry s _)
  rcases (PseudoState.returns_activate.mp ha).2 with ⟨-, ha⟩ | ⟨hh, -⟩ | ⟨hh, -⟩
  · refine h.trans hvisit (keeps_forM (fun q _ => ?_) _ _ _ ha)
    exact keeps_bind (hv.activate q) fun _ => keeps_pure _
  · rw [hs] at hh
    cases hh
  · rw [hs] at hh
    cases hh

/-- A preorder that contains the runs of the transitions tried and all other changes relates the
first world of every activation and every dispatch to its last. -/
theorem methods (h : Entering c Es R) (hx : ∀ k, (c.methods k).Enter Es R →
      ∀ t, ∀ e ∈ Es, ∀ w b w', c.Eligible t w →
        Returns (Transition.execute c (c.methods k) t e) w b w' → R w w') (k : ℕ) :
    (c.methods k).Enter Es R :=
  h.toArriving.methods (fun k hk _ hs => h.history_activate (hk k le_rfl) hs) hx k

end Entering

namespace Steady

variable {c : Chart S T E P} {Es : Set (Option E)} {R : World S T E P → World S T E P → Prop}
variable {v : Methods S T E P}

lemma enterStart (h : Steady c Es R) (hv : v.Keep Es R) (s : S) :
    Keeps R (HierarchicalState.enterStart c v s) := h.toEntering.enterStart hv.toEnter s

lemma state_deactivate (h : Steady c Es R) (s : S) : Keeps R (State.deactivate c s) := by
  intro w u w' hd
  rcases State.returns_deactivate.mp hd with ⟨-, rfl⟩ | ⟨hi, rfl⟩
  · exact h.refl _
  · exact h.trans (h.leave s w hi) (h.exit s _)

lemma hierarchical_deactivate (h : Steady c Es R) (hv : ∀ s, Keeps R (v.deactivate s)) {s : S}
    (hs : c.kind s = .hierarchicalState) : Keeps R (HierarchicalState.deactivate c v s) := by
  intro w u w' hd
  rcases HierarchicalState.returns_deactivate.mp hd with ⟨-, rfl⟩ | ⟨-, w₁, w₂, h₁, h₂, h₃⟩
  · exact h.refl _
  have hsave : R w w₁ := by
    rcases HierarchicalState.returns_saveHistory.mp h₁ with ⟨rfl, -⟩ | ⟨q, hq, hst, h₁⟩
    · exact h.refl _
    · exact h.storeHistory s q w w₁ hq hst h₁
  have hsub : R w₁ w₂ := by
    cases hc : w.data.current s with
    | none => rw [hc] at h₂; rw [(returns_pure.mp h₂).2]; exact h.refl _
    | some q => rw [hc] at h₂; exact hv q _ _ _ h₂
  exact h.trans hsave <| h.trans hsub <|
    h.trans (h.clearCurrent s w₂ hs) (h.state_deactivate s _ _ _ h₃)

lemma concurrent_deactivate (h : Steady c Es R) (hv : ∀ s, Keeps R (v.deactivate s)) {n : S}
    (hn : c.kind n = .concurrentState) : Keeps R (ConcurrentState.deactivate c v n) := by
  have := h.std_refl
  have := h.isTrans
  intro w u w' hd
  obtain ⟨w₁, h₁, h₂⟩ := ConcurrentState.returns_deactivate.mp hd
  exact h.trans (h.clearStateset n w hn) <|
    h.trans (keeps_forM (fun r _ => hv r) _ _ _ h₁) (h.state_deactivate n _ _ _ h₂)

lemma step_deactivate (h : Steady c Es R) (hv : ∀ s, Keeps R (v.deactivate s)) (s : S) :
    Keeps R ((c.step v).deactivate s) := by
  cases hk : c.kind s <;> simp only [Chart.step, hk]
  case hierarchicalState => exact h.hierarchical_deactivate hv hk
  case concurrentState => exact h.concurrent_deactivate hv hk
  all_goals exact h.state_deactivate s

/-- No transition fires while a state is left. -/
lemma deactivate (h : Steady c Es R) : ∀ (k : ℕ) (s : S), Keeps R ((c.methods k).deactivate s)
  | 0, _ => keeps_failure
  | k + 1, s => h.step_deactivate (deactivate h k) s

/-- A preorder that contains the runs of single transitions and all other changes relates the first
world of every run of every method to its last. -/
theorem methods (h : Steady c Es R) (hx : ∀ k, (c.methods k).Keep Es R →
      ∀ t, ∀ e ∈ Es, Keeps R (Transition.execute c (c.methods k) t e)) :
    ∀ k : ℕ, (c.methods k).Keep Es R
  | 0 => ⟨fun _ => keeps_failure, fun _ => keeps_failure, fun _ _ _ => keeps_failure⟩
  | k + 1 =>
      have ih := methods h hx k
      have hstep := h.toArriving.step (pure_methods c k) ih.toEnter
        (fun t e he w b w' _ => hx k ih t e he w b w') fun _ hs => h.history_activate ih.toEnter hs
      ⟨hstep.activate, h.deactivate (k + 1), hstep.dispatch⟩

end Steady

namespace Compatible

variable {c : Chart S T E P} {Es : Set (Option E)} {R : World S T E P → World S T E P → Prop}
variable {v : Methods S T E P}

/-- The run of a transition from its first mark on. -/
lemma after_fire (h : Compatible c Es R) (hv : v.Keep Es R) {t : T} {w w' : World S T E P}
    {u : PUnit} (hf : Returns (Transition.fire c v t) w u w') : R (w.log (.fire t w.data)) w' := by
  have := h.std_refl
  have := h.isTrans
  obtain ⟨w₁, w₂, h₁, h₂, rfl⟩ := Transition.returns_fire.mp hf
  have hd := keeps_forM (fun s _ => hv.deactivate s) _ _ _ h₁
  exact h.trans hd <| h.trans (h.effect t w₁) <|
    h.trans (h.activateAll hv.toEnter _ _ _ _ h₂) (h.fired t w.data w₂)

lemma transition_execute (h : Compatible c Es R) (hp : v.Pure) (hv : v.Keep Es R) (t : T)
    {e : Option E} (he : e ∈ Es) : Keeps R (Transition.execute c v t e) := by
  intro w b w' hx
  rcases (Transition.returns_execute hp).mp hx with ⟨-, ht, -, hf⟩ | ⟨-, rfl, -⟩
  · exact h.trans (h.fire t w e he ht) (h.after_fire hv hf)
  · exact h.refl _

/-! ### Every run -/

lemma offers (h : Compatible c Es R) (hp : v.Pure) (hv : v.Keep Es R) {e : Option E}
    (he : e ∈ Es) : Offers c e R v :=
  h.toSteady.offers hv.toEnter (fun t _ he => h.transition_execute hp hv t he) he

/-- **The invariant rule.** A preorder that contains the elementary changes relates the first
world of every run of every method to its last. -/
theorem methods (h : Compatible c Es R) : ∀ k : ℕ, (c.methods k).Keep Es R :=
  h.toSteady.methods fun k hv t _ he => h.transition_execute (pure_methods c k) hv t he

/-- The entry of a path. -/
lemma enterPath (h : Compatible c Es R) (k : ℕ) (l : List S) :
    Keeps R (Statechart.activateAll c k l) := by
  have := h.std_refl
  have := h.isTrans
  exact keeps_forM fun x _ => keeps_bind ((h.methods k).activate x) fun _ => keeps_pure _

lemma pass (h : Compatible c Es R) (k : ℕ) {e : Option E} (he : e ∈ Es) :
    Keeps R (Statechart.pass c k e) :=
  h.toSteady.pass (h.methods k).toEnter he

lemma completionLoop (h : Compatible c Es R) (k fuel : ℕ) :
    Keeps R (Statechart.completionLoop c k fuel) :=
  h.toSteady.completionLoop (h.methods k).toEnter fuel

lemma dispatch (h : Compatible c Es R) (k : ℕ) {e : Option E} (he : e ∈ Es) :
    Keeps R (Statechart.dispatch c k e) :=
  h.toSteady.dispatch (h.methods k).toEnter he

section Calls

variable (h : Compatible c Set.univ R) (hparam : ∀ (p : P) w, R w { w with param := p })
variable (henter : ∀ w, R w (Statechart.enter c w)) (k : ℕ)

include h hparam henter

/-- A relation that also contains the beginning of a call relates the first world of a call to its
last. -/
lemma call (l : Call E P) : Keeps R (Statechart.call c k l) :=
  h.toSteady.call (h.methods k).toEnter Set.mem_univ hparam henter l

lemma calls (l : List (Call E P)) : Keeps R (Statechart.calls c k l) :=
  h.toSteady.calls (h.methods k).toEnter Set.mem_univ hparam henter l

end Calls

end Compatible

end CppStatecharts
