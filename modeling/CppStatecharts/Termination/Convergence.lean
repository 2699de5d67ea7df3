import CppStatecharts.Completion.Course
import CppStatecharts.Completion.Quiescence
import CppStatecharts.Semantics.Links
import CppStatecharts.Termination.Lookahead

/-!
When a dispatch comes back.

* `converges_deactivate`: leaving a state ends with the tree below it.
* `ends_execute`, `ends_activate`, `ends_dispatch`: a call comes back when the calls it makes do,
  and its look-ahead does; `Frame.rank_lt`: between two activations the calls go down the tree.
* `Chart.Includes`: one activation includes another; `Frame.ends_iff`: a call comes back exactly
  when no look-ahead it makes leads round in a circle and its activations do not include each other
  for ever.
* `Statechart.converges_call_iff`: the same for the calls of a client.
* `Chart.Look`, `Chart.Enters`: what the look-ahead and the activations may lead to in any world;
  `converges_activate`: they end where these relations do.
* `Cycle.not_converges`: the look-ahead does not come back from a junction that leads to itself;
  `Cycle.converges_other`: an event that does not lead there does.
-/

namespace CppStatecharts

open Relation (ReflTransGen TransGen)

variable {S T E P : Type} [DecidableEq S] {c : Chart S T E P}
variable {w w₁ w' : World S T E P} {s n q r : S} {t : T} {e : Option E}
variable {x y : Frame S T E × World S T E P}

/-! ### Composing runs -/

/-- What converges when its calls are answered by the methods converges one level up. -/
lemma converges_succ {α : Type} (f : Methods S T E P → Comp (World S T E P) α)
    (h : Converges (fun k => f (c.step (c.methods k))) w) :
    Converges (fun k => f (c.methods k)) w := by
  obtain ⟨a, w', k, hk⟩ := h
  exact ⟨a, w', k + 1, hk⟩

/-! ### Leaving -/

/-- How far the tree goes on below a state. -/
def Chart.height (c : Chart S T E P) (s : S) : ℕ := c.maxDepth - c.depth s

omit [DecidableEq S] in
lemma height_lt (hq : c.context q = some s) : c.height q < c.height s := by
  have h₁ := depth_le_maxDepth hq
  have h₂ := c.depth_context hq
  unfold Chart.height
  omega

/-- A loop over states converges when each of its rounds does where the pointers are right. -/
lemma converges_loop {l : List S}
    {f : Methods S T E P → S → Comp (World S T E P) PUnit} (hf : ∀ s, Monotone fun v => f v s)
    (hk : ∀ k s, Keeps (fun w w' => c.Links w.data → c.Links w'.data) (f (c.methods k) s))
    (h : ∀ s ∈ l, ∀ w, c.Links w.data → Converges (fun k => f (c.methods k) s) w)
    (hw : c.Links w.data) : Converges (fun k => l.forM (f (c.methods k))) w := by
  have : Std.Refl fun w w' : World S T E P => c.Links w.data → c.Links w'.data := ⟨fun _ => id⟩
  have : IsTrans (World S T E P) fun w w' => c.Links w.data → c.Links w'.data :=
    ⟨fun _ _ _ h h' => h' ∘ h⟩
  refine converges_forM (fun s => monotone_of c (hf s)) fun s w₁ hs => h s hs.mem w₁ ?_
  exact hs.rel (R := fun w w' => c.Links w.data → c.Links w'.data) (fun k s _ => hk k s) hw

lemma converges_saveHistory (s : S) (hw : c.Pointers w.data) :
    ∃ w', Returns (HierarchicalState.saveHistory c s (w.data.current s)) w ⟨⟩ w' := by
  unfold HierarchicalState.saveHistory
  cases hh : c.history s with
  | none => exact ⟨w, returns_pure.mpr ⟨rfl, rfl⟩⟩
  | some h =>
      by_cases hst : HierarchicalState.storesHistory c s h (w.data.current s) = true
      swap
      · simp only [hst]
        exact ⟨w, returns_pure.mpr ⟨rfl, rfl⟩⟩
      simp only [hst, ↓reduceIte]
      obtain ⟨hk, hctx⟩ := Chart.history_eq_some_iff.mp hh
      unfold Chart.storeHistory Returns StateT.run
      dsimp only
      split
      · rename_i d p type hd hp hkind
        have hbound : c.maxDepth < c.chainBound + c.depth p := by
          unfold Chart.chainBound
          omega
        obtain ⟨chain, hchain⟩ := exists_calculateHistoryChain hw (fun q hq => hw p q hq) hbound
        exact ⟨_, by rw [hchain]; rfl⟩
      · exact ⟨w, rfl⟩

lemma links_saveHistory {u : PUnit} (hw : c.Links w.data)
    (h : Returns (HierarchicalState.saveHistory c s (w.data.current s)) w u w') :
    c.Links w'.data := by
  rcases HierarchicalState.returns_saveHistory.mp h with ⟨rfl, -⟩ | ⟨q, hq, hst, h⟩
  · exact hw
  · exact hw.storeHistory hq hst h

variable (c) in
lemma exists_state_deactivate (s : S) (w : World S T E P) :
    ∃ w', Returns (State.deactivate c s) w ⟨⟩ w' := by
  cases h : w.data.isActive s
  · exact ⟨w, State.returns_deactivate.mpr (Or.inl ⟨h, rfl⟩)⟩
  · exact ⟨_, State.returns_deactivate.mpr (Or.inr ⟨h, rfl⟩)⟩

/-- Leaving a state ends with the tree below it. -/
lemma converges_deactivate (hc : c.ActionsKeepData) (s : S) (hw : c.Links w.data) :
    Converges (fun k => (c.methods k).deactivate s) w := by
  induction hd : c.height s using Nat.strong_induction_on generalizing s w with
  | _ d ih =>
      subst hd
      have hkeep := (compatible_links hc).methods
      have hplain : Converges (fun _ => State.deactivate c s) w := by
        obtain ⟨w', h⟩ := exists_state_deactivate c s w
        exact converges_const h
      refine converges_succ (fun v => v.deactivate s) ?_
      cases hk : c.kind s <;> simp only [Chart.step, hk]
      case hierarchicalState =>
        cases ha : w.data.isActive s
        · exact ⟨⟨⟩, w, 0, HierarchicalState.returns_deactivate.mpr (Or.inl ⟨ha, rfl⟩)⟩
        obtain ⟨w₁, h₁⟩ := converges_saveHistory s hw.pointers
        have hw₁ := links_saveHistory hw h₁
        have hcur : Converges (fun k => HierarchicalState.deactivateCurrent (c.methods k)
            (w.data.current s)) w₁ := by
          cases hq : w.data.current s with
          | none => exact converges_const (returns_pure.mpr ⟨rfl, rfl⟩)
          | some q => exact ih _ (height_lt (hw.pointers s q hq)) q hw₁ rfl
        obtain ⟨_, w₂, k, h₂⟩ := hcur
        obtain ⟨w', h₃⟩ := exists_state_deactivate c s (Chart.clearCurrent s w₂)
        exact ⟨⟨⟩, w', k, HierarchicalState.returns_deactivate.mpr
          (Or.inr ⟨ha, w₁, w₂, h₁, h₂, h₃⟩)⟩
      case concurrentState =>
        have hw₁ : c.Links (Chart.clearStateset s w).data :=
          (compatible_links hc).clearStateset s w hk hw
        have hloop : Converges (fun k => (c.regions s).forM (c.methods k).deactivate)
            (Chart.clearStateset s w) :=
          converges_loop monotone_deactivate (fun k q => (hkeep k).deactivate q)
            (fun q hq w hw => ih _ (height_lt (Chart.mem_regions.mp hq).2) q hw rfl) hw₁
        obtain ⟨_, w₁, k, h₁⟩ := hloop
        obtain ⟨w', h₂⟩ := exists_state_deactivate c s w₁
        exact ⟨⟨⟩, w', k, ConcurrentState.returns_deactivate.mpr ⟨w₁, h₁, h₂⟩⟩
      all_goals exact hplain

/-! ### A call that only makes calls that come back -/

/-- A transition is tried to its end when its look-ahead and the entries it leads to end. -/
lemma ends_execute (hc : c.ActionsKeepData) (hw : c.Links w.data)
    (hlook : Transition.triggered c t e w = true → ¬ Circular (c.Ahead w) t)
    (h : ∀ y, c.Calls (.execute t e, w) y → Frame.Ends c y) : Frame.Ends c (.execute t e, w) := by
  by_cases ht : Transition.triggered c t e w = true
  swap
  · exact ⟨false, w, 0, (Transition.returns_execute (pure_methods c 0)).mpr
      (Or.inr ⟨rfl, rfl, fun h => absurd h ht⟩)⟩
  obtain ⟨b, w₁, k₁, h₁⟩ := converges_allowed_iff.mpr (hlook ht)
  obtain rfl := (pure_methods c k₁).allowed h₁
  cases b
  · exact ⟨false, w₁, k₁, (Transition.returns_execute (pure_methods c k₁)).mpr
      (Or.inr ⟨rfl, rfl, fun _ => h₁⟩)⟩
  have hleave : Converges (fun k => (c.deactivates t).forM (c.methods k).deactivate)
      (w₁.log (.fire t w₁.data)) :=
    converges_loop monotone_deactivate
      (fun k s => ((compatible_links hc).methods k).deactivate s)
      (fun s _ w hw => converges_deactivate hc s hw) hw
  obtain ⟨_, w₂, k₂, h₂⟩ := hleave
  have hentry : Converges (fun k => (Transition.successors (c.activates t)).forM
      (Transition.enterOne c (c.methods k))) (w₂.perform (.effect t) (c.action t)) := by
    refine converges_forM (fun z => monotone_of c (Transition.monotone_enterOne c z))
      fun z w₃ hz => ?_
    obtain ⟨b, w₄, k, hk⟩ := h _ (.enter ht ⟨k₁, h₁⟩ ⟨k₂, h₂⟩ hz)
    exact ⟨⟨⟩, w₄, k, Transition.returns_enterOne.mpr ⟨b, hk⟩⟩
  obtain ⟨_, w₃, k₃, h₃⟩ := hentry
  let k := max k₁ (max k₂ k₃)
  have h₁' := monotone_of c (Transition.monotone_allowed c t) (show k₁ ≤ k by omega) _ _ _ h₁
  have h₂' := monotone_of c (monotone_forM monotone_deactivate (c.deactivates t))
    (show k₂ ≤ k by omega) _ _ _ h₂
  have h₃' : Returns (Transition.activateAll c (c.methods k) (c.activates t))
      (w₂.perform (.effect t) (c.action t)) ⟨⟩ w₃ := by
    rw [Transition.activateAll_eq]
    exact monotone_of c (monotone_forM (Transition.monotone_enterOne c) _)
      (show k₃ ≤ k by omega) _ _ _ h₃
  exact ⟨true, _, k, (Transition.returns_execute (pure_methods c k)).mpr (Or.inl ⟨rfl, ht, h₁',
    Transition.returns_fire.mpr ⟨w₂, w₃, h₂', h₃', rfl⟩⟩)⟩

lemma exists_registerBranches (s : S) (w : World S T E P) :
    ∃ w', Returns (PseudoState.registerBranches c s) w ⟨⟩ w' := by
  unfold PseudoState.registerBranches
  induction c.transitions s generalizing w with
  | nil => exact ⟨w, returns_forM_nil.mpr rfl⟩
  | cons t l ih =>
      cases hg : Transition.guardHolds c t w
      · obtain ⟨w', h⟩ := ih w
        exact ⟨w', returns_forM_cons.mpr ⟨w, by simp [hg], h⟩⟩
      · obtain ⟨w', h⟩ := ih (c.registerRegions (c.activates t) w)
        exact ⟨w', returns_forM_cons.mpr ⟨_, by simp [hg], h⟩⟩

/-- The default entry of a region ends when the dispatch to the region does. -/
lemma ends_enterRegion (hn : c.kind n = .concurrentState) (hw : w.data.isActive n = false)
    (hd : ((c.greet n (c.arrive n w)).data.getData n).isSome = true)
    (h : ∀ y, c.Calls (.activate n, w) y → Frame.Ends c y)
    (hr : LoopAt (fun k => ConcurrentState.enterRegion (c.methods k) n) (c.regions n)
      ((c.greet n (c.arrive n w)).log (.entering n)) r w₁) :
    Converges (fun k => ConcurrentState.enterRegion (c.methods k) n r) w₁ := by
  have hact : ∀ {v : Methods S T E P}, (c.step v).activate r = State.activate c r := by
    simp [Chart.step, (Chart.mem_regions.mp hr.mem).1]
  by_cases hmem : r ∈ w₁.data.stateset n
  · exact ⟨⟨⟩, w₁, 0, ConcurrentState.returns_enterRegion.mpr (Or.inl ⟨hmem, rfl⟩)⟩
  cases ha : w₁.data.isActive r
  swap
  · refine ⟨⟨⟩, w₁, 1, ConcurrentState.returns_enterRegion.mpr (Or.inr (Or.inl ⟨hmem, ?_⟩))⟩
    rw [Chart.methods, hact]
    exact State.returns_activate.mpr (Or.inl ⟨ha, rfl, rfl⟩)
  have h₁ : Returns ((c.methods 1).activate r) w₁ true (c.greet r (c.arrive r w₁)) := by
    rw [Chart.methods, hact]
    exact State.returns_activate.mpr (Or.inr ⟨ha, rfl, rfl⟩)
  obtain ⟨b, w₂, k, h₂⟩ := h _ (.default ⟨hn, hw, hd, hr, hmem⟩ ⟨1, h₁⟩)
  have h₁' := monotone_of c (monotone_activate r) (le_max_left 1 k) _ _ _ h₁
  have h₂' := monotone_of c (monotone_dispatch r none) (le_max_right 1 k) _ _ _ h₂
  exact ⟨⟨⟩, w₂, max 1 k, ConcurrentState.returns_enterRegion.mpr
    (Or.inr (Or.inr ⟨hmem, _, b, h₁', h₂'⟩))⟩

/-- An activation ends when the default entries and the restored states it leads to do. -/
lemma ends_activate (h : ∀ y, c.Calls (.activate s, w) y → Frame.Ends c y) :
    Frame.Ends c (.activate s, w) := by
  refine converges_succ (fun v => v.activate s) ?_
  cases hk : c.kind s <;> simp only [Chart.step, hk]
  case concurrentState =>
    cases ha : w.data.isActive s
    swap
    · exact ⟨false, w, 0, ConcurrentState.returns_activate.mpr (Or.inl ⟨ha, rfl, rfl⟩)⟩
    cases hd : (c.greet s (c.arrive s w)).data.getData s with
    | none => exact ⟨true, _, 0, ConcurrentState.returns_activate.mpr (Or.inr ⟨ha, rfl,
        ConcurrentState.returns_enterRegions.mpr (Or.inl ⟨hd, rfl⟩)⟩)⟩
    | some d =>
        have hloop : Converges (fun k => (c.regions s).forM
            (ConcurrentState.enterRegion (c.methods k) s))
            ((c.greet s (c.arrive s w)).log (.entering s)) :=
          converges_forM (fun r => monotone_of c (ConcurrentState.monotone_enterRegion s r))
            fun r w₁ hr => ends_enterRegion hk ha (by simp [hd]) h hr
        obtain ⟨_, w₂, k, h₂⟩ := hloop
        exact ⟨true, _, k, ConcurrentState.returns_activate.mpr (Or.inr ⟨ha, rfl,
          ConcurrentState.returns_enterRegions.mpr (Or.inr ⟨⟨d, hd⟩, w₂, h₂, rfl⟩)⟩)⟩
  case pseudoState type =>
    cases hh : (c.kind s).isHistory
    · by_cases hf : c.kind s = .pseudoState .fork
      · obtain ⟨w', h⟩ := exists_registerBranches s (c.visit s w)
        exact ⟨true, w', 0, PseudoState.returns_activate.mpr ⟨rfl, Or.inr (Or.inl ⟨hh, hf, h⟩)⟩⟩
      · exact ⟨true, _, 0, PseudoState.returns_activate.mpr ⟨rfl, Or.inr (Or.inr ⟨hh, hf, rfl⟩)⟩⟩
    · have hloop : Converges (fun k => ((c.visit s w).data.stateset s).forM fun q => (do
          let _ ← (c.methods k).activate q : Comp (World S T E P) PUnit)) (c.visit s w) := by
        refine converges_forM (fun q => monotone_of c (monotone_bind (monotone_activate q) fun _ =>
          monotone_const)) fun q w₁ hq => ?_
        obtain ⟨b, w', k, hk⟩ := h _ (.stored hh hq)
        exact ⟨⟨⟩, w', k, returns_bind.mpr ⟨b, w', hk, returns_pure.mpr ⟨rfl, rfl⟩⟩⟩
      obtain ⟨_, w', k, h⟩ := hloop
      exact ⟨true, w', k, PseudoState.returns_activate.mpr ⟨rfl, Or.inl ⟨hh, h⟩⟩⟩
  all_goals
    cases ha : w.data.isActive s
    · exact ⟨true, _, 0, State.returns_activate.mpr (Or.inr ⟨ha, rfl, rfl⟩)⟩
    · exact ⟨false, w, 0, State.returns_activate.mpr (Or.inl ⟨ha, rfl, rfl⟩)⟩

lemma HierarchicalState.converges_tryTransition {fin : Bool}
    (h : (c.event t = none → fin = true) →
      Converges (fun k => Transition.execute c (c.methods k) t e) w) :
    Converges (fun k => HierarchicalState.tryTransition c (c.methods k) fin e t) w := by
  by_cases hf : c.event t = none → fin = true
  · obtain ⟨b, w', k, hk⟩ := h hf
    exact ⟨b, w', k, (HierarchicalState.returns_tryTransition (pure_methods c k)).mpr
      (Or.inr ⟨hf, hk⟩)⟩
  · obtain ⟨he, hfin⟩ : c.event t = none ∧ fin = false := by simpa using hf
    exact ⟨false, w, 0, (HierarchicalState.returns_tryTransition (pure_methods c 0)).mpr
      (Or.inl ⟨⟨he, hfin⟩, rfl, rfl⟩)⟩

lemma HierarchicalState.converges_dispatch
    (h₁ : Converges (fun k => HierarchicalState.enterStart c (c.methods k) s) w)
    (h₂ : ∀ w₁, Returned (fun k => HierarchicalState.enterStart c (c.methods k) s) w ⟨⟩ w₁ →
      Converges (fun k => HierarchicalState.dispatchCurrent (c.methods k) s e) w₁)
    (h₃ : ∀ w₁ handled w₂,
      Returned (fun k => HierarchicalState.enterStart c (c.methods k) s) w ⟨⟩ w₁ →
      Returned (fun k => HierarchicalState.dispatchCurrent (c.methods k) s e) w₁ handled w₂ →
      w₂.data.isActive s = true → (handled = true → c.isFinal (w₂.data.current s) = true) →
      Converges (fun k => (c.transitions s).anyM (HierarchicalState.tryTransition c (c.methods k)
        (c.isFinal (w₂.data.current s)) e)) (HierarchicalState.offered s e handled w₂)) :
    Converges (fun k => HierarchicalState.dispatch c (c.methods k) s e) w := by
  cases ha : w.data.isActive s
  · exact ⟨false, w, 0, HierarchicalState.returns_dispatch.mpr (Or.inl ⟨ha, rfl, rfl⟩)⟩
  obtain ⟨_, w₁, k₁, r₁⟩ := h₁
  obtain ⟨handled, w₂, k₂, r₂⟩ := h₂ w₁ ⟨k₁, r₁⟩
  -- the state was left, the event is handled, or the own transitions are tried
  have hrest : ∃ b w' k, w₂.data.isActive s = false ∧ b = handled ∧ w' = w₂
      ∨ w₂.data.isActive s = true ∧ handled = true ∧ c.isFinal (w₂.data.current s) = false
        ∧ b = true ∧ w' = w₂
      ∨ w₂.data.isActive s = true ∧ (handled = true → c.isFinal (w₂.data.current s) = true)
        ∧ Returns ((c.transitions s).anyM (HierarchicalState.tryTransition c (c.methods k)
            (c.isFinal (w₂.data.current s)) e)) (HierarchicalState.offered s e handled w₂) b
            w' := by
    cases ha₂ : w₂.data.isActive s
    · exact ⟨handled, w₂, 0, Or.inl ⟨rfl, rfl, rfl⟩⟩
    by_cases hd : handled = true ∧ c.isFinal (w₂.data.current s) = false
    · exact ⟨true, w₂, 0, Or.inr (Or.inl ⟨rfl, hd.1, hd.2, rfl, rfl⟩)⟩
    have hf : handled = true → c.isFinal (w₂.data.current s) = true := by simpa using hd
    obtain ⟨b, w', k, h⟩ := h₃ w₁ handled w₂ ⟨k₁, r₁⟩ ⟨k₂, r₂⟩ ha₂ hf
    exact ⟨b, w', k, Or.inr (Or.inr ⟨rfl, hf, h⟩)⟩
  obtain ⟨b, w', k₃, hrest⟩ := hrest
  let k := max k₁ (max k₂ k₃)
  have r₁' := monotone_of c (HierarchicalState.monotone_enterStart c s)
    (show k₁ ≤ k by omega) _ _ _ r₁
  have r₂' := monotone_of c (HierarchicalState.monotone_dispatchCurrent s e)
    (show k₂ ≤ k by omega) _ _ _ r₂
  have hmono := monotone_of c (monotone_anyM (fun t =>
    HierarchicalState.monotone_tryTransition c (c.isFinal (w₂.data.current s)) e t)
    (c.transitions s)) (show k₃ ≤ k by omega)
  exact ⟨b, w', k, HierarchicalState.returns_dispatch.mpr (Or.inr ⟨ha, w₁, w₂, handled, r₁', r₂',
    hrest.imp id (Or.imp id fun ⟨ha₂, hf, h⟩ => ⟨ha₂, hf, hmono _ _ _ h⟩)⟩)⟩

/-- The first entry of a state ends, in its start state if anywhere. -/
lemma converges_enterStart (s : S) (w : World S T E P) :
    Converges (fun k => HierarchicalState.enterStart c (c.methods k) s) w := by
  cases hcur : w.data.current s with
  | some q =>
      exact ⟨⟨⟩, w, 0, HierarchicalState.returns_enterStart.mpr (Or.inl ⟨rfl, by simp [hcur]⟩)⟩
  | none =>
      cases hst : c.startState s with
      | none =>
          exact ⟨⟨⟩, w, 0, HierarchicalState.returns_enterStart.mpr (Or.inl ⟨rfl, fun _ => hst⟩)⟩
      | some st =>
          obtain ⟨hk, hctx⟩ := Chart.startState_eq_some hst
          cases hq : (c.activateData st w).data.current s with
          | none => exact ⟨⟨⟩, _, 0, HierarchicalState.returns_enterStart.mpr
              (Or.inr ⟨st, hcur, hst, Or.inl ⟨hq, rfl⟩⟩)⟩
          | some q =>
              have hqst : q = st := by
                rcases current_activateData_cases hq with ⟨rfl, -⟩ | hq
                · rfl
                · rw [hcur] at hq
                  cases hq
              subst hqst
              exact ⟨⟨⟩, c.visit q (c.activateData q w), 1, HierarchicalState.returns_enterStart.mpr
                (Or.inr ⟨q, hcur, hst, Or.inr ⟨q, true, hq, (step_activate_start hk).mpr
                  ⟨rfl, rfl⟩⟩⟩)⟩

/-- The event is offered to every region when the dispatch to each comes back. -/
lemma ConcurrentState.converges_dispatchRegions {pre l : List S} (hl : c.regions n = pre ++ l)
    (hk : c.kind n = .concurrentState) {b : Bool}
    (hpre : Returned (fun k => ConcurrentState.dispatchRegions (c.methods k) n e pre) w b w₁)
    (h : ∀ y, c.Calls (.dispatch n e, w) y → Frame.Ends c y) :
    Converges (fun k => ConcurrentState.dispatchRegions (c.methods k) n e l) w₁ := by
  induction l generalizing pre b w₁ with
  | nil => exact converges_const (returns_pure.mpr ⟨rfl, rfl⟩)
  | cons r l ih =>
      have hregion : Converges (fun k => ConcurrentState.dispatchRegion (c.methods k) n e r)
          w₁ := by
        cases ha : w₁.data.isActive n
        · exact ⟨false, w₁, 0, ConcurrentState.returns_dispatchRegion.mpr (Or.inl ⟨ha, rfl, rfl⟩)⟩
        · obtain ⟨b', w', k, h⟩ := h _ (.offer hk hl hpre ha)
          exact ⟨b', w', k, ConcurrentState.returns_dispatchRegion.mpr (Or.inr ⟨ha, h⟩)⟩
      obtain ⟨b₁, w₂, k₁, h₁⟩ := hregion
      obtain ⟨k₀, hpre⟩ := hpre
      -- the regions up to `r`, together
      have hnext : Returned (fun k => ConcurrentState.dispatchRegions (c.methods k) n e
          (pre ++ [r])) w (b || (b₁ || false)) w₂ := by
        have h₀' := monotone_of c (ConcurrentState.monotone_dispatchRegions n e pre)
          (le_max_left k₀ k₁) _ _ _ hpre
        have h₁' := monotone_of c (ConcurrentState.monotone_dispatchRegion n e r)
          (le_max_right k₀ k₁) _ _ _ h₁
        exact ⟨max k₀ k₁, ConcurrentState.returns_dispatchRegions_append.mpr ⟨b, w₁, _, h₀',
          ConcurrentState.returns_dispatchRegions_cons.mpr ⟨b₁, w₂, false, h₁',
            returns_pure.mpr ⟨rfl, rfl⟩, rfl⟩, rfl⟩⟩
      obtain ⟨b₂, w', k₂, h₂⟩ := ih (by simp [hl]) hnext
      have h₁' := monotone_of c (ConcurrentState.monotone_dispatchRegion n e r)
        (le_max_left k₁ k₂) _ _ _ h₁
      have h₂' := monotone_of c (ConcurrentState.monotone_dispatchRegions n e l)
        (le_max_right k₁ k₂) _ _ _ h₂
      exact ⟨_, w', max k₁ k₂,
        ConcurrentState.returns_dispatchRegions_cons.mpr ⟨b₁, w₂, b₂, h₁', h₂', rfl⟩⟩

lemma ConcurrentState.ends_dispatch (hk : c.kind n = .concurrentState)
    (h : ∀ y, c.Calls (.dispatch n e, w) y → Frame.Ends c y) :
    Converges (fun k => ConcurrentState.dispatch c (c.methods k) n e) w := by
  obtain ⟨b₁, w₁, k₁, h₁⟩ := ConcurrentState.converges_dispatchRegions
    (show c.regions n = [] ++ c.regions n from rfl) hk ⟨0, returns_pure.mpr ⟨rfl, rfl⟩⟩ h
  cases b₁
  swap
  · exact ⟨true, w₁, k₁, ConcurrentState.returns_dispatch.mpr (Or.inl ⟨h₁, rfl⟩)⟩
  have hloop : Converges (fun k => (c.transitions n).anyM
      (ConcurrentState.tryTransition c (c.methods k) n e)) w₁ := by
    refine converges_anyM (fun t => monotone_of c (ConcurrentState.monotone_tryTransition c n e t))
      fun t w₂ ht => ?_
    by_cases hskip : w₂.data.isActive n = false
        ∨ c.event t = none ∧ ConcurrentState.finished c n w₂ = false
    · exact ⟨false, w₂, 0, ConcurrentState.returns_tryTransition.mpr (Or.inl ⟨hskip, rfl, rfl⟩)⟩
    simp only [not_or, not_and, Bool.not_eq_false] at hskip
    obtain ⟨b, w', k, hk⟩ := h _ (.concurrent hk ⟨k₁, h₁⟩ ht hskip.1 hskip.2)
    exact ⟨b, w', k, ConcurrentState.returns_tryTransition.mpr (Or.inr ⟨hskip.1, hskip.2, hk⟩)⟩
  obtain ⟨b, w', k₂, h₂⟩ := hloop
  have h₁' := monotone_of c (ConcurrentState.monotone_dispatchRegions n e _)
    (le_max_left k₁ k₂) _ _ _ h₁
  have h₂' := monotone_of c (monotone_anyM (fun t =>
    ConcurrentState.monotone_tryTransition c n e t) (c.transitions n)) (le_max_right k₁ k₂) _ _ _ h₂
  exact ⟨b, w', max k₁ k₂, ConcurrentState.returns_dispatch.mpr (Or.inr ⟨w₁, h₁', h₂'⟩)⟩

lemma HierarchicalState.ends_dispatch (hk : c.kind s = .hierarchicalState)
    (h : ∀ y, c.Calls (.dispatch s e, w) y → Frame.Ends c y) :
    Converges (fun k => HierarchicalState.dispatch c (c.methods k) s e) w := by
  cases ha : w.data.isActive s
  · exact ⟨false, w, 0, HierarchicalState.returns_dispatch.mpr (Or.inl ⟨ha, rfl, rfl⟩)⟩
  refine HierarchicalState.converges_dispatch (converges_enterStart s w) (fun w₁ h₁ => ?_)
    fun w₁ handled w₂ h₁ h₂ ha₂ hf => ?_
  · cases hq : w₁.data.current s with
    | none =>
        exact ⟨false, w₁, 0, HierarchicalState.returns_dispatchCurrent.mpr (Or.inl ⟨hq, rfl, rfl⟩)⟩
    | some q =>
        obtain ⟨b, w₂, k, h₂⟩ := h _ (.substate hk ha h₁ hq)
        exact ⟨b, w₂, k, HierarchicalState.returns_dispatchCurrent.mpr (Or.inr ⟨q, hq, h₂⟩)⟩
  · exact converges_anyM (fun t => monotone_of c (HierarchicalState.monotone_tryTransition c _ e t))
      fun t w₃ ht => HierarchicalState.converges_tryTransition fun hfin =>
        h _ (.hierarchical hk ha h₁ h₂ ha₂ hf ht hfin)

/-- A dispatch ends when the dispatches it hands the event on to and the transitions it tries do. -/
lemma ends_dispatch (h : ∀ y, c.Calls (.dispatch s e, w) y → Frame.Ends c y) :
    Frame.Ends c (.dispatch s e, w) := by
  have hplain : c.Plain s w → Converges (fun k => (c.methods k).dispatch s e) w := by
    intro hp
    obtain ⟨b, w', k, hk⟩ := converges_anyM (l := c.transitions s) (w := w)
      (fun t => monotone_of c (Transition.monotone_execute c t e)) fun t w₁ ht => h _ (.plain hp ht)
    exact ⟨b, w', k + 1, hp.returns_dispatch.mpr hk⟩
  by_cases hh : c.kind s = .hierarchicalState
  · refine converges_succ (fun v => v.dispatch s e) ?_
    simp only [Chart.step, hh]
    exact HierarchicalState.ends_dispatch hh h
  by_cases hn : c.kind s = .concurrentState
  · refine converges_succ (fun v => v.dispatch s e) ?_
    simp only [Chart.step, hn]
    exact ConcurrentState.ends_dispatch hn h
  by_cases hf : c.kind s = .pseudoState .fork
  · have hloop : Converges (fun k => (c.transitions s).forM fun t => (do
        let _ ← Transition.execute c (c.methods k) t e : Comp (World S T E P) PUnit)) w := by
      refine converges_forM (fun t => monotone_of c (monotone_bind
        (Transition.monotone_execute c t e) fun _ => monotone_const)) fun t w₁ ht => ?_
      obtain ⟨b, w', k, hk⟩ := h _ (.branch hf ht)
      exact ⟨⟨⟩, w', k, returns_bind.mpr ⟨b, w', hk, returns_pure.mpr ⟨rfl, rfl⟩⟩⟩
    obtain ⟨_, w', k, hk⟩ := hloop
    refine ⟨true, w', k + 1, ?_⟩
    simp only [Frame.run, Chart.methods, Chart.step, hf]
    exact PseudoState.returns_dispatch.mpr (Or.inr (Or.inl ⟨hf, rfl, hk⟩))
  by_cases hp : (c.kind s).isHistory = true ∧ PseudoState.restored c s w ≠ none
  swap
  · exact hplain ⟨hh, hn, hf, fun hk => by simpa [hk] using hp⟩
  obtain ⟨hk, hr⟩ := hp
  obtain ⟨q, hq⟩ := Option.ne_none_iff_exists'.mp hr
  obtain ⟨b, w', k, hd⟩ := h _ (.restored hk hq)
  obtain ⟨type, htype⟩ : ∃ type, c.kind s = .pseudoState type := by
    cases ht : c.kind s <;> simp_all [StateKind.isHistory]
  refine ⟨b, w', k + 1, ?_⟩
  simp only [Frame.run, Chart.methods, Chart.step, htype]
  exact PseudoState.returns_dispatch.mpr (Or.inl ⟨q, hk, hq, hd⟩)

/-! ### Down the tree -/

/-- How far the tree goes on below the context of a state. -/
def Chart.level (c : Chart S T E P) (s : S) : ℕ :=
  match c.context s with
  | none => c.maxDepth + 1
  | some p => c.height p

omit [DecidableEq S] in
lemma level_lt (hq : c.context q = some s) : c.level q < c.level s := by
  simp only [Chart.level, hq]
  cases hs : c.context s with
  | none => exact Nat.lt_succ_of_le (Nat.sub_le _ _)
  | some p => exact height_lt hs

variable (c) in
/-- How far the calls can go on without an activation. -/
def Frame.rank : Frame S T E → ℕ
  | .activate _ => 2 * c.maxDepth + 5
  | .dispatch s _ => 2 * c.level s + (if (c.kind s).isHistory = true then 2 else 1)
  | .execute .. => 0

/-- The frame is an activation. -/
def Frame.Enters : Frame S T E → Prop
  | .activate _ => True
  | _ => False

/-- What every method keeps is kept up to a nested call. -/
lemma Chart.Calls.links (hc : c.ActionsKeepData) (h : c.Calls x y) (hx : c.Links x.2.data) :
    c.Links y.2.data :=
  h.rel (compatible_links hc) (fun _ _ hw => hw) hx

/-- Between two activations the calls go down the tree. -/
lemma Frame.rank_lt (hc : c.ActionsKeepData) (h : c.Calls x y) (hx : c.Links x.2.data)
    (hy : ¬ y.1.Enters) : y.1.rank c < x.1.rank c := by
  have hbound : ∀ s, (if (c.kind s).isHistory = true then 2 else 1) ≤ 2 := fun s => by
    split <;> omega
  have hdown : ∀ {s q e}, c.context q = some s →
      Frame.rank c (.dispatch q e : Frame S T E) < Frame.rank c (.dispatch s e : Frame S T E) := by
    intro s q e hq
    have hlt := level_lt hq
    have hqb := hbound q
    have hs : 1 ≤ if (c.kind s).isHistory = true then 2 else 1 := by split <;> omega
    simp only [Frame.rank]
    omega
  have hexec : ∀ {s t e}, Frame.rank c (.execute t e : Frame S T E)
      < Frame.rank c (.dispatch s e : Frame S T E) := by
    intro s t e
    simp only [Frame.rank]
    split <;> omega
  have hlinks := h.links hc hx
  cases h with
  | @default n r _ _ _ ho _ =>
      have := hbound r
      have hlevel : c.level r ≤ c.maxDepth := by
        simp only [Chart.level, (Chart.mem_regions.mp ho.comes.mem).2]
        exact Nat.sub_le _ _
      simp only [Frame.rank]
      omega
  | substate _ _ _ hq => exact hdown (hlinks.pointers _ _ hq)
  | hierarchical => exact hexec
  | @offer n r _ pre post _ _ _ _ hl _ _ =>
      exact hdown (Chart.mem_regions.mp (show r ∈ c.regions n by simp [hl])).2
  | concurrent => exact hexec
  | @restored a q e w hh hq =>
      obtain ⟨p, hp, hcur, hne⟩ : ∃ p, c.context a = some p ∧ w.data.current p = some q
          ∧ q ≠ a := by
        unfold PseudoState.restored at hq
        cases hp : c.context a with
        | none => simp [hp] at hq
        | some p => cases hcur : w.data.current p <;> simp_all; grind
      have hctx := hx.pointers p q hcur
      have hq : (c.kind q).isHistory = false := Bool.eq_false_iff.mpr fun hhq =>
        hne (c.history_unique hhq hh (hctx.trans hp.symm))
      simp [Frame.rank, Chart.level, hh, hq, hctx, hp]
  | branch => exact hexec
  | plain => exact hexec
  | stored => exact absurd trivial hy
  | enter => exact absurd trivial hy

/-! ### When a call comes back -/

/-- The activation of the first state, begun in the first world, includes that of the second state
in the second world. -/
def Chart.Includes (c : Chart S T E P) (a b : S × World S T E P) : Prop :=
  TransGen c.Calls (.activate a.1, a.2) (.activate b.1, b.2)

/-- No look-ahead made under `x` leads round in a circle, and no activation made under `x` includes
others for ever. -/
structure Frame.Bounded (c : Chart S T E P) (x : Frame S T E × World S T E P) : Prop where
  look : ∀ t e w, ReflTransGen c.Calls x (.execute t e, w) →
    Transition.triggered c t e w = true → ¬ Circular (c.Ahead w) t
  includes : ∀ s w, ReflTransGen c.Calls x (.activate s, w) → ¬ Endless c.Includes (s, w)

lemma Frame.Ends.calls (h : Frame.Ends c x) (hxy : c.Calls x y) : Frame.Ends c y := by
  obtain ⟨b, w', k, h⟩ := h
  obtain ⟨j, b₂, w₂, h, -⟩ := hxy.returns h
  exact ⟨b₂, w₂, j, h⟩

lemma Frame.Ends.reaches (h : Frame.Ends c x) (hxy : ReflTransGen c.Calls x y) :
    Frame.Ends c y := by
  induction hxy with
  | refl => exact h
  | tail _ hr ih => exact ih.calls hr

/-- The calls of a call that comes back are nested finitely often. -/
lemma Frame.Ends.acc (h : Frame.Ends c x) : Acc (fun y x => c.Calls x y) x := by
  obtain ⟨b, w', k, h⟩ := h
  induction hn : x.1.cost k using Nat.strong_induction_on generalizing x b w' k with
  | _ m ih =>
      refine .intro x fun y hxy => ?_
      obtain ⟨j, b₂, w₂, hy, hlt⟩ := hxy.returns h
      exact ih _ (hn ▸ hlt) b₂ w₂ j hy rfl

/-- A call that comes back has met nothing endless. -/
lemma Frame.Ends.bounded (h : Frame.Ends c x) : Frame.Bounded c x where
  look t e w hx ht := by
    obtain ⟨b, w', k, h⟩ := h.reaches hx
    refine converges_allowed_iff.mp ?_
    rcases (Transition.returns_execute (pure_methods c k)).mp h with ⟨-, -, h, -⟩ | ⟨-, -, h⟩
    · exact ⟨true, w, k, h⟩
    · exact ⟨false, w, k, h ht⟩
  includes s w hx := by
    rw [← acc_iff_not_endless]
    have hacc : Acc (fun b a => TransGen c.Calls a b) (.activate s, w) :=
      Subrelation.accessible (fun h => Relation.transGen_swap.mpr h) (h.reaches hx).acc.transGen
    exact InvImage.accessible (a := (s, w))
      (fun a : S × World S T E P => ((.activate a.1, a.2) : Frame S T E × World S T E P)) hacc

/-- A call that meets nothing endless comes back. -/
lemma Frame.Bounded.ends (hc : c.ActionsKeepData) (hx : c.Links x.2.data)
    (h : Frame.Bounded c x) : Frame.Ends c x := by
  let r : Frame S T E × World S T E P → Frame S T E × World S T E P → Prop :=
    fun a b => c.Calls a b ∧ c.Links a.2.data
  have hcalls : TransGen r ≤ TransGen c.Calls := TransGen.mono fun _ _ h => h.1
  have hwf : WellFounded fun b a => r a b ∧ ¬ b.1.Enters :=
    Subrelation.wf (fun ⟨⟨hab, ha⟩, hb⟩ => Frame.rank_lt hc hab ha hb)
      (InvImage.wf (fun a : Frame S T E × World S T E P => a.1.rank c) Nat.lt_wfRel.wf)
  have hmark : ∀ a, Acc (fun b a => c.Includes a b) a →
      Acc (fun b a => (a.1.Enters ∧ b.1.Enters) ∧ TransGen r a b)
        ((.activate a.1, a.2) : Frame S T E × World S T E P) := by
    intro a ha
    induction ha with
    | intro a _ ih =>
        refine .intro _ ?_
        rintro ⟨f, w⟩ ⟨⟨-, hf⟩, hab⟩
        cases f with
        | activate s => exact ih (s, w) (hcalls _ _ hab)
        | dispatch => exact hf.elim
        | execute => exact hf.elim
  have hacc : Acc (fun b a => r a b) x := by
    refine acc_of_marked hwf ?_
    rintro ⟨f, w⟩ hxb hf
    cases f with
    | activate s =>
        exact hmark (s, w) (acc_iff_not_endless.mpr
          (h.includes s w (hcalls _ _ hxb).to_reflTransGen))
    | dispatch => exact hf.elim
    | execute => exact hf.elim
  have hends : ∀ y, Acc (fun b a => r a b) y → ReflTransGen c.Calls x y → c.Links y.2.data →
      Frame.Ends c y := by
    intro y hy
    induction hy with
    | intro y _ ih =>
        intro hxy hl
        have hnext : ∀ z, c.Calls y z → Frame.Ends c z := fun z hz =>
          ih z ⟨hz, hl⟩ (hxy.tail hz) (hz.links hc hl)
        obtain ⟨f, w⟩ := y
        cases f with
        | activate s => exact ends_activate hnext
        | dispatch s e => exact ends_dispatch hnext
        | execute t e => exact ends_execute hc hl (h.look t e w hxy) hnext
  exact hends x hacc .refl hx

/-- **Nested calls that end.** A call comes back exactly when it meets nothing endless. -/
theorem Frame.ends_iff (hc : c.ActionsKeepData) (hx : c.Links x.2.data) :
    Frame.Ends c x ↔ Frame.Bounded c x :=
  ⟨Frame.Ends.bounded, Frame.Bounded.ends hc hx⟩

/-! ### The calls of a client -/

namespace Statechart

lemma converges_pass_iff : Converges (fun n => pass c n e) w
    ↔ ∀ q, w.data.current c.root = some q → Frame.Ends c (.dispatch q e, w) := by
  constructor
  · rintro ⟨b, w', k, h⟩ q hq
    rcases returns_pass.mp h with ⟨hn, -⟩ | ⟨q', hq', h⟩
    · cases hn.symm.trans hq
    · obtain rfl := Option.some.inj (hq'.symm.trans hq)
      exact ⟨b, w', k, h⟩
  · intro h
    cases hq : w.data.current c.root with
    | none => exact ⟨false, w, 0, returns_pass.mpr (Or.inl ⟨hq, rfl, rfl⟩)⟩
    | some q =>
        obtain ⟨b, w', k, h⟩ := h q hq
        exact ⟨b, w', k, returns_pass.mpr (Or.inr ⟨q, hq, h⟩)⟩

lemma converges_completionLoop_iff {fuel : ℕ} : Converges (fun n => completionLoop c n fuel) w
    ↔ ∀ j < fuel, ∀ w₁, Reports c j w w₁ → Converges (fun n => pass c n none) w₁ := by
  induction fuel generalizing w with
  | zero => exact iff_of_true ⟨true, w, 0, returns_pure.mpr ⟨rfl, rfl⟩⟩ (by simp)
  | succ fuel ih =>
      have hbind := converges_bind_iff (w := w) (monotone_pass c none)
        fun b => monotone_ite (p := b = true) (monotone_completionLoop c fuel)
          (monotone_const (c := (pure false : Comp (World S T E P) Bool)))
      refine hbind.trans ⟨?_, fun h => ⟨h 0 (by omega) w rfl, fun b w₁ hp => ?_⟩⟩
      · rintro ⟨hp, hloop⟩ j hj w₁ hr
        cases j with
        | zero => exact (show w₁ = w from hr) ▸ hp
        | succ j =>
            obtain ⟨_, w₂, hp₂, rfl, hr⟩ := hr
            exact ih.mp (by simpa using hloop true w₂ hp₂) j (by omega) w₁ hr
      · cases b
        · exact ⟨false, w₁, 0, returns_pure.mpr ⟨rfl, rfl⟩⟩
        · simp only [↓reduceIte]
          exact ih.mpr fun j hj w₂ hr => h (j + 1) (by omega) w₂ ⟨true, w₁, hp, rfl, hr⟩

lemma converges_complete_iff {rc : Bool} : Converges (fun n => complete c n rc) w
    ↔ Converges (fun n => completionLoop c n c.infiniteLoopThreshold) w := by
  constructor
  · rintro ⟨o, w', n, h⟩
    obtain ⟨b, w₁, h, -⟩ := returns_bind.mp h
    exact ⟨b, w₁, n, h⟩
  · rintro ⟨b, w', n, h⟩
    cases b
    · exact ⟨.returned rc, w', n, returns_bind.mpr ⟨false, w', h, returns_pure.mpr ⟨rfl, rfl⟩⟩⟩
    · exact ⟨_, w', n, returns_bind.mpr ⟨true, w', h, returns_pure.mpr ⟨rfl, rfl⟩⟩⟩

/-- A dispatch comes back when each of its passes does. -/
lemma converges_dispatch_iff : Converges (fun n => dispatch c n e) w
    ↔ ((w.data.getData c.root).isSome = true →
      ∀ e' w₁, Makes c e w e' w₁ → Converges (fun n => pass c n e') w₁) := by
  cases hd : (w.data.getData c.root).isSome
  · exact iff_of_true ⟨.returned false, w, 0, by simp [dispatch, hd]⟩ (by simp)
  have hdispatch : Converges (fun n => dispatch c n e) w
      ↔ Converges (fun n => pass c n e >>= complete c n) w := by
    simp [Converges, Returned, dispatch, hd]
  rw [hdispatch, converges_bind_iff (monotone_pass c e) (monotone_complete c)]
  simp only [converges_complete_iff, converges_completionLoop_iff, forall_const]
  constructor
  · rintro ⟨hp, hloop⟩ e' w₁ hm
    cases hm with
    | event => exact hp
    | completion hr hj hreports => exact hloop _ _ hr _ hj _ hreports
  · exact fun h => ⟨h e w .event, fun rc w₁ hr j hj w₂ hreports =>
      h none w₂ (.completion hr hj hreports)⟩

/-- What a client finds is right, up to each pass of its next call. -/
lemma Makes.links (hc : c.ActionsKeepData) (hw : c.Links w.data) {e' : Option E}
    (h : Makes c e w e' w₁) : c.Links w₁.data := by
  cases h with
  | event => exact hw
  | completion hr _ hreports =>
      obtain ⟨k, hr⟩ := hr
      exact hreports.rel (compatible_links hc)
        ((compatible_links hc).pass k (Set.mem_univ e) _ _ _ hr hw)

/-- **When a call hangs.** A call on a reachable metadata comes back, with a result or with the
exception, exactly when no look-ahead it makes leads round in a circle and no activation it makes
includes others for ever. -/
theorem converges_call_iff (hc : c.ActionsKeepData) (hw : Reachable c w) (call : Call E P) :
    Converges (fun n => Statechart.call c n call) w
      ↔ (∀ t e w₁, Leads c call w (.execute t e, w₁) → Transition.triggered c t e w₁ = true →
          ¬ Circular (c.Ahead w₁) t)
        ∧ ∀ s w₁, Leads c call w (.activate s, w₁) → ¬ Endless c.Includes (s, w₁) := by
  have hlinks : c.Links (call.prepare c w).data := by
    cases call with
    | start p => exact links_enter _
    | dispatch e p => exact (hw.links hc : c.Links w.data)
  have hcall : Converges (fun n => Statechart.call c n call) w
      ↔ Converges (fun n => dispatch c n call.event) (call.prepare c w) :=
    exists_congr fun _ => exists_congr fun _ => returned_call
  rw [hcall, converges_dispatch_iff]
  constructor
  · intro h
    have hbounded : ∀ {e q w₁}, ((call.prepare c w).data.getData c.root).isSome = true →
        Makes c call.event (call.prepare c w) e w₁ → w₁.data.current c.root = some q →
        Frame.Bounded c (.dispatch q e, w₁) := fun {e q w₁} hd hm hq =>
      (Frame.ends_iff hc (hm.links hc hlinks)).mp (converges_pass_iff.mp (h hd e w₁ hm) q hq)
    exact ⟨fun t e w₁ ⟨hd, e', q, w₂, hm, hq, hx⟩ => (hbounded hd hm hq).look t e w₁ hx,
      fun s w₁ ⟨hd, e', q, w₂, hm, hq, hx⟩ => (hbounded hd hm hq).includes s w₁ hx⟩
  · rintro ⟨hlook, hincludes⟩ hd e w₁ hm
    refine converges_pass_iff.mpr fun q hq => (Frame.ends_iff hc (hm.links hc hlinks)).mpr ?_
    exact ⟨fun t e' w₂ hx => hlook t e' w₂ ⟨hd, e, q, w₁, hm, hq, hx⟩,
      fun s w₂ hx => hincludes s w₂ ⟨hd, e, q, w₁, hm, hq, hx⟩⟩

end Statechart

/-! ### Charts in which nothing is endless -/

namespace Chart

/-- The look-ahead on `t` asks whether `t'` can fire: the guard of `t` holds, and `t'` leaves the
pseudo-state at its end, which is no join that has to wait. -/
def Look (c : Chart S T E P) (w : World S T E P) (t t' : T) : Prop :=
  Transition.guardHolds c t w = true ∧ ∃ j, (c.activates t).getLast? = some j
    ∧ (c.kind j).isPseudo = true
    ∧ (c.kind j = .pseudoState .join → PseudoState.joinReady c j w = true)
    ∧ t' ∈ c.transitions j

/-- The activation of `a` may activate `b`: `a` is a concurrent state and `b` is entered by the
default transition of a region, or by a transition of the region that follows at once because the
region has a final state; or `a` is a history and `b` one of the states it may have stored. -/
def Enters (c : Chart S T E P) (a b : S) : Prop :=
  (c.kind a = .concurrentState ∧ ∃ r ∈ c.regions a, ∃ t ∈ c.ownedTransitions, c.event t = none
      ∧ b ∈ c.activates t ∧ (c.startState r = some (c.source t)
        ∨ c.source t = r ∧ ∃ f, c.kind f = .finalState ∧ c.context f = some r))
    ∨ ((c.kind a).isHistory = true ∧ ∃ p, c.context a = some p ∧ c.Below b p ∧ b ≠ p ∧ b ≠ a
      ∧ (c.kind a = .pseudoState .history → c.context b = some p))

end Chart

lemma not_circular (hL : WellFounded fun t' t => c.Look w t t') (t : T) :
    ¬ Circular (c.Ahead w) t := by
  rw [← endless_iff_circular fun _ _ => mem_of_ahead, ← acc_iff_not_endless]
  refine (Subrelation.wf ?_ hL).apply t
  rintro t' t ⟨j, pre, post, hj, hl, -⟩
  exact ⟨hj.guard, j, hj.last, hj.pseudo, hj.ready, by simp [hl]⟩

lemma current_visit (hc : c.ActionsKeepData) (hq : c.context q = some s) :
    (c.visit q w).data.current s = some q ∨ (c.visit q w).data.current s = w.data.current s := by
  rw [hc.data_visit, current_activateData hq, if_neg (Forest.ne_of_parent (F := c.forest) hq).symm]
  split
  · exact Or.inl rfl
  · exact Or.inr rfl

/-- After the first entry of a state without a substate, its substate is its start state or none. -/
lemma current_enterStart (hc : c.ActionsKeepData) {k : ℕ} (hcur : w.data.current s = none)
    (h : Returns (HierarchicalState.enterStart c (c.methods k) s) w ⟨⟩ w') :
    w'.data.current s = none ∨ ∃ st, c.startState s = some st ∧ w'.data.current s = some st := by
  rcases HierarchicalState.returns_enterStart.mp h with ⟨rfl, -⟩ | ⟨st, -, hst, h⟩
  · exact Or.inl hcur
  obtain ⟨hk, hctx⟩ := Chart.startState_eq_some hst
  have hvisit : (c.activateData st w).data.current s = none
      ∨ (c.activateData st w).data.current s = some st := by
    cases hq : (c.activateData st w).data.current s with
    | none => exact Or.inl rfl
    | some q =>
        rcases current_activateData_cases hq with ⟨rfl, -⟩ | hq
        · exact Or.inr rfl
        · rw [hcur] at hq
          cases hq
  rcases h with ⟨hq, rfl⟩ | ⟨q, b, hq, h⟩
  · exact Or.inl hq
  · obtain rfl : q = st := by
      rcases hvisit with hn | hs
      · rw [hn] at hq
        cases hq
      · exact Option.some.inj (hq.symm.trans hs)
    cases k with
    | zero => exact absurd h (by simp [Chart.methods])
    | succ k =>
        obtain ⟨-, rfl⟩ := (step_activate_start hk).mp h
        rcases current_visit hc hctx with h' | h'
        · exact Or.inr ⟨q, hst, h'⟩
        · exact Or.inr ⟨q, hst, h'.trans hq⟩

/-- What a history has stored may be entered through it. -/
lemma enters_of_mem_stateset (hw : c.Links w.data) (hs : (c.kind s).isHistory = true)
    (hq : q ∈ w.data.stateset s) : c.Enters s q := by
  have hne : s ≠ c.root := by
    rintro rfl
    rw [(c.kind_statechart _).mpr rfl] at hs
    cases hs
  obtain ⟨p, hp⟩ := Chart.context_eq_some_of_ne_root hne
  have hchain := hw.histories s p hs hp
  obtain ⟨hbelow, hqp, hqs⟩ := hchain.below hp q hq
  refine Or.inr ⟨hs, p, hp, hbelow, hqp, hqs, fun hk => ?_⟩
  obtain ⟨x, hx⟩ := hchain.descends
  have hlen := hchain.shallow hk
  cases hl : w.data.stateset s with
  | nil => rw [hl] at hq; cases hq
  | cons a l =>
      rw [hl] at hq hx hlen
      obtain rfl : l = [] := List.length_eq_zero_iff.mp (by simpa using hlen)
      rw [List.mem_singleton.mp hq]
      exact hx.1

omit [DecidableEq S] in
lemma Transition.mem_of_successors {l : List S} {z : S × Option S}
    (h : z ∈ Transition.successors l) : z.1 ∈ l := by
  induction l with
  | nil => cases h
  | cons a l ih =>
      rcases List.mem_cons.mp h with rfl | h
      · exact List.mem_cons_self
      · exact List.mem_cons_of_mem a (ih h)

/-- The calls of a default entry of `n`: the dispatch of the null event to a region without a
substate, its dispatch to the start state of a region, and the transitions that answer it. -/
inductive Chart.Opened (c : Chart S T E P) (n : S) : Frame S T E × World S T E P → Prop
  | region {r : S} {w : World S T E P} : r ∈ c.regions n → w.data.current r = none →
      Opened c n (.dispatch r none, w)
  | start {r st : S} {w : World S T E P} : r ∈ c.regions n → c.startState r = some st →
      Opened c n (.dispatch st none, w)
  | fires {r : S} {t : T} {w : World S T E P} : r ∈ c.regions n → t ∈ c.ownedTransitions →
      (c.event t = none → c.startState r = some (c.source t)
        ∨ c.source t = r ∧ ∃ f, c.kind f = .finalState ∧ c.context f = some r) →
      Opened c n (.execute t none, w)

/-- A default entry goes on, or activates what the chart says. -/
lemma Chart.Opened.calls (hc : c.ActionsKeepData) (hn : c.kind n = .concurrentState)
    (hx : c.Opened n x) (hw : c.Links x.2.data) (h : c.Calls x y) :
    c.Opened n y ∨ ∃ b w, y = (.activate b, w) ∧ c.Enters n b := by
  cases hx with
  | @region r w hr hcur =>
      obtain ⟨hk, -⟩ := Chart.mem_regions.mp hr
      refine Or.inl ?_
      cases h with
      | substate _ _ he hq =>
          obtain ⟨k, he⟩ := he
          rcases current_enterStart hc hcur he with hn | ⟨st, hst, hs⟩
          · cases hn.symm.trans hq
          · obtain rfl := Option.some.inj (hq.symm.trans hs)
            exact .start hr hst
      | @hierarchical _ t _ _ _ w₁ w₂ _ _ _ he hd _ _ hl hfin =>
          obtain ⟨hown, hsrc⟩ := Chart.mem_transitions.mp hl.mem
          refine .fires hr hown fun ht => Or.inr ⟨hsrc, ?_⟩
          -- the substate is final here, and a child of the region
          have hf := hfin ht
          cases hq : w₂.data.current r with
          | none => simp [hq, Chart.isFinal] at hf
          | some f =>
              obtain ⟨k, he⟩ := he
              obtain ⟨j, hd⟩ := hd
              have hkeep := (compatible_links hc).methods
              have hw₁ := (compatible_links hc).enterStart (hkeep k) r _ _ _ he hw
              have hw₂ := ((compatible_links hc).offers (pure_methods c j) (hkeep j)
                (Set.mem_univ none)).dispatchCurrent r _ _ _ hd hw₁
              exact ⟨f, by simpa [hq, Chart.isFinal] using hf, hw₂.pointers r f hq⟩
      | offer hk' => cases hk'.symm.trans hk
      | concurrent hk' => cases hk'.symm.trans hk
      | restored hh => simp [hk, StateKind.isHistory] at hh
      | branch hf => cases hf.symm.trans hk
      | plain hp => exact absurd hk hp.hierarchical
  | @start r st w hr hst =>
      have hk := (Chart.startState_eq_some hst).1
      refine Or.inl ?_
      cases h with
      | substate hk' => cases hk'.symm.trans hk
      | hierarchical hk' => cases hk'.symm.trans hk
      | offer hk' => cases hk'.symm.trans hk
      | concurrent hk' => cases hk'.symm.trans hk
      | restored hh => simp [hk, StateKind.isHistory] at hh
      | branch hf => cases hf.symm.trans hk
      | plain _ hl =>
          obtain ⟨hown, hsrc⟩ := Chart.mem_transitions.mp hl.mem
          exact .fires hr hown fun _ => Or.inl (hsrc ▸ hst)
  | @fires r t w hr hown hsrc =>
      cases h with
      | enter ht _ _ hl =>
          have hnone : c.event t = none := by
            cases he : c.event t with
            | none => rfl
            | some ev => simp [Transition.triggered, he] at ht
          exact Or.inr ⟨_, _, rfl, Or.inl ⟨hn, r, hr, t, hown, hnone,
            Transition.mem_of_successors hl.mem, hsrc hnone⟩⟩

/-- What the activation of `a` calls is part of a default entry, or the activation of a state that
the chart says may be entered in its course. -/
lemma enters_of_calls (hc : c.ActionsKeepData) {a : S} (hw : c.Links w.data)
    (h : TransGen c.Calls (.activate a, w) y) :
    (∃ n, ReflTransGen c.Enters a n ∧ c.kind n = .concurrentState ∧ c.Opened n y)
      ∨ ∃ b w, y = (.activate b, w) ∧ TransGen c.Enters a b := by
  -- the calls of an activation are its default entries and restored states
  have hactivate : ∀ {n w y}, c.Links w.data → c.Calls (.activate n, w) y →
      (c.kind n = .concurrentState ∧ c.Opened n y)
        ∨ ∃ b w, y = (.activate b, w) ∧ c.Enters n b := by
    intro n w y hw h
    have hlinks := h.links hc hw
    cases h with
    | @default n r _ w₁ w₂ ho ha =>
        obtain ⟨hkr, hctx⟩ := Chart.mem_regions.mp ho.comes.mem
        refine Or.inl ⟨ho.kind, .region ho.comes.mem ?_⟩
        obtain ⟨k, ha⟩ := ha
        cases k with
        | zero => exact absurd ha (by simp [Chart.methods])
        | succ k =>
            simp only [Chart.methods, Chart.step, hkr] at ha
            rcases State.returns_activate.mp ha with ⟨-, hb, -⟩ | ⟨-, -, rfl⟩
            · cases hb
            · rw [hc.data_greet, current_arrive, current_activateData hctx, if_pos rfl]
    | @stored _ q _ w₁ hh hl =>
        refine Or.inr ⟨q, w₁, rfl, enters_of_mem_stateset (w := c.visit n w) ?_ hh hl.mem⟩
        have hn : (c.kind n).isPseudo = true := by
          obtain ⟨type, hk⟩ : ∃ type, c.kind n = .pseudoState type := by
            cases hk : c.kind n <;> simp [hk, StateKind.isHistory] at hh ⊢
          rw [hk]
          rfl
        exact (compatible_links hc).trans ((compatible_links hc).activateData n w hn)
          ((compatible_links hc).entry n _) hw
  suffices h' : c.Links y.2.data ∧ ((∃ n, ReflTransGen c.Enters a n ∧ c.kind n = .concurrentState
      ∧ c.Opened n y) ∨ ∃ b w, y = (.activate b, w) ∧ TransGen c.Enters a b) from h'.2
  induction h with
  | single h =>
      refine ⟨h.links hc hw, ?_⟩
      rcases hactivate hw h with h | ⟨b, w', hy, hb⟩
      · exact Or.inl ⟨a, .refl, h⟩
      · exact Or.inr ⟨b, w', hy, .single hb⟩
  | tail _ h ih =>
      obtain ⟨hl, ⟨n, han, hn, ho⟩ | ⟨d, w', rfl, had⟩⟩ := ih
      · refine ⟨h.links hc hl, ?_⟩
        rcases ho.calls hc hn hl h with ho | ⟨b, w', hy, hb⟩
        · exact Or.inl ⟨n, han, hn, ho⟩
        · exact Or.inr ⟨b, w', hy, .tail' han hb⟩
      · refine ⟨h.links hc hl, ?_⟩
        rcases hactivate hl h with h | ⟨b, w', hy, hb⟩
        · exact Or.inl ⟨d, had.to_reflTransGen, h⟩
        · exact Or.inr ⟨b, w', hy, .tail had hb⟩

/-- Where default entries and histories cannot lead on for ever, activations end. -/
lemma not_endless (hc : c.ActionsKeepData) (hE : WellFounded fun b a => c.Enters a b) (s : S)
    (hw : c.Links w.data) : ¬ Endless c.Includes (s, w) := by
  rintro ⟨f, h₀, hf⟩
  have hlinks : ∀ i, c.Links (f i).2.data := by
    intro i
    induction i with
    | zero => exact h₀ ▸ hw
    | succ i ih =>
        have hkeep : ∀ {x y}, TransGen c.Calls x y → c.Links x.2.data → c.Links y.2.data := by
          intro x y h hx
          induction h with
          | single h => exact h.links hc hx
          | tail _ h ih => exact h.links hc ih
        exact hkeep (hf i) ih
  have hacc : Acc (fun b a => TransGen c.Enters a b) (f 0).1 :=
    Subrelation.accessible (fun h => Relation.transGen_swap.mpr h) (hE.apply _).transGen
  refine acc_iff_not_endless.mp hacc ⟨fun i => (f i).1, rfl, fun i => ?_⟩
  rcases enters_of_calls hc (hlinks i) (hf i) with ⟨n, -, -, ho⟩ | ⟨b, w', hy, hb⟩
  · cases ho
  · obtain ⟨hs, -⟩ := Prod.mk.inj hy
    have hs : (f (i + 1)).1 = b := Frame.activate.inj hs
    show TransGen c.Enters (f i).1 (f (i + 1)).1
    rw [hs]
    exact hb

/-- Entering a state ends where default entries and histories cannot lead on for ever. -/
lemma converges_activate (hc : c.ActionsKeepData)
    (hL : ∀ w, WellFounded fun t' t => c.Look w t t')
    (hE : WellFounded fun b a => c.Enters a b) (s : S) (hw : c.Links w.data) :
    Converges (fun k => (c.methods k).activate s) w := by
  refine Frame.Bounded.ends (x := (.activate s, w)) hc hw ⟨fun t _ w _ _ => not_circular (hL w) t,
    fun b v hx => not_endless hc hE b ?_⟩
  have hkeep : ∀ {y}, ReflTransGen c.Calls (.activate s, w) y → c.Links y.2.data := by
    intro y h
    induction h with
    | refl => exact hw
    | tail _ h ih => exact h.links hc ih
  exact hkeep hx

/-- The conditions under which no recursion goes on for ever. -/
structure Chart.Bounded (c : Chart S T E P) : Prop where
  actions : c.ActionsKeepData
  look : ∀ w, WellFounded fun t' t => c.Look w t t'
  enters : WellFounded fun b a => c.Enters a b

/-! ### A junction that leads to itself -/

namespace Cycle

/-- A state `a` and a junction `j`. -/
inductive St where
  | chart | s | a | j
  deriving DecidableEq

instance : Fintype St := ⟨{.chart, .s, .a, .j}, fun x => by cases x <;> decide⟩

inductive Tr where
  | begin | go | again
  deriving DecidableEq

instance : Fintype Tr := ⟨{.begin, .go, .again}, fun t => by cases t <;> decide⟩

/-- The event `go` leads from `a` to the junction, whose only way out leads back to it. -/
def chart : Chart St Tr Event Unit where
  name := "cycle"
  root := .chart
  ownedStates := [.s, .a, .j]
  ownedTransitions := [.begin, .go, .again]
  kind
    | .chart => .statechart
    | .s => .pseudoState .start
    | .a => .state
    | .j => .pseudoState .junction
  context
    | .chart => none
    | _ => some .chart
  depth
    | .chart => 0
    | _ => 1
  source
    | .begin => .s
    | .go => .a
    | .again => .j
  target
    | .begin => .a
    | _ => .j
  event
    | .go => some (.event "go")
    | _ => none
  equals ev e _ _ := ev.equals e
  timeout := Event.timeout

/-- No number of nested calls is enough for the look-ahead from the junction. -/
lemma lookup_not_returns (n : ℕ) {w w' : World St Tr Event Unit} {b : Bool} :
    ¬ Returns ((chart.methods n).lookup .j) w b w' := by
  induction n generalizing w w' b with
  | zero => simp [Chart.methods]
  | succ n ih =>
      intro h
      have hloop :=
        (PseudoState.returns_lookup (show chart.kind .j ≠ .pseudoState .join by decide)).mp
        h
      rcases returns_anyM_cons.mp hloop with ⟨h, -⟩ | ⟨w₁, h, -⟩
      · exact ih ((Transition.returns_allowed_of_isPseudo rfl rfl rfl).mp h)
      · exact ih ((Transition.returns_allowed_of_isPseudo rfl rfl rfl).mp h)

lemma dispatch_not_returns (n : ℕ) {w w' : World St Tr Event Unit} {b : Bool} :
    ¬ Returns ((chart.methods n).dispatch .a (some (.event "go"))) w b w' := by
  intro h
  cases n with
  | zero => exact absurd h (by simp [Chart.methods])
  | succ n =>
      have hallowed : ∀ {b} {w w' : World St Tr Event Unit},
          ¬ Returns (Transition.allowed chart (chart.methods n) .go) w b w' := fun h =>
        lookup_not_returns n ((Transition.returns_allowed_of_isPseudo rfl rfl rfl).mp h)
      have hexecute : ∀ {b} {w w' : World St Tr Event Unit},
          ¬ Returns (Transition.execute chart (chart.methods n) .go (some (.event "go"))) w
            b w' := by
        intro b w w' h
        rcases (Transition.returns_execute (pure_methods chart n)).mp h with
          ⟨-, -, h, -⟩ | ⟨-, -, h⟩
        · exact hallowed h
        · exact hallowed (h rfl)
      have hloop : Returns ([Tr.go].anyM fun t =>
        Transition.execute chart (chart.methods n) t (some (.event "go"))) w b w' := h
      rcases returns_anyM_cons.mp hloop with ⟨h, -⟩ | ⟨w₁, h, -⟩
      · exact hexecute h
      · exact hexecute h

set_option maxRecDepth 4000 in
/-- **A dispatch that hangs.** In `a`, the event `go` sends the look-ahead round the junction for
ever, before the completion loop begins to count. -/
theorem not_converges : ∃ w, Statechart.Reachable chart w
    ∧ ¬ Converges (fun n => Statechart.call chart n (.dispatch (some (.event "go")) ())) w := by
  refine ⟨_, ⟨(), [.start ()], 20, rfl⟩, ?_⟩
  rintro ⟨o, w', h⟩
  rcases Statechart.returned_dispatch.mp (Statechart.returned_call.mp h) with
    ⟨hd, -⟩ | ⟨-, rc, w₁, ⟨n, hpass⟩, -⟩
  · cases hd
  rcases Statechart.returns_pass.mp hpass with ⟨hq, -⟩ | ⟨q, hq, hpass⟩
  · cases hq
  obtain rfl : St.a = q := Option.some.inj hq
  exact dispatch_not_returns n hpass

lemma actionsKeepData : chart.ActionsKeepData :=
  ⟨by simp [chart], by simp [chart], by simp [chart], by simp [chart]⟩

/-- From `go` the look-ahead comes to the junction's way out, and from there to it again. -/
lemma circular (w : World St Tr Event Unit) : Circular (chart.Ahead w) .go := by
  have hj : ∀ t, t = .go ∨ t = .again → chart.Ahead w t .again := by
    rintro t (rfl | rfl) <;>
      exact ⟨.j, [], [], ⟨rfl, rfl, rfl, fun h => by cases h⟩, rfl, by simp⟩
  exact ⟨.again, .single (hj _ (Or.inl rfl)), .single (hj _ (Or.inr rfl))⟩

set_option maxRecDepth 4000 in
/-- In `a`, the event `other` meets no look-ahead that leads round in a circle, and `go` does. -/
theorem converges_other : ∃ w, Statechart.Reachable chart w
    ∧ (∀ t e w₁, Statechart.Leads chart (.dispatch (some (.event "other")) ()) w
      (.execute t e, w₁) → Transition.triggered chart t e w₁ = true → ¬ Circular (chart.Ahead w₁) t)
    ∧ Converges (fun n => Statechart.call chart n (.dispatch (some (.event "other")) ())) w
    ∧ ¬ Converges (fun n => Statechart.call chart n (.dispatch (some (.event "go")) ())) w := by
  obtain ⟨w, hw, hd, hq, hother⟩ : ∃ w, Statechart.Reachable chart w
      ∧ (w.data.getData .chart).isSome = true ∧ w.data.current .chart = some .a
      ∧ Converges (fun n => Statechart.call chart n (.dispatch (some (.event "other")) ())) w :=
    ⟨_, ⟨(), [.start ()], 20, rfl⟩, rfl, rfl, _, _, 20, rfl⟩
  refine ⟨w, hw, ((Statechart.converges_call_iff actionsKeepData hw _).mp hother).1, hother,
    fun h => ?_⟩
  -- the junction is asked before the transition of `a` can fire
  have hcalls : chart.Calls (.dispatch .a (some (.event "go")), { w with param := () })
      (.execute .go (some (.event "go")), { w with param := () }) :=
    .plain ⟨by decide, by decide, by decide, fun h => by cases h⟩ ⟨[], [], rfl, 0, rfl⟩
  exact ((Statechart.converges_call_iff actionsKeepData hw _).mp h).1 .go _ _
    ⟨hd, _, .a, _, .event, hq, .single hcalls⟩ rfl (circular _)

end Cycle

end CppStatecharts
