import CppStatecharts.Completion.Passes
import CppStatecharts.Semantics.Calls
import CppStatecharts.Semantics.Pointers

/-!
What happens in the course of a call.

* `Frame.CallsKeep`: a relation holds between the worlds before and after each call that a frame
  makes. With the elementary changes it then holds of an activation (`Entering.activate_of_calls`)
  and of a dispatch (`Entering.dispatch_of_calls`).
* `Entering.course`: the rule for a frame and all it leads to, where transitions are executed.
* `Statechart.Makes`, `Statechart.Leads`: the passes and nested calls of a call of the client;
  `Statechart.Restores`: those of a restoration.
* `Statechart.rel_call`, `Statechart.rel_restoreState`: the rule for these.
-/

namespace CppStatecharts

open Relation (ReflTransGen)

variable {S T E P : Type} [DecidableEq S] {c : Chart S T E P}
variable {R : World S T E P → World S T E P → Prop}
variable {w w₁ w₂ w' : World S T E P} {s n q r : S} {t : T} {e : Option E}
variable {x y : Frame S T E × World S T E P} {k : ℕ} {b : Bool} {u : PUnit}

/-- A start pseudo-state does nothing but become active. -/
lemma step_activate_start (hs : c.kind s = .pseudoState .start) {v : Methods S T E P} {b : Bool} :
    Returns ((c.step v).activate s) w b w' ↔ b = true ∧ w' = c.visit s w := by
  simp only [Chart.step, hs]
  rw [PseudoState.returns_activate]
  simp [hs, StateKind.isHistory]

/-! ### What a frame does besides its calls -/

variable (c R) in
/-- `R` relates the worlds before and after each call that `x` makes. -/
def Frame.CallsKeep (x : Frame S T E × World S T E P) : Prop :=
  ∀ y, c.Calls x y → ∀ k b w', Returns (y.1.run c (c.methods k)) y.2 b w' → R y.2 w'

namespace Entering

variable (hR : Entering c Set.univ R)

include hR

lemma region_activate (hr : r ∈ c.regions n) (k : ℕ) : Keeps R ((c.methods k).activate r) := by
  have hk := (Chart.mem_regions.mp hr).1
  cases k with
  | zero => exact keeps_failure
  | succ k =>
      simp only [Chart.methods, Chart.step, hk]
      exact hR.state_activate (by simp [hk, StateKind.isPseudo])

/-- The first entry of a state comes to its start state, if it does anything. -/
lemma keeps_enterStart (k : ℕ) (s : S) :
    Keeps R (HierarchicalState.enterStart c (c.methods k) s) := by
  intro w u w' he
  rcases HierarchicalState.returns_enterStart.mp he with ⟨rfl, -⟩ | ⟨st, hcur, hst, he⟩
  · exact hR.refl _
  have hk := (Chart.startState_eq_some hst).1
  have hpseudo : (c.kind st).isPseudo = true := by simp [hk, StateKind.isPseudo]
  have hst := hR.activateData st w hpseudo
  rcases he with ⟨-, rfl⟩ | ⟨q, b, hq, he⟩
  · exact hst
  obtain rfl : q = st := by
    rcases current_activateData_cases hq with ⟨rfl, -⟩ | hq
    · rfl
    · rw [hcur] at hq
      cases hq
  cases k with
  | zero => exact absurd he (by simp [Chart.methods])
  | succ k =>
      obtain ⟨-, rfl⟩ := (step_activate_start hk).mp he
      exact hR.trans hst (hR.trans (hR.activateData q _ hpseudo) (hR.entry q _))

lemma enterRegion_of_calls (hn : c.kind n = .concurrentState) (hw : w.data.isActive n = false)
    (hd : ((c.greet n (c.arrive n w)).data.getData n).isSome = true)
    (h : Frame.CallsKeep c R (.activate n, w))
    (hr : LoopAt (fun k => ConcurrentState.enterRegion (c.methods k) n) (c.regions n)
      ((c.greet n (c.arrive n w)).log (.entering n)) r w₁)
    (he : Returns (ConcurrentState.enterRegion (c.methods k) n r) w₁ u w₂) : R w₁ w₂ := by
  rcases ConcurrentState.returns_enterRegion.mp he with
    ⟨-, rfl⟩ | ⟨-, ha⟩ | ⟨hmem, w₃, b, ha, hd'⟩
  · exact hR.refl _
  · exact hR.region_activate hr.mem k _ _ _ ha
  · exact hR.trans (hR.region_activate hr.mem k _ _ _ ha)
      (h _ (.default ⟨hn, hw, hd, hr, hmem⟩ ⟨k, ha⟩) k b w₂ hd')

/-- What holds of the calls of an activation holds of the activation. -/
lemma activate_of_calls (h : Frame.CallsKeep c R (.activate s, w))
    (ha : Returns ((c.methods k).activate s) w b w') : R w w' := by
  have := hR.std_refl
  have := hR.isTrans
  cases k with
  | zero => exact absurd ha (by simp [Chart.methods])
  | succ k =>
  cases hk : c.kind s <;> simp only [Chart.methods, Chart.step, hk] at ha
  case concurrentState =>
    rcases ConcurrentState.returns_activate.mp ha with ⟨-, -, rfl⟩ | ⟨hi, -, ha⟩
    · exact hR.refl _
    refine hR.trans (hR.trans (hR.arrive s w (by simp [hk, StateKind.isPseudo]) hi)
      (hR.greet s _)) ?_
    rcases ConcurrentState.returns_enterRegions.mp ha with ⟨-, rfl⟩ | ⟨⟨d, hd⟩, w₁, h₁, rfl⟩
    · exact hR.refl _
    · refine hR.bracket s _ w₁ (rel_forM (fun r => monotone_of c
        (ConcurrentState.monotone_enterRegion s r)) (fun r w₂ u w₃ hr he => ?_) h₁)
      exact hR.enterRegion_of_calls hk hi (by simp [hd]) h hr he
  case pseudoState type =>
    have hvisit : R w (c.visit s w) :=
      hR.trans (hR.activateData s w (by simp [hk, StateKind.isPseudo])) (hR.entry s _)
    rcases (PseudoState.returns_activate.mp ha).2 with ⟨hh, ha⟩ | ⟨-, -, ha⟩ | ⟨-, -, rfl⟩
    · refine hR.trans hvisit (rel_forM (fun q => monotone_of c (monotone_bind
        (monotone_activate q) fun _ => monotone_const)) (fun q w₁ u w₂ hq hr => ?_) ha)
      obtain ⟨b, w₃, hr, h₃⟩ := returns_bind.mp hr
      obtain ⟨-, rfl⟩ := returns_pure.mp h₃
      exact h _ (.stored hh hq) k b w₂ hr
    · refine hR.trans hvisit (keeps_forM (fun t _ => ?_) _ _ _ ha)
      exact keeps_bind (keeps_peek _) fun _ =>
        keeps_ite (keeps_modify fun w => hR.registerRegions _ w) (keeps_pure _)
    · exact hvisit
  all_goals exact hR.state_activate (by simp [hk, StateKind.isPseudo]) _ _ _ ha

/-! ### Dispatching -/

lemma hierarchical_of_calls (hk : c.kind s = .hierarchicalState)
    (h : Frame.CallsKeep c R (.dispatch s e, w))
    (hd : Returns (HierarchicalState.dispatch c (c.methods k) s e) w b w') : R w w' := by
  have := hR.std_refl
  have := hR.isTrans
  rcases HierarchicalState.returns_dispatch.mp hd with
    ⟨-, -, rfl⟩ | ⟨ha, w₁, w₂, handled, h₁, h₂, h₃⟩
  · exact hR.refl _
  have hsub : R w₁ w₂ := by
    rcases HierarchicalState.returns_dispatchCurrent.mp h₂ with ⟨-, -, rfl⟩ | ⟨q, hq, h₂⟩
    · exact hR.refl _
    · exact h _ (.substate hk ha ⟨k, h₁⟩ hq) k _ _ h₂
  refine hR.trans (hR.keeps_enterStart k s _ _ _ h₁) (hR.trans hsub ?_)
  rcases h₃ with ⟨-, -, rfl⟩ | ⟨-, -, -, -, rfl⟩ | ⟨ha₂, hf, h₃⟩
  · exact hR.refl _
  · exact hR.refl _
  have hoffered : R w₂ (HierarchicalState.offered s e handled w₂) := by
    cases handled
    · exact hR.refl _
    · exact hR.fallThrough s w₂ e trivial
  refine hR.trans hoffered (rel_anyM (fun t => monotone_of c
    (HierarchicalState.monotone_tryTransition c _ e t)) (fun t w₃ b w₄ ht hx => ?_) h₃)
  rcases (HierarchicalState.returns_tryTransition (pure_methods c k)).mp hx with
    ⟨-, -, rfl⟩ | ⟨hfin, hx⟩
  · exact hR.refl _
  · exact h _ (.hierarchical hk ha ⟨k, h₁⟩ ⟨k, h₂⟩ ha₂ hf ht hfin) k b w₄ hx

lemma regions_of_calls {pre l : List S} {b₁ b₂ : Bool} (hl : c.regions n = pre ++ l)
    (hk : c.kind n = .concurrentState) (h : Frame.CallsKeep c R (.dispatch n e, w))
    (hpre : Returns (ConcurrentState.dispatchRegions (c.methods k) n e pre) w b₁ w₁)
    (hd : Returns (ConcurrentState.dispatchRegions (c.methods k) n e l) w₁ b₂ w₂) : R w₁ w₂ := by
  induction l generalizing pre b₁ b₂ w₁ with
  | nil => exact (returns_pure.mp hd).2 ▸ hR.refl _
  | cons r l ih =>
      obtain ⟨b, w₃, b', h₁, h₂, -⟩ := ConcurrentState.returns_dispatchRegions_cons.mp hd
      have hregion : R w₁ w₃ := by
        rcases ConcurrentState.returns_dispatchRegion.mp h₁ with ⟨-, -, rfl⟩ | ⟨ha, h₁⟩
        · exact hR.refl _
        · exact h _ (.offer hk hl ⟨k, hpre⟩ ha) k b w₃ h₁
      have hnext : Returns (ConcurrentState.dispatchRegions (c.methods k) n e (pre ++ [r])) w
          (b₁ || (b || false)) w₃ :=
        ConcurrentState.returns_dispatchRegions_append.mpr ⟨b₁, w₁, _, hpre,
          ConcurrentState.returns_dispatchRegions_cons.mpr ⟨b, w₃, false, h₁,
            returns_pure.mpr ⟨rfl, rfl⟩, rfl⟩, rfl⟩
      exact hR.trans hregion (ih (by simp [hl]) hnext h₂)

lemma concurrent_of_calls (hk : c.kind n = .concurrentState)
    (h : Frame.CallsKeep c R (.dispatch n e, w))
    (hd : Returns (ConcurrentState.dispatch c (c.methods k) n e) w b w') : R w w' := by
  have := hR.std_refl
  have := hR.isTrans
  have hnil : Returns (ConcurrentState.dispatchRegions (c.methods k) n e []) w false w :=
    returns_pure.mpr ⟨rfl, rfl⟩
  rcases ConcurrentState.returns_dispatch.mp hd with ⟨h₁, -⟩ | ⟨w₁, h₁, h₂⟩
  · exact hR.regions_of_calls rfl hk h hnil h₁
  refine hR.trans (hR.regions_of_calls rfl hk h hnil h₁) (rel_anyM (fun t => monotone_of c
    (ConcurrentState.monotone_tryTransition c n e t)) (fun t w₂ b w₃ ht hx => ?_) h₂)
  rcases ConcurrentState.returns_tryTransition.mp hx with ⟨-, -, rfl⟩ | ⟨ha, hf, hx⟩
  · exact hR.refl _
  · exact h _ (.concurrent hk ⟨k, h₁⟩ ht ha hf) k b w₃ hx

/-- What holds of the calls of a dispatch holds of the dispatch. -/
lemma dispatch_of_calls (h : Frame.CallsKeep c R (.dispatch s e, w))
    (hd : Returns ((c.methods k).dispatch s e) w b w') : R w w' := by
  have := hR.std_refl
  have := hR.isTrans
  cases k with
  | zero => exact absurd hd (by simp [Chart.methods])
  | succ k =>
  have hplain : c.Plain s w → R w w' := fun hp =>
    rel_anyM (fun t => monotone_of c (Transition.monotone_execute c t e))
      (fun t w₁ b w₂ ht hx => h _ (.plain hp ht) k b w₂ hx) (hp.returns_dispatch.mp hd)
  cases hk : c.kind s
  case hierarchicalState =>
    simp only [Chart.methods, Chart.step, hk] at hd
    exact hR.hierarchical_of_calls hk h hd
  case concurrentState =>
    simp only [Chart.methods, Chart.step, hk] at hd
    exact hR.concurrent_of_calls hk h hd
  case pseudoState type =>
    simp only [Chart.methods, Chart.step, hk] at hd
    rcases PseudoState.returns_dispatch.mp hd with ⟨q, hh, hq, hd⟩ | ⟨hf, -, hd⟩ | ⟨hr, -⟩
    · exact h _ (.restored hh hq) k b w' hd
    · refine rel_forM (fun t => monotone_of c (monotone_bind (Transition.monotone_execute c t e)
        fun _ => monotone_const)) (fun t w₁ u w₂ ht hx => ?_) hd
      obtain ⟨b, w₃, hx, h₃⟩ := returns_bind.mp hx
      obtain ⟨-, rfl⟩ := returns_pure.mp h₃
      exact h _ (.branch hf ht) k b w₂ hx
    · rcases hr with ⟨hh, hr⟩ | ⟨hh, hf⟩
      · exact hplain ⟨by simp [hk], by simp [hk], fun hf => by simp [hf, StateKind.isHistory] at hh,
          fun _ => hr⟩
      · exact hplain ⟨by simp [hk], by simp [hk], hf, fun hh' => by simp [hh] at hh'⟩
  all_goals
    exact hplain ⟨by simp [hk], by simp [hk], by simp [hk], by simp [hk, StateKind.isHistory]⟩

end Entering

/-- What holds of the calls of an execution, and of the changes of a firing, holds of the
execution. -/
lemma Steady.execute_of_calls (hR : Steady c Set.univ R)
    (h : Frame.CallsKeep c R (.execute t e, w))
    (hfire : Transition.triggered c t e w = true →
      Returns (Transition.allowed c (c.methods k) t) w true w → R w (w.log (.fire t w.data)))
    (heffect : ∀ w, R w (w.perform (.effect t) (c.action t)))
    (hfired : ∀ m w, R w (w.log (.fired t m w.data)))
    (hx : Returns (Transition.execute c (c.methods k) t e) w b w') : R w w' := by
  have := hR.std_refl
  have := hR.isTrans
  rcases (Transition.returns_execute (pure_methods c k)).mp hx with ⟨-, ht, ha, hf⟩ | ⟨-, rfl, -⟩
  swap
  · exact hR.refl _
  obtain ⟨w₁, w₂, h₁, h₂, rfl⟩ := Transition.returns_fire.mp hf
  have hexits : R (w.log (.fire t w.data)) w₁ :=
    keeps_forM (fun s _ => hR.deactivate k s) _ _ _ h₁
  have hentries : R (w₁.perform (.effect t) (c.action t)) w₂ := by
    rw [Transition.activateAll_eq] at h₂
    refine rel_forM (fun z => monotone_of c (Transition.monotone_enterOne c z))
      (fun z w₃ u w₄ hz hr => ?_) h₂
    obtain ⟨b, hr⟩ := Transition.returns_enterOne.mp hr
    exact hR.trans (hR.announce z w₃) (h _ (.enter ht ⟨k, ha⟩ ⟨k, h₁⟩ hz) k b w₄ hr)
  exact hR.trans (hfire ht ha) (hR.trans hexits (hR.trans (heffect w₁)
    (hR.trans hentries (hfired _ w₂))))

/-! ### All that a frame leads to -/

/-- **The rule of nested calls.** What holds of the executions of transitions that a frame leads to,
when it holds of their own calls, holds of the frame. -/
theorem Entering.course (hR : Entering c Set.univ R) {x₀ : Frame S T E × World S T E P}
    (hx : ∀ t e w, ReflTransGen c.Calls x₀ (.execute t e, w) →
      Frame.CallsKeep c R (.execute t e, w) →
      ∀ k b w', Returns (Transition.execute c (c.methods k) t e) w b w' → R w w')
    (h₀ : ReflTransGen c.Calls x₀ x) (h : Returns (x.1.run c (c.methods k)) x.2 b w') :
    R x.2 w' := by
  induction hn : x.1.cost k using Nat.strong_induction_on generalizing x k b w' with
  | _ m ih =>
      have hcalls : Frame.CallsKeep c R x := by
        intro y hy j b₂ w₂ hr
        obtain ⟨i, b₃, w₃, hr', hlt⟩ := hy.returns h
        have hmono := monotone_of c (Frame.monotone_run c y.1)
        obtain ⟨-, rfl⟩ := Returned.unique hmono ⟨j, hr⟩ ⟨i, hr'⟩
        exact ih _ (hn ▸ hlt) (h₀.tail hy) hr' rfl
      obtain ⟨f, w⟩ := x
      cases f with
      | activate s => exact hR.activate_of_calls hcalls h
      | dispatch s e => exact hR.dispatch_of_calls hcalls h
      | execute t e => exact hx t e w h₀ hcalls k b w' h

/-! ### The calls of a client -/

namespace Statechart

/-- A dispatch of `e`, begun in `w`, makes a pass with the event `e'` in `w'`. -/
inductive Makes (c : Chart S T E P) (e : Option E) (w : World S T E P) :
    Option E → World S T E P → Prop
  | event : Makes c e w e w
  | completion {rc w₁ w₂ j} : Returned (fun n => pass c n e) w rc w₁ →
      j < c.infiniteLoopThreshold → Reports c j w₁ w₂ → Makes c e w none w₂

/-- The call of a client, made in `w`, leads to the nested call `x`. -/
def Leads (c : Chart S T E P) (call : Call E P) (w : World S T E P)
    (x : Frame S T E × World S T E P) : Prop :=
  ((call.prepare c w).data.getData c.root).isSome = true ∧
    ∃ e q w₁, Makes c call.event (call.prepare c w) e w₁ ∧ w₁.data.current c.root = some q
      ∧ ReflTransGen c.Calls (.dispatch q e, w₁) x

/-- The restoration of `s`, begun in `w`, leads to the nested call `x`. -/
def Restores (c : Chart S T E P) (s : S) (w : World S T E P)
    (x : Frame S T E × World S T E P) : Prop :=
  w.data.isActive c.root = false ∧
    ∃ q w₁, LoopAt (fun k q => do let _ ← (c.methods k).activate q) (restorePath c s) (forget w)
      q w₁ ∧ ReflTransGen c.Calls (.activate q, w₁) x

/-- The rule for a call of the client. -/
theorem rel_call (hR : Entering c Set.univ R) {call : Call E P} {o : Outcome}
    (hx : ∀ t e w₁, Leads c call w (.execute t e, w₁) → Frame.CallsKeep c R (.execute t e, w₁) →
      ∀ k b w₂, Returns (Transition.execute c (c.methods k) t e) w₁ b w₂ → R w₁ w₂)
    (h : Returned (fun n => Statechart.call c n call) w o w') : R (call.prepare c w) w' := by
  rcases returned_dispatch.mp (returned_call.mp h) with ⟨-, -, rfl⟩ | ⟨hd, rc, w₁, hp, h⟩
  · exact hR.refl _
  have hpass : ∀ {e b w₁ w₂}, Makes c call.event (call.prepare c w) e w₁ →
      Returned (fun n => pass c n e) w₁ b w₂ → R w₁ w₂ := by
    rintro e b w₁ w₂ hm ⟨n, hp⟩
    rcases returns_pass.mp hp with ⟨-, -, rfl⟩ | ⟨q, hq, hp⟩
    · exact hR.refl _
    · exact hR.course (x := (.dispatch q e, w₁))
        (fun t e' w₃ h => hx t e' w₃ ⟨hd, e, q, w₁, hm, hq, h⟩) .refl hp
  have hreports : ∀ {j w₂}, j ≤ c.infiniteLoopThreshold → Reports c j w₁ w₂ → R w₁ w₂ := by
    intro j w₂ hj hr
    induction j generalizing w₂ with
    | zero => exact (show w₂ = w₁ from hr) ▸ hR.refl w₁
    | succ j ih =>
        obtain ⟨b, w₃, hr, hlast, -⟩ := passes_succ.mp hr
        exact hR.trans (ih (by omega) hr) (hpass (.completion hp (by omega) hr) hlast)
  refine hR.trans (hpass .event hp) ?_
  rcases h with ⟨hr, -⟩ | ⟨⟨j, hj, w₂, hr, hlast⟩, -⟩
  · exact hreports le_rfl hr
  · exact hR.trans (hreports hj.le hr) (hpass (.completion hp hj hr) hlast)

/-- The rule for a restoration. -/
theorem rel_restoreState (hR : Entering c Set.univ R) (hforget : ∀ w, R w (forget w))
    (hx : ∀ t e w₁, Restores c s w (.execute t e, w₁) → Frame.CallsKeep c R (.execute t e, w₁) →
      ∀ k b w₂, Returns (Transition.execute c (c.methods k) t e) w₁ b w₂ → R w₁ w₂)
    (h : Returned (fun k => restoreState c k s) w b w') : R w w' := by
  have := hR.std_refl
  have := hR.isTrans
  obtain ⟨k, h⟩ := h
  rcases returns_restoreState.mp h with ⟨-, -, rfl⟩ | ⟨ha, -, h⟩
  · exact hR.refl _
  refine hR.trans (hforget w) (rel_forM (f := fun k q => do let _ ← (c.methods k).activate q)
    (fun q => monotone_of c (monotone_bind (monotone_activate q) fun _ => monotone_const))
    (fun q w₁ u w₂ hq hr => ?_) h)
  obtain ⟨b, w₃, hr, h₃⟩ := returns_bind.mp hr
  obtain ⟨-, rfl⟩ := returns_pure.mp h₃
  exact hR.course (x := (.activate q, w₁)) (fun t e w₃ h => hx t e w₃ ⟨ha, q, w₁, hq, h⟩) .refl hr

end Statechart

end CppStatecharts
