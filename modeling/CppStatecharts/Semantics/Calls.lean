import CppStatecharts.Semantics.Fuel
import CppStatecharts.Semantics.Rule

/-!
The nested calls of a run.

* `Frame`: a call with its arguments; `Chart.Calls`: the call of one frame, begun in some world,
  makes the call of another frame in some world, after all that comes before it has returned.
* `Chart.Calls.rel`: what every method keeps relates the two worlds.
* `Chart.Calls.returns`: a call that returns returns from all that it calls, and these have fewer
  nested calls left (`Frame.cost`).
-/

namespace CppStatecharts

/-- A call of a virtual method or of `Transition::execute`, with its arguments. -/
inductive Frame (S T E : Type) where
  | activate (s : S)
  | dispatch (s : S) (e : Option E)
  | execute (t : T) (e : Option E)

variable {S T E P : Type} [DecidableEq S] (c : Chart S T E P)

/-- The call, its own calls being answered by `v`. -/
def Frame.run (v : Methods S T E P) : Frame S T E → Comp (World S T E P) Bool
  | .activate s => v.activate s
  | .dispatch s e => v.dispatch s e
  | .execute t e => Transition.execute c v t e

/-- The call comes back, for whatever number of nested calls it needs. -/
def Frame.Ends (x : Frame S T E × World S T E P) : Prop :=
  Converges (fun k => x.1.run c (c.methods k)) x.2

/-! ### The entry list of a transition -/

/-- The states of an entry list, each with the next one. -/
def Transition.successors : List S → List (S × Option S)
  | [] => []
  | s :: l => (s, l.head?) :: Transition.successors l

/-- A concurrent state is told which region comes next. -/
def Transition.announce (x : S × Option S) (w : World S T E P) : World S T E P :=
  match x.2 with
  | none => w
  | some r => if c.kind x.1 = .concurrentState then Chart.registerRegion x.1 r w else w

/-- One round of the loop of `Transition::execute` over the entry list. -/
def Transition.enterOne (v : Methods S T E P) (x : S × Option S) : Comp (World S T E P) PUnit := do
  modify (Transition.announce c x)
  let _ ← v.activate x.1

/-! ### Calls -/

/-- The states that answer an event with their own transitions only, in the order of these. -/
structure Chart.Plain (s : S) (w : World S T E P) : Prop where
  hierarchical : c.kind s ≠ .hierarchicalState
  concurrent : c.kind s ≠ .concurrentState
  fork : c.kind s ≠ .pseudoState .fork
  restored : (c.kind s).isHistory = true → PseudoState.restored c s w = none

/-- The entry of the concurrent state `n`, begun in `w`, comes to the default entry of `r`. -/
structure ConcurrentState.Opens (n r : S) (w w₁ : World S T E P) : Prop where
  kind : c.kind n = .concurrentState
  inactive : w.data.isActive n = false
  record : ((c.greet n (c.arrive n w)).data.getData n).isSome = true
  comes : LoopAt (fun k => ConcurrentState.enterRegion (c.methods k) n) (c.regions n)
    ((c.greet n (c.arrive n w)).log (.entering n)) r w₁
  default : r ∉ w₁.data.stateset n

/-- The first frame, begun in the first world, calls the second frame in the second world. The
activations of start states and of regions, which call nothing, are left out. -/
inductive Chart.Calls : Frame S T E × World S T E P → Frame S T E × World S T E P → Prop
  | default {n r w w₁ w₂} : ConcurrentState.Opens c n r w w₁ →
      Returned (fun k => (c.methods k).activate r) w₁ true w₂ →
      Calls (.activate n, w) (.dispatch r none, w₂)
  | stored {h q w w₁} : (c.kind h).isHistory = true →
      LoopAt (fun k q => do let _ ← (c.methods k).activate q) ((c.visit h w).data.stateset h)
        (c.visit h w) q w₁ →
      Calls (.activate h, w) (.activate q, w₁)
  | substate {s q e w w₁} : c.kind s = .hierarchicalState → w.data.isActive s = true →
      Returned (fun k => HierarchicalState.enterStart c (c.methods k) s) w ⟨⟩ w₁ →
      w₁.data.current s = some q → Calls (.dispatch s e, w) (.dispatch q e, w₁)
  | hierarchical {s t e handled w w₁ w₂ w₃} : c.kind s = .hierarchicalState →
      w.data.isActive s = true →
      Returned (fun k => HierarchicalState.enterStart c (c.methods k) s) w ⟨⟩ w₁ →
      Returned (fun k => HierarchicalState.dispatchCurrent (c.methods k) s e) w₁ handled w₂ →
      w₂.data.isActive s = true →
      (handled = true → c.isFinal (w₂.data.current s) = true) →
      SearchAt (fun k => HierarchicalState.tryTransition c (c.methods k)
        (c.isFinal (w₂.data.current s)) e) (c.transitions s)
        (HierarchicalState.offered s e handled w₂) t w₃ →
      (c.event t = none → c.isFinal (w₂.data.current s) = true) →
      Calls (.dispatch s e, w) (.execute t e, w₃)
  | offer {n r e pre post b w w₁} : c.kind n = .concurrentState → c.regions n = pre ++ r :: post →
      Returned (fun k => ConcurrentState.dispatchRegions (c.methods k) n e pre) w b w₁ →
      w₁.data.isActive n = true → Calls (.dispatch n e, w) (.dispatch r e, w₁)
  | concurrent {n t e w w₁ w₂} : c.kind n = .concurrentState →
      Returned (fun k => ConcurrentState.dispatchRegions (c.methods k) n e (c.regions n)) w false
        w₁ →
      SearchAt (fun k => ConcurrentState.tryTransition c (c.methods k) n e) (c.transitions n) w₁ t
        w₂ →
      w₂.data.isActive n = true → (c.event t = none → ConcurrentState.finished c n w₂ = true) →
      Calls (.dispatch n e, w) (.execute t e, w₂)
  | restored {h q e w} : (c.kind h).isHistory = true → PseudoState.restored c h w = some q →
      Calls (.dispatch h e, w) (.dispatch q e, w)
  | branch {s t e w w₁} : c.kind s = .pseudoState .fork →
      LoopAt (fun k t => do let _ ← Transition.execute c (c.methods k) t e) (c.transitions s) w t
        w₁ →
      Calls (.dispatch s e, w) (.execute t e, w₁)
  | plain {s t e w w₁} : c.Plain s w →
      SearchAt (fun k t => Transition.execute c (c.methods k) t e) (c.transitions s) w t w₁ →
      Calls (.dispatch s e, w) (.execute t e, w₁)
  | enter {t e x w w₁ w₂} : Transition.triggered c t e w = true →
      Returned (fun k => Transition.allowed c (c.methods k) t) w true w →
      Returned (fun k => (c.deactivates t).forM (c.methods k).deactivate) (w.log (.fire t w.data))
        ⟨⟩ w₁ →
      LoopAt (fun k => Transition.enterOne c (c.methods k)) (Transition.successors (c.activates t))
        (w₁.perform (.effect t) (c.action t)) x w₂ →
      Calls (.execute t e, w) (.activate x.1, Transition.announce c x w₂)

variable {c} {v : Methods S T E P} {w w₁ w' : World S T E P} {s n r : S} {t : T} {e : Option E}
variable {x y : Frame S T E × World S T E P} {k : ℕ} {b : Bool} {u : PUnit}

variable (c) in
lemma Frame.monotone_run (f : Frame S T E) : Monotone fun v => f.run c v := by
  cases f with
  | activate s => exact monotone_activate s
  | dispatch s e => exact monotone_dispatch s e
  | execute t e => exact Transition.monotone_execute c t e

/-! ### Entry lists as loops -/

lemma Transition.activateAll_eq : ∀ l : List S,
    Transition.activateAll c v l = (Transition.successors l).forM (Transition.enterOne c v)
  | [] => rfl
  | [s] => by
      refine comp_ext fun w u w' => ?_
      simp [Transition.activateAll, Transition.successors, Transition.enterOne, Transition.announce]
  | s :: r :: l => by
      refine comp_ext fun w u w' => ?_
      have ih := Transition.activateAll_eq (r :: l)
      by_cases hs : c.kind s = .concurrentState <;>
        simp [Transition.activateAll, Transition.successors, Transition.enterOne,
          Transition.announce, hs, ih]

variable (c) in
lemma Transition.monotone_enterOne (x : S × Option S) :
    Monotone fun v => Transition.enterOne c v x :=
  monotone_bind monotone_const fun _ => monotone_bind (monotone_activate x.1) fun _ =>
    monotone_const

lemma Transition.returns_enterOne {x : S × Option S} : Returns (Transition.enterOne c v x) w u w'
    ↔ ∃ b, Returns (v.activate x.1) (Transition.announce c x w) b w' := by
  simp [Transition.enterOne]

lemma Chart.Plain.returns_dispatch (hp : c.Plain s w) :
    Returns ((c.step v).dispatch s e) w b w' ↔ Returns (State.dispatch c v s e) w b w' := by
  obtain ⟨hh, hn, hf, hr⟩ := hp
  cases hk : c.kind s <;> simp only [Chart.step, hk]
  case hierarchicalState => exact absurd hk hh
  case concurrentState => exact absurd hk hn
  case pseudoState type =>
    rw [PseudoState.returns_dispatch]
    cases hhist : (c.kind s).isHistory
    · simp [hf]
    · simp [hf, hr hhist]

omit [DecidableEq S] in
lemma ConcurrentState.returns_dispatchRegions_append {pre post : List S} :
    Returns (ConcurrentState.dispatchRegions v n e (pre ++ post)) w b w'
      ↔ ∃ b₁ w₁ b₂, Returns (ConcurrentState.dispatchRegions v n e pre) w b₁ w₁
        ∧ Returns (ConcurrentState.dispatchRegions v n e post) w₁ b₂ w' ∧ b = (b₁ || b₂) := by
  induction pre generalizing w b with
  | nil => cases b <;> simp [ConcurrentState.dispatchRegions]
  | cons r pre ih =>
      simp only [List.cons_append, ConcurrentState.returns_dispatchRegions_cons, ih]
      constructor
      · rintro ⟨b₁, w₁, b₂, h, ⟨b₃, w₂, b₄, h₃, h₄, rfl⟩, rfl⟩
        exact ⟨_, w₂, b₄, ⟨b₁, w₁, b₃, h, h₃, rfl⟩, h₄, (Bool.or_assoc ..).symm⟩
      · rintro ⟨_, w₂, b₄, ⟨b₁, w₁, b₃, h, h₃, rfl⟩, h₄, rfl⟩
        exact ⟨b₁, w₁, _, h, ⟨b₃, w₂, b₄, h₃, h₄, rfl⟩, Bool.or_assoc ..⟩

/-! ### What comes before a call -/

lemma Entering.announce {R : World S T E P → World S T E P → Prop} (h : Entering c Set.univ R)
    (z : S × Option S) (w : World S T E P) : R w (Transition.announce c z w) := by
  unfold Transition.announce
  split
  · exact h.refl w
  · split
    · exact h.registerRegion _ _ w ‹_›
    · exact h.refl w

section Rel

variable {R : World S T E P → World S T E P → Prop} (h : Compatible c Set.univ R)
variable (hlog : ∀ n w, R w (w.log (.entering n)))

include h hlog

lemma ConcurrentState.Opens.rel (ho : ConcurrentState.Opens c n r w w₁) : R w w₁ := by
  have := h.std_refl
  have := h.isTrans
  have hn : (c.kind n).isPseudo = false := by simp [ho.kind, StateKind.isPseudo]
  refine h.trans (h.trans (h.trans (h.arrive n w hn ho.inactive) (h.greet n _)) (hlog n _)) ?_
  exact ho.comes.rel fun k r _ => h.enterRegion (h.methods k).toEnter n r

/-- What every method keeps holds between the beginning of a frame and that of a frame it calls. -/
theorem Chart.Calls.rel (hxy : c.Calls x y) : R x.2 y.2 := by
  have := h.std_refl
  have := h.isTrans
  have hkeep := h.methods
  have hoff := fun e k => h.offers (pure_methods c k) (hkeep k) (Set.mem_univ e)
  cases hxy with
  | default ho ha =>
      obtain ⟨k, ha⟩ := ha
      exact h.trans (ho.rel h hlog) ((hkeep k).activate _ _ _ _ ha)
  | @stored a q w w₁ hh hl =>
      have ha : (c.kind a).isPseudo = true := by
        cases hk : c.kind a <;> simp_all [StateKind.isHistory, StateKind.isPseudo]
      refine h.trans (h.trans (h.activateData a w ha) (h.entry a _)) (hl.rel fun k q _ => ?_)
      exact keeps_bind ((hkeep k).activate q) fun _ => keeps_pure _
  | @substate s _ _ _ _ _ _ he _ =>
      obtain ⟨k, he⟩ := he
      exact h.enterStart (hkeep k) s _ _ _ he
  | @hierarchical s t e handled w w₁ w₂ w₃ _ _ he hd _ _ hl _ =>
      obtain ⟨k, he⟩ := he
      obtain ⟨j, hd⟩ := hd
      refine h.trans (h.trans (h.enterStart (hkeep k) s _ _ _ he)
        ((hoff e j).dispatchCurrent s _ _ _ hd)) (h.trans ?_ (hl.rel fun k t _ =>
          (hoff e k).hierarchical_tryTransition (pure_methods c k) _ t))
      cases handled
      · exact h.refl w₂
      · exact h.fallThrough s w₂ e (Set.mem_univ e)
  | @offer n r e _ _ _ _ _ _ _ hd _ =>
      obtain ⟨k, hd⟩ := hd
      exact (hoff e k).dispatchRegions n _ _ _ _ hd
  | @concurrent n t e _ _ _ _ hd hl _ _ =>
      obtain ⟨k, hd⟩ := hd
      exact h.trans ((hoff e k).dispatchRegions n _ _ _ _ hd)
        (hl.rel fun k t _ => (hoff e k).concurrent_tryTransition n t)
  | restored _ _ => exact h.refl _
  | @branch _ _ e _ _ _ hl =>
      exact hl.rel fun k t _ => keeps_bind
        (h.transition_execute (pure_methods c k) (hkeep k) t (Set.mem_univ e)) fun _ => keeps_pure _
  | @plain _ _ e _ _ _ hl =>
      exact hl.rel fun k t _ =>
        h.transition_execute (pure_methods c k) (hkeep k) t (Set.mem_univ e)
  | @enter t e z w w₁ w₂ ht _ hd hl =>
      obtain ⟨k, hd⟩ := hd
      refine h.trans (h.trans (h.fire t w e (Set.mem_univ e) ht)
        (keeps_forM (fun s _ => (hkeep k).deactivate s) _ _ _ hd)) (h.trans (h.effect t w₁)
          (h.trans (hl.rel fun k z _ => ?_) (h.announce z w₂)))
      exact keeps_bind (keeps_modify (h.announce z)) fun _ =>
        keeps_bind ((hkeep k).activate z.1) fun _ => keeps_pure _

end Rel

/-! ### A call that comes back -/

/-- How much is left for a frame: a transition is executed with the number of nested calls that is
left to the state it leaves. -/
def Frame.cost : Frame S T E → ℕ → ℕ
  | .execute .., k => 2 * k + 1
  | _, k => 2 * k

/-- An entry that returns returns from the default entries it comes to. -/
lemma ConcurrentState.Opens.returns (ho : ConcurrentState.Opens c n r w w₁)
    (h : Returns (ConcurrentState.activate c (c.methods k) n) w b w') :
    ∃ w₂, Returns (ConcurrentState.enterRegion (c.methods k) n r) w₁ ⟨⟩ w₂ := by
  rcases ConcurrentState.returns_activate.mp h with ⟨ha, -⟩ | ⟨-, -, h⟩
  · cases ho.inactive.symm.trans ha
  rcases ConcurrentState.returns_enterRegions.mp h with ⟨hd, -⟩ | ⟨-, w₂, h, -⟩
  · simpa [hd] using ho.record
  · exact ho.comes.returns (fun r => monotone_of c (ConcurrentState.monotone_enterRegion n r)) h

/-- **Nested calls.** A call that comes back comes back from every call it makes, and these make
fewer nested calls. -/
theorem Chart.Calls.returns (hxy : c.Calls x y) (h : Returns (x.1.run c (c.methods k)) x.2 b w') :
    ∃ j b₂ w₂, Returns (y.1.run c (c.methods j)) y.2 b₂ w₂ ∧ y.1.cost j < x.1.cost k := by
  -- a virtual method needs a nested call of its own
  have hpos : ∀ {f : Methods S T E P → Comp (World S T E P) Bool} {w b w'},
      (f (c.methods 0) = failure) → Returns (f (c.methods k)) w b w' →
      ∃ j, k = j + 1 := fun hf h => by
    cases k with
    | zero => exact absurd (hf ▸ h) (by simp)
    | succ j => exact ⟨j, rfl⟩
  cases hxy with
  | @default n r w w₁ w₂ ho ha =>
      obtain ⟨j, rfl⟩ := hpos (f := fun v => v.activate n) rfl h
      simp only [Frame.run, Chart.methods, Chart.step, ho.kind] at h
      obtain ⟨w₃, h⟩ := ho.returns h
      have hmono := monotone_of c (monotone_activate r)
      rcases ConcurrentState.returns_enterRegion.mp h with ⟨hr, -⟩ | ⟨-, h⟩ | ⟨-, w₄, b, h, hd⟩
      · exact absurd hr ho.default
      · cases (ha.unique hmono ⟨j, h⟩).1
      · obtain ⟨-, rfl⟩ := ha.unique hmono ⟨j, h⟩
        exact ⟨j, b, w₃, hd, by simp [Frame.cost]⟩
  | @stored a q w w₁ hh hl =>
      obtain ⟨j, rfl⟩ := hpos (f := fun v => v.activate a) rfl h
      obtain ⟨type, hk⟩ : ∃ type, c.kind a = .pseudoState type := by
        cases hk : c.kind a <;> simp_all [StateKind.isHistory]
      simp only [Frame.run, Chart.methods, Chart.step, hk] at h
      rcases (PseudoState.returns_activate.mp h).2 with ⟨-, h⟩ | ⟨hn, -⟩ | ⟨hn, -⟩
      · obtain ⟨w₂, h⟩ := hl.returns (fun q => monotone_of c (monotone_bind (monotone_activate q)
          fun _ => monotone_const)) h
        obtain ⟨b, w₃, h, -⟩ := returns_bind.mp h
        exact ⟨j, b, w₃, h, by simp [Frame.cost]⟩
      all_goals cases hn.symm.trans hh
  | @substate s q e w w₁ hk ha he hq =>
      obtain ⟨j, rfl⟩ := hpos (f := fun v => v.dispatch s e) rfl h
      simp only [Frame.run, Chart.methods, Chart.step, hk] at h
      rcases HierarchicalState.returns_dispatch.mp h with ⟨hn, -⟩ | ⟨-, w₂, w₃, b, h, hd, -⟩
      · cases hn.symm.trans ha
      have hmono := monotone_of c (HierarchicalState.monotone_enterStart c s)
      obtain ⟨-, rfl⟩ := he.unique hmono ⟨j, h⟩
      rcases HierarchicalState.returns_dispatchCurrent.mp hd with ⟨hn, -⟩ | ⟨q', hq', hd⟩
      · cases hn.symm.trans hq
      · obtain rfl := Option.some.inj (hq'.symm.trans hq)
        exact ⟨j, b, w₃, hd, by simp [Frame.cost]⟩
  | @hierarchical s t e handled w w₁ w₂ w₃ hk ha he hd ha₂ hf hl hc =>
      obtain ⟨j, rfl⟩ := hpos (f := fun v => v.dispatch s e) rfl h
      simp only [Frame.run, Chart.methods, Chart.step, hk] at h
      rcases HierarchicalState.returns_dispatch.mp h with ⟨hn, -⟩ | ⟨-, v₁, v₂, b, h₁, h₂, h⟩
      · cases hn.symm.trans ha
      have hmono := monotone_of c (HierarchicalState.monotone_enterStart c s)
      obtain ⟨-, rfl⟩ := he.unique hmono ⟨j, h₁⟩
      obtain ⟨rfl, rfl⟩ := hd.unique
        (monotone_of c (HierarchicalState.monotone_dispatchCurrent s e)) ⟨j, h₂⟩
      rcases h with ⟨hn, -⟩ | ⟨-, hb, hn, -⟩ | ⟨-, -, h⟩
      · cases hn.symm.trans ha₂
      · cases hn.symm.trans (hf hb)
      obtain ⟨b₂, v₃, h⟩ := hl.returns (fun t => monotone_of c
        (HierarchicalState.monotone_tryTransition c _ e t)) h
      rcases (HierarchicalState.returns_tryTransition (pure_methods c j)).mp h with
        ⟨⟨hn, hfin⟩, -⟩ | ⟨-, h⟩
      · cases hfin.symm.trans (hc hn)
      · exact ⟨j, b₂, v₃, h, by simp [Frame.cost]; omega⟩
  | @offer n r e pre post b' w w₁ hk hl hd ha =>
      obtain ⟨j, rfl⟩ := hpos (f := fun v => v.dispatch n e) rfl h
      simp only [Frame.run, Chart.methods, Chart.step, hk] at h
      obtain ⟨b₁, w₂, h⟩ : ∃ b₁ w₂, Returns (ConcurrentState.dispatchRegions (c.methods j) n e
          (c.regions n)) w b₁ w₂ := by
        rcases ConcurrentState.returns_dispatch.mp h with ⟨h, -⟩ | ⟨w₂, h, -⟩
        · exact ⟨true, w', h⟩
        · exact ⟨false, w₂, h⟩
      rw [hl] at h
      obtain ⟨b₂, w₃, b₃, h₁, h₂, -⟩ := ConcurrentState.returns_dispatchRegions_append.mp h
      obtain ⟨-, rfl⟩ := hd.unique
        (monotone_of c (ConcurrentState.monotone_dispatchRegions n e pre)) ⟨j, h₁⟩
      obtain ⟨b₄, w₄, b₅, h₂, -⟩ := ConcurrentState.returns_dispatchRegions_cons.mp h₂
      rcases ConcurrentState.returns_dispatchRegion.mp h₂ with ⟨hn, -⟩ | ⟨-, h₂⟩
      · cases hn.symm.trans ha
      · exact ⟨j, b₄, w₄, h₂, by simp [Frame.cost]⟩
  | @concurrent n t e w w₁ w₂ hk hd hl ha hf =>
      obtain ⟨j, rfl⟩ := hpos (f := fun v => v.dispatch n e) rfl h
      simp only [Frame.run, Chart.methods, Chart.step, hk] at h
      have hmono := monotone_of c (ConcurrentState.monotone_dispatchRegions n e (c.regions n))
      rcases ConcurrentState.returns_dispatch.mp h with ⟨h, -⟩ | ⟨w₃, h₁, h⟩
      · cases (hd.unique hmono ⟨j, h⟩).1
      obtain ⟨-, rfl⟩ := hd.unique hmono ⟨j, h₁⟩
      obtain ⟨b₂, w₄, h⟩ := hl.returns (fun t => monotone_of c
        (ConcurrentState.monotone_tryTransition c n e t)) h
      rcases ConcurrentState.returns_tryTransition.mp h with ⟨hn | ⟨hn, hf'⟩, -⟩ | ⟨-, -, h⟩
      · cases hn.symm.trans ha
      · cases hf'.symm.trans (hf hn)
      · exact ⟨j, b₂, w₄, h, by simp [Frame.cost]; omega⟩
  | @restored a q e w hh hq =>
      obtain ⟨j, rfl⟩ := hpos (f := fun v => v.dispatch a e) rfl h
      obtain ⟨type, hk⟩ : ∃ type, c.kind a = .pseudoState type := by
        cases hk : c.kind a <;> simp_all [StateKind.isHistory]
      simp only [Frame.run, Chart.methods, Chart.step, hk] at h
      rcases PseudoState.returns_dispatch.mp h with
        ⟨q', -, hq', h⟩ | ⟨hf, -⟩ | ⟨⟨-, hn⟩ | ⟨hn, -⟩, -⟩
      · obtain rfl := Option.some.inj (hq'.symm.trans hq)
        exact ⟨j, b, w', h, by simp [Frame.cost]⟩
      · simp [hf, StateKind.isHistory] at hh
      · cases hn.symm.trans hq
      · cases hn.symm.trans hh
  | @branch s t e w w₁ hf hl =>
      obtain ⟨j, rfl⟩ := hpos (f := fun v => v.dispatch s e) rfl h
      simp only [Frame.run, Chart.methods, Chart.step, hf] at h
      have hh : (c.kind s).isHistory = false := by simp [hf, StateKind.isHistory]
      rcases PseudoState.returns_dispatch.mp h with
        ⟨q', hn, -⟩ | ⟨-, -, h⟩ | ⟨⟨hn, -⟩ | ⟨-, hn⟩, -⟩
      · cases hn.symm.trans hh
      · obtain ⟨w₂, h⟩ := hl.returns (fun t => monotone_of c (monotone_bind
          (Transition.monotone_execute c t e) fun _ => monotone_const)) h
        obtain ⟨b₂, w₃, h, -⟩ := returns_bind.mp h
        exact ⟨j, b₂, w₃, h, by simp [Frame.cost]; omega⟩
      · cases hn.symm.trans hh
      · exact absurd hf hn
  | @plain s t e w w₁ hp hl =>
      obtain ⟨j, rfl⟩ := hpos (f := fun v => v.dispatch s e) rfl h
      have h := hp.returns_dispatch.mp h
      obtain ⟨b₂, w₂, h⟩ := hl.returns (fun t => monotone_of c
        (Transition.monotone_execute c t e)) h
      exact ⟨j, b₂, w₂, h, by simp [Frame.cost]; omega⟩
  | @enter t e z w w₁ w₂ ht ha hd hl =>
      have hv := pure_methods c k
      rcases (Transition.returns_execute hv).mp h with ⟨-, -, -, h⟩ | ⟨-, -, hn⟩
      swap
      · cases (ha.unique (monotone_of c (Transition.monotone_allowed c t)) ⟨k, hn ht⟩).1
      obtain ⟨v₁, v₂, h₁, h₂, -⟩ := Transition.returns_fire.mp h
      obtain ⟨-, rfl⟩ := hd.unique
        (monotone_of c (monotone_forM monotone_deactivate (c.deactivates t))) ⟨k, h₁⟩
      rw [Transition.activateAll_eq] at h₂
      obtain ⟨w₃, h⟩ := hl.returns (fun z => monotone_of c (Transition.monotone_enterOne c z)) h₂
      obtain ⟨b₂, h⟩ := Transition.returns_enterOne.mp h
      exact ⟨k, b₂, w₃, h, by simp [Frame.cost]⟩

end CppStatecharts
