import CppStatecharts.Completion.Passes
import CppStatecharts.Semantics.Pointers

/-!
Who consumes an event.

* `Chart.consumers`: the transitions with a trigger among the firings of a record;
  `Chart.Orthogonal`: the states lie in different regions of one concurrent state.
* `Chart.NoLeak`: no state was offered an event in whose name a transition inside it had fired.
* `reacts_dispatch`: without such a leak, the consumers of one dispatch have pairwise orthogonal
  sources, and a dispatch that reports `false` has none.
* `pairwise_orthogonal_consumers`: the same for a call of `Statechart::dispatch`.
* `FallThrough.not_pairwise_orthogonal`: a substate that reacts by a transition into a final state
  leaves the event to the state around it.
-/

namespace CppStatecharts

variable {S T E P : Type} [DecidableEq S] (c : Chart S T E P)

namespace Chart

/-- The states lie in different regions of one concurrent state. -/
def Orthogonal (s s' : S) : Prop :=
  ∃ n r r', c.kind n = .concurrentState ∧ r ∈ c.regions n ∧ r' ∈ c.regions n ∧ r ≠ r'
    ∧ c.Below s r ∧ c.Below s' r'

/-- The transitions with a trigger that fired, the last first. -/
def consumers (l : List (Obs S T)) : List T :=
  l.filterMap fun o =>
    match o with
    | .fire t _ => if (c.event t).isSome then some t else none
    | _ => none

/-- Whenever a state was offered an event that its substate had handled, no transition with a
trigger had fired from strictly inside it. -/
def NoLeak (l : List (Obs S T)) : Prop :=
  ∀ newer s older, l = newer ++ .fallThrough s true :: older →
    ∀ t ∈ c.consumers older, c.Below (c.source t) s → c.source t = s

/-- A fork's branches carry no trigger. -/
def ForksUntriggered : Prop :=
  ∀ t ∈ c.ownedTransitions, c.kind (c.source t) = .pseudoState .fork → c.event t = none

variable {c}

omit [DecidableEq S] in
@[simp] lemma consumers_append (l l' : List (Obs S T)) :
    c.consumers (l ++ l') = c.consumers l ++ c.consumers l' := List.filterMap_append

omit [DecidableEq S] in
/-- A part of a record without leaks has none. -/
lemma NoLeak.middle {w w₁ w₂ w' : World S T E P} (h : c.NoLeak (w.since w'))
    (hx₁ : w.Extends w₁) (hx₂ : w₁.Extends w₂) (hx₃ : w₂.Extends w') :
    c.NoLeak (w₁.since w₂) := by
  rw [World.since_trans hx₁ (hx₂.trans hx₃), World.since_trans hx₂ hx₃] at h
  intro newer s older hl t ht
  exact h (w₂.since w' ++ newer) s (older ++ w.since w₁) (by simp [hl]) t (by simp [ht])

omit [DecidableEq S] in
/-- A record in which nothing is offered twice has no leak. -/
lemma noLeak_of_all {l : List (Obs S T)}
    (h : l.all (fun o => !(o matches .fallThrough ..)) = true) :
    c.NoLeak l := by
  rintro newer s older rfl
  simp at h

end Chart

variable {c} {v : Methods S T E P} {w w₁ w₂ w' : World S T E P} {s n q : S} {t : T} {b : Bool}
variable {e : E}

/-! ### The null event has no consumers -/

/-- No transition with a trigger fires in answer to the null event. -/
lemma compatible_untriggered : Compatible c {none}
    (World.Adds fun o => ∀ t m, o = .fire t m → c.event t = none) := by
  refine compatible_adds rfl ?_ ?_ ?_
  · rintro t m w e rfl ht t' m' h
    obtain ⟨rfl, -⟩ := Obs.fire.inj h
    cases he : c.event t with
    | none => rfl
    | some ev => simp [Transition.triggered, he] at ht
  · rintro s e - t m h
    cases h
  · rintro o ho t m rfl
    simp at ho

omit [DecidableEq S] in
lemma consumers_eq_nil {l : List (Obs S T)} (h : ∀ o ∈ l, ∀ t m, o = .fire t m → c.event t = none) :
    c.consumers l = [] := by
  refine List.filterMap_eq_nil_iff.mpr fun o ho => ?_
  cases o
  case fire t m => simp [h _ ho t m rfl]
  all_goals rfl

/-! ### What one dispatch consumes -/

/-- What a dispatch of an event to `s` that reports `b` leaves between `w` and `w'`: consumers below
`s`, with pairwise orthogonal sources, and none at all if it reports `false`. -/
structure Reacts (c : Chart S T E P) (s : S) (w : World S T E P) (b : Bool) (w' : World S T E P) :
    Prop where
  grows : w.Extends w'
  below : ∀ t ∈ c.consumers (w.since w'), c.Below (c.source t) s
  pairwise : (c.consumers (w.since w')).Pairwise fun t t' => c.Orthogonal (c.source t) (c.source t')
  silent : b = false → c.consumers (w.since w') = []

/-- A dispatch reaches a history only where it is the current state of its context. -/
def Chart.Offered (c : Chart S T E P) (s : S) (w : World S T E P) : Prop :=
  (c.kind s).isHistory = true → ∀ p, c.context s = some p → w.data.current p = some s

lemma Reacts.refl : Reacts c s w b w :=
  ⟨World.Adds.refl w, by simp [Chart.consumers], by simp [Chart.consumers],
    by simp [Chart.consumers]⟩

/-- A single transition is the only consumer of its run. -/
lemma consumers_execute (k : ℕ)
    (h : Returns (Transition.execute c (c.methods k) t (some e)) w true w') :
    w.Extends w' ∧ c.consumers (w.since w') = if (c.event t).isSome then [t] else [] := by
  rcases (Transition.returns_execute (pure_methods c k)).mp h with ⟨-, -, -, hf⟩ | ⟨hb, -⟩
  · have hrest := compatible_untriggered.after_fire (compatible_untriggered.methods k) hf
    refine ⟨(World.extends_log w _).trans hrest.extends, ?_⟩
    rw [World.since_trans (World.extends_log w _) hrest.extends, World.since_log,
      Chart.consumers_append, consumers_eq_nil hrest.since]
    simp only [Chart.consumers, List.nil_append]
    by_cases he : (c.event t).isSome <;> simp [he]
  · exact absurd hb (by simp)

/-- The loop over the transitions of `s`, in whichever form, stops at its first consumer. -/
lemma reacts_anyM (k : ℕ) {f : T → Comp (World S T E P) Bool}
    (hf : ∀ t w b w', Returns (f t) w b w' → b = false ∧ w' = w
      ∨ Returns (Transition.execute c (c.methods k) t (some e)) w b w')
    (h : Returns ((c.transitions s).anyM f) w b w') : Reacts c s w b w' := by
  have hfalse : ∀ t w w', Returns (f t) w false w' → w' = w := by
    intro t w w' ht
    rcases hf t w false w' ht with ⟨-, rfl⟩ | ht
    · rfl
    · rcases (Transition.returns_execute (pure_methods c k)).mp ht with ⟨hb, -⟩ | ⟨-, rfl, -⟩
      · exact absurd hb (by simp)
      · rfl
  rcases anyM_cases h with rfl | ⟨pre, t, post, w₁, hl, rfl, hpre, ht⟩
  · obtain rfl := anyM_eq (fun t _ => hfalse t) h
    exact Reacts.refl
  · obtain rfl := anyM_eq (fun t _ => hfalse t) hpre
    have hsrc : c.source t = s :=
      (Chart.mem_transitions.mp (hl ▸ List.mem_append_right pre List.mem_cons_self)).2
    rcases hf t _ true w' ht with ⟨hb, -⟩ | ht
    · exact absurd hb (by simp)
    obtain ⟨hx, hcons⟩ := consumers_execute k ht
    refine ⟨hx, fun u hu => ?_, ?_, by simp⟩
    · rw [hcons] at hu
      split at hu
      · rw [List.mem_singleton.mp hu, hsrc]
        exact Forest.below_refl s
      · cases hu
    · rw [hcons]
      split <;> simp

lemma State.reacts_dispatch (k : ℕ)
    (h : Returns (State.dispatch c (c.methods k) s (some e)) w b w') : Reacts c s w b w' :=
  reacts_anyM k (fun _ _ _ _ ht => Or.inr ht) h

/-! ### The overrides -/

/-- Steps that consume nothing may come before. -/
lemma Reacts.of_silent (hx : w.Extends w₁) (hs : c.consumers (w.since w₁) = [])
    (h : Reacts c s w₁ b w') : Reacts c s w b w' := by
  have hcons : c.consumers (w.since w') = c.consumers (w₁.since w') := by
    rw [World.since_trans hx h.grows, Chart.consumers_append, hs, List.append_nil]
  exact ⟨hx.trans h.grows, hcons ▸ h.below, hcons ▸ h.pairwise, hcons ▸ h.silent⟩

/-- What happens inside a substate happens inside the state. -/
lemma Reacts.mono (h : Reacts c q w b w') (hq : c.Below q s) : Reacts c s w b w' :=
  ⟨h.grows, fun t ht => Forest.below_trans (h.below t ht) hq, h.pairwise, h.silent⟩

lemma enterStart_silent (k : ℕ)
    (h : Returns (HierarchicalState.enterStart c (c.methods k) s) w ⟨⟩ w₁) :
    w.Extends w₁ ∧ c.consumers (w.since w₁) = [] := by
  have hx := compatible_untriggered.enterStart (compatible_untriggered.methods k) s _ _ _ h
  exact ⟨hx.extends, consumers_eq_nil hx.since⟩

/-- The induction hypothesis: what dispatches with `k` nested calls consume. -/
def Reactive (c : Chart S T E P) (e : E) (k : ℕ) : Prop :=
  ∀ s w b w', Returns ((c.methods k).dispatch s (some e)) w b w' → c.Pointers w.data →
    c.Offered s w → c.NoLeak (w.since w') → Reacts c s w b w'

/-- What the substate consumes lies strictly inside the state. -/
lemma HierarchicalState.reacts_dispatchCurrent (k : ℕ) (ih : Reactive c e k)
    (h : Returns (HierarchicalState.dispatchCurrent (c.methods k) s (some e)) w b w')
    (hp : c.Pointers w.data) (hl : c.NoLeak (w.since w')) :
    Reacts c s w b w' ∧ ∀ t ∈ c.consumers (w.since w'), c.source t ≠ s := by
  rcases HierarchicalState.returns_dispatchCurrent.mp h with ⟨-, -, rfl⟩ | ⟨q, hq, h⟩
  · exact ⟨Reacts.refl, by simp [Chart.consumers]⟩
  · have hctx := hp s q hq
    have hoff : c.Offered q w := by
      intro _ p hpq
      obtain rfl : s = p := Option.some.inj (hctx.symm.trans hpq)
      exact hq
    have hsub := ih q w b w' h hp hoff hl
    refine ⟨hsub.mono (Forest.below_of_parent hctx), fun t ht hts => ?_⟩
    exact Forest.not_below_of_parent (F := c.forest) hctx (hts ▸ hsub.below t ht)

lemma HierarchicalState.reacts_dispatch (hc : c.ActionsKeepData) (k : ℕ) (ih : Reactive c e k)
    (h : Returns (HierarchicalState.dispatch c (c.methods k) s (some e)) w b w')
    (hp : c.Pointers w.data) (hl : c.NoLeak (w.since w')) : Reacts c s w b w' := by
  rcases HierarchicalState.returns_dispatch.mp h with
    ⟨-, -, rfl⟩ | ⟨-, w₁, w₂, handled, h₁, h₂, h₃⟩
  · exact Reacts.refl
  have hext : Offers c (some e) World.Extends (c.methods k) :=
    (compatible_extends c).offers (pure_methods c k) ((compatible_extends c).methods k) trivial
  obtain ⟨hx₁, hs₁⟩ := enterStart_silent k h₁
  have hp₁ : c.Pointers w₁.data := (compatible_pointers hc).enterStart
    ((compatible_pointers hc).methods k) s _ _ _ h₁ hp
  have hx₂ := hext.dispatchCurrent s _ _ _ h₂
  refine Reacts.of_silent hx₁ hs₁ ?_
  rcases h₃ with ⟨-, rfl, rfl⟩ | ⟨-, rfl, -, rfl, rfl⟩ | ⟨-, -, h₃⟩
  · have hsub := HierarchicalState.reacts_dispatchCurrent k ih h₂ hp₁
      (hl.middle hx₁ hx₂ (World.Adds.refl _))
    exact hsub.1
  · have hsub := HierarchicalState.reacts_dispatchCurrent k ih h₂ hp₁
      (hl.middle hx₁ hx₂ (World.Adds.refl _))
    exact hsub.1
  · have hown : Reacts c s (HierarchicalState.offered s (some e) handled w₂) b w' :=
      reacts_anyM k (fun t w b w' ht => by
        rcases (HierarchicalState.returns_tryTransition (pure_methods c k)).mp ht with
          ⟨-, hb, hw⟩ | ⟨-, ht⟩
        · exact Or.inl ⟨hb, hw⟩
        · exact Or.inr ht) h₃
    have hx₃ : w₂.Extends (HierarchicalState.offered s (some e) handled w₂) := by
      cases handled
      · exact World.Adds.refl _
      · exact World.extends_log _ _
    obtain ⟨hsub, hne⟩ := HierarchicalState.reacts_dispatchCurrent k ih h₂ hp₁
      (hl.middle hx₁ hx₂ (hx₃.trans hown.grows))
    refine Reacts.of_silent (hx₂.trans hx₃) ?_ hown
    -- an event that was consumed inside is not offered to the state itself
    have hnil : c.consumers (w₁.since w₂) = [] := by
      cases handled
      · exact hsub.silent rfl
      · refine List.eq_nil_iff_forall_not_mem.mpr fun t ht => hne t ht ?_
        have hleak := hl.middle hx₁ (hx₂.trans hx₃) hown.grows
        refine hleak [] s (w₁.since w₂) ?_ t ht (hsub.below t ht)
        rw [World.since_trans hx₂ hx₃]
        simp [HierarchicalState.offered, World.since_log]
    rw [World.since_trans hx₂ hx₃, Chart.consumers_append, hnil, List.append_nil]
    cases handled
    · simp [HierarchicalState.offered, Chart.consumers]
    · simp [HierarchicalState.offered, World.since_log, Chart.consumers]

/-- The regions consume the event independently. -/
lemma ConcurrentState.reacts_dispatchRegions (hc : c.ActionsKeepData) (k : ℕ) (ih : Reactive c e k)
    (hn : c.kind n = .concurrentState) {l : List S} (hr : ∀ r ∈ l, r ∈ c.regions n)
    (hnd : l.Nodup)
    (h : Returns (ConcurrentState.dispatchRegions (c.methods k) n (some e) l) w b w')
    (hp : c.Pointers w.data) (hl : c.NoLeak (w.since w')) :
    Reacts c n w b w'
      ∧ ∀ t ∈ c.consumers (w.since w'), ∃ r ∈ l, c.Below (c.source t) r := by
  induction l generalizing w b with
  | nil =>
      obtain ⟨rfl, rfl⟩ := returns_pure.mp h
      exact ⟨Reacts.refl, by simp [Chart.consumers]⟩
  | cons r l ihl =>
      obtain ⟨b₁, w₁, b₂, h₁, h₂, rfl⟩ := ConcurrentState.returns_dispatchRegions_cons.mp h
      have hext : Offers c (some e) World.Extends (c.methods k) :=
        (compatible_extends c).offers (pure_methods c k) ((compatible_extends c).methods k) trivial
      have hptr : Offers c (some e) _ (c.methods k) := (compatible_pointers hc).offers
        (pure_methods c k) ((compatible_pointers hc).methods k) trivial
      have hx₁ := hext.dispatchRegion n r _ _ _ h₁
      have hx₂ := hext.dispatchRegions n l _ _ _ h₂
      have hreg := Chart.mem_regions.mp (hr r List.mem_cons_self)
      have hfirst : Reacts c r w b₁ w₁ := by
        rcases ConcurrentState.returns_dispatchRegion.mp h₁ with ⟨-, rfl, rfl⟩ | ⟨-, h₁⟩
        · exact Reacts.refl
        · refine ih r w b₁ w₁ h₁ hp (fun hk => ?_) (hl.middle (World.Adds.refl _) hx₁ hx₂)
          rw [hreg.1] at hk
          cases hk
      obtain ⟨hrest, hin⟩ := ihl (fun r' hr' => hr r' (List.mem_cons_of_mem r hr'))
        (List.nodup_cons.mp hnd).2 h₂ (hptr.dispatchRegion n r _ _ _ h₁ hp)
        (hl.middle hx₁ hx₂ (World.Adds.refl _))
      have hcons : c.consumers (w.since w')
          = c.consumers (w₁.since w') ++ c.consumers (w.since w₁) := by
        rw [World.since_trans hx₁ hx₂, Chart.consumers_append]
      have hmono := hfirst.mono (Forest.below_of_parent hreg.2)
      refine ⟨⟨hx₁.trans hx₂, ?_, ?_, fun hb => ?_⟩, ?_⟩
      · rw [hcons]
        intro t ht
        exact (List.mem_append.mp ht).elim (hrest.below t) (hmono.below t)
      · rw [hcons]
        refine List.pairwise_append.mpr ⟨hrest.pairwise, hmono.pairwise, fun t ht t' ht' => ?_⟩
        obtain ⟨r', hr', ht⟩ := hin t ht
        refine ⟨n, r', r, hn, hr r' (List.mem_cons_of_mem r hr'), hr r List.mem_cons_self, ?_, ht,
          hfirst.below t' ht'⟩
        rintro rfl
        exact (List.nodup_cons.mp hnd).1 hr'
      · obtain ⟨rfl, rfl⟩ : b₁ = false ∧ b₂ = false := by simpa using hb
        rw [hcons, hrest.silent rfl, hmono.silent rfl, List.append_nil]
      · rw [hcons]
        intro t ht
        rcases List.mem_append.mp ht with ht | ht
        · obtain ⟨r', hr', ht⟩ := hin t ht
          exact ⟨r', List.mem_cons_of_mem r hr', ht⟩
        · exact ⟨r, List.mem_cons_self, hfirst.below t ht⟩

lemma ConcurrentState.reacts_dispatch (hc : c.ActionsKeepData) (k : ℕ) (ih : Reactive c e k)
    (hn : c.kind n = .concurrentState)
    (h : Returns (ConcurrentState.dispatch c (c.methods k) n (some e)) w b w')
    (hp : c.Pointers w.data) (hl : c.NoLeak (w.since w')) : Reacts c n w b w' := by
  have hregions : ∀ b₁ w₁, Returns (ConcurrentState.dispatchRegions (c.methods k) n (some e)
      (c.regions n)) w b₁ w₁ → w₁.Extends w' → Reacts c n w b₁ w₁ := by
    intro b₁ w₁ h₁ hx₂
    have hext : Offers c (some e) World.Extends (c.methods k) :=
      (compatible_extends c).offers (pure_methods c k) ((compatible_extends c).methods k) trivial
    exact (ConcurrentState.reacts_dispatchRegions hc k ih hn (fun _ => id) Chart.nodup_regions h₁ hp
      (hl.middle (World.Adds.refl _) (hext.dispatchRegions n _ _ _ _ h₁) hx₂)).1
  rcases ConcurrentState.returns_dispatch.mp h with ⟨h₁, rfl⟩ | ⟨w₁, h₁, h₂⟩
  · exact hregions true w' h₁ (World.Adds.refl _)
  · have hown : Reacts c n w₁ b w' := reacts_anyM k (fun t w b w' ht => by
      rcases ConcurrentState.returns_tryTransition.mp ht with ⟨-, hb, hw⟩ | ⟨-, -, ht⟩
      · exact Or.inl ⟨hb, hw⟩
      · exact Or.inr ht) h₂
    have hsub := hregions false w₁ h₁ hown.grows
    exact Reacts.of_silent hsub.grows (hsub.silent rfl) hown

/-- The branches of a fork consume nothing. -/
lemma PseudoState.reacts_fork (hf : c.ForksUntriggered) (k : ℕ)
    (hs : c.kind s = .pseudoState .fork)
    (h : Returns ((c.transitions s).forM fun t => do
      let _ ← Transition.execute c (c.methods k) t (some e)) w ⟨⟩ w') : Reacts c s w true w' := by
  have hloop : World.Adds (fun o => ∀ t m, o = .fire t m → c.event t = none) w w' := by
    refine keeps_forM (fun t ht => keeps_bind ?_ fun _ => keeps_pure _) _ _ _ h
    intro w b w' hx
    obtain ⟨hown, hsrc⟩ := Chart.mem_transitions.mp ht
    have hnone : c.event t = none := hf t hown (by rw [hsrc, hs])
    rw [Transition.execute_of_event_eq_none hnone (some e) none] at hx
    exact compatible_untriggered.transition_execute (pure_methods c k)
      (compatible_untriggered.methods k) t rfl _ _ _ hx
  exact Reacts.of_silent hloop.extends (consumers_eq_nil hloop.since) Reacts.refl

lemma PseudoState.reacts_dispatch (hf : c.ForksUntriggered) (k : ℕ)
    (h : Returns (PseudoState.dispatch c (c.methods k) s (some e)) w b w')
    (hoff : c.Offered s w) : Reacts c s w b w' := by
  rcases PseudoState.returns_dispatch.mp h with ⟨q, hh, hq, -⟩ | ⟨hs, rfl, h₁⟩ | ⟨-, h₁⟩
  · -- a history that is the current state itself has nothing to hand the event on to
    cases hp : c.context s with
    | none => simp [PseudoState.restored, hp] at hq
    | some p => simp [PseudoState.restored, hp, hoff hh p hp] at hq
  · exact PseudoState.reacts_fork hf k hs h₁
  · exact State.reacts_dispatch k h₁

/-- **One dispatch, orthogonal consumers.** Without a leak, the transitions that a dispatch of an
event fires in its name have pairwise orthogonal sources, and there are none if it reports
`false`. -/
theorem reacts_dispatch (hc : c.ActionsKeepData) (hf : c.ForksUntriggered) :
    ∀ k : ℕ, Reactive c e k
  | 0 => fun _ _ _ _ h => absurd h (by simp [Chart.methods])
  | k + 1 => by
      intro s w b w' h hp hoff hl
      have ih := reacts_dispatch hc hf k
      rw [Chart.methods] at h
      cases hk : c.kind s <;> simp only [Chart.step, hk] at h
      case hierarchicalState => exact HierarchicalState.reacts_dispatch hc k ih h hp hl
      case concurrentState => exact ConcurrentState.reacts_dispatch hc k ih hk h hp hl
      case pseudoState => exact PseudoState.reacts_dispatch hf k h hoff
      all_goals exact State.reacts_dispatch k h

namespace Statechart

/-- **Inner transitions first, and only once.** In a call of `dispatch` on a reachable metadata
in which no event leaks, the transitions that fire in the name of the event have pairwise orthogonal
sources. -/
theorem pairwise_orthogonal_consumers (hc : c.ActionsKeepData) (hf : c.ForksUntriggered)
    {p : P} {o : Outcome} (hw : Reachable c w)
    (h : Returned (fun n => call c n (.dispatch (some e) p)) w o w')
    (hl : c.NoLeak (w.since w')) :
    (c.consumers (w.since w')).Pairwise fun t t' => c.Orthogonal (c.source t) (c.source t') := by
  have hp := hw.pointers hc
  obtain ⟨w₀, hw₀⟩ : ∃ w₀ : World S T E P, w₀ = { w with param := p } := ⟨_, rfl⟩
  have hsince : ∀ w₁, w.since w₁ = w₀.since w₁ := fun w₁ => by rw [hw₀]; rfl
  replace hp : c.Pointers w₀.data := hw₀ ▸ hp
  rw [hsince] at hl ⊢
  have h : Returned (fun n => dispatch c n (some e)) w₀ o w' := hw₀ ▸ returned_call.mp h
  rcases returned_dispatch.mp h with ⟨-, -, rfl⟩ | ⟨-, rc, w₁, ⟨n, hpass⟩, hloop⟩
  · simp [Chart.consumers]
  have hx₁ : w₀.Extends w₁ := (compatible_extends c).pass n trivial _ _ _ hpass
  -- the completion loop only offers the null event
  have hrest : World.Adds (fun o => ∀ t m, o = .fire t m → c.event t = none) w₁ w' := by
    rcases hloop with ⟨h, -⟩ | ⟨⟨j, -, w₂, h, hlast⟩, -⟩
    · exact h.rel compatible_untriggered
    · exact (h.rel compatible_untriggered).trans (hlast.rel compatible_untriggered)
  have hcons : c.consumers (w₀.since w') = c.consumers (w₀.since w₁) := by
    rw [World.since_trans hx₁ hrest.extends, Chart.consumers_append, consumers_eq_nil hrest.since,
      List.nil_append]
  rw [hcons]
  rcases returns_pass.mp hpass with ⟨-, -, rfl⟩ | ⟨q, hq, hpass⟩
  · simp [Chart.consumers]
  · have hctx := hp c.root q hq
    refine (reacts_dispatch hc hf n q w₀ rc w₁ hpass hp (fun _ p hpq => ?_)
      (hl.middle (World.Adds.refl _) hx₁ hrest.extends)).pairwise
    obtain rfl : c.root = p := Option.some.inj (hctx.symm.trans hpq)
    exact hq

end Statechart

/-! ### A final substate leaves the event to the state around it -/

namespace FallThrough

/-- A hierarchical state `a` with the states `b`, `d` and the final state `f`, and a state `g`
beside it. -/
inductive St where
  | chart | s | a | sa | b | d | f | g
  deriving DecidableEq

instance : Fintype St := ⟨{.chart, .s, .a, .sa, .b, .d, .f, .g}, fun x => by cases x <;> decide⟩

inductive Tr where
  | begin | beginA | finish | move | leave
  deriving DecidableEq

instance : Fintype Tr := ⟨{.begin, .beginA, .finish, .move, .leave}, fun t => by cases t <;> decide⟩

/-- Both `b → f` and `a → g` wait for the event `stop`; `b → d` waits for `move`. -/
def chart : Chart St Tr Event Unit where
  name := "fall through"
  root := .chart
  ownedStates := [.s, .a, .sa, .b, .d, .f, .g]
  ownedTransitions := [.begin, .beginA, .finish, .move, .leave]
  kind
    | .chart => .statechart
    | .s | .sa => .pseudoState .start
    | .a => .hierarchicalState
    | .f => .finalState
    | _ => .state
  context
    | .chart => none
    | .s | .a | .g => some .chart
    | _ => some .a
  depth
    | .chart => 0
    | .s | .a | .g => 1
    | _ => 2
  source
    | .begin => .s
    | .beginA => .sa
    | .finish | .move => .b
    | .leave => .a
  target
    | .begin => .a
    | .beginA => .b
    | .finish => .f
    | .move => .d
    | .leave => .g
  event
    | .finish | .leave => some (.event "stop")
    | .move => some (.event "move")
    | _ => none
  equals ev e _ _ := ev.equals e
  timeout := Event.timeout

lemma not_orthogonal (x y : St) : ¬ chart.Orthogonal x y := by
  rintro ⟨n, r, r', hn, -⟩
  cases n <;> cases hn

set_option maxRecDepth 4000 in
/-- **The event is consumed twice.** In `b`, the event `stop` fires `b → f` and then `a → g`. -/
theorem not_pairwise_orthogonal : ∃ w o w', Statechart.Reachable chart w
    ∧ Returned (fun n => Statechart.call chart n (.dispatch (some (.event "stop")) ())) w o w'
    ∧ ¬ (chart.consumers (w.since w')).Pairwise
      fun t t' => chart.Orthogonal (chart.source t) (chart.source t') := by
  refine ⟨_, _, _, ⟨(), [.start ()], 20, rfl⟩, ⟨20, rfl⟩, fun h => ?_⟩
  change List.Pairwise _ [Tr.leave, Tr.finish] at h
  exact not_orthogonal _ _ ((List.pairwise_cons.mp h).1 .finish (by simp))

set_option maxRecDepth 4000 in
/-- The event `move` does not leak and is consumed once. -/
theorem pairwise_orthogonal_move : ∃ w o w', Statechart.Reachable chart w
    ∧ Returned (fun n => Statechart.call chart n (.dispatch (some (.event "move")) ())) w o w'
    ∧ chart.consumers (w.since w') = [.move]
    ∧ (chart.consumers (w.since w')).Pairwise
      fun t t' => chart.Orthogonal (chart.source t) (chart.source t') := by
  refine ⟨_, _, _, ⟨(), [.start ()], 20, rfl⟩, ⟨20, rfl⟩, rfl, ?_⟩
  refine Statechart.pairwise_orthogonal_consumers ?_ ?_ ⟨(), [.start ()], 20, rfl⟩ (?_ : Returned
    (fun n => Statechart.call chart n (.dispatch (some (.event "move")) ())) _ (.returned true) _)
      ?_
  · exact ⟨fun h => by simp [chart] at h, fun h => by simp [chart] at h,
      fun h => by simp [chart] at h, fun h => by simp [chart] at h⟩
  · intro t _ ht
    cases t <;> cases ht
  · exact ⟨20, rfl⟩
  · exact Chart.noLeak_of_all rfl

end FallThrough

end CppStatecharts
