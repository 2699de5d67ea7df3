import CppStatecharts.Configuration.ActiveSet
import CppStatecharts.Events.Report

/-!
Segmented transitions.

* `Chart.Idle.region`, `idle_of_active`: in a legal configuration in which a pass finds nothing to
  do, neither does any context that is active, nor its current state.
* `Statechart.EndsFaithfully`: the pass that ends the completion loop activates nothing and offers
  no handled event once more.
* `not_lookup_of_idle`: a junction in which nothing is to do cannot be left.
* `Statechart.resolved_iff`: a call leaves no junction behind if and only if the junctions its last
  pass finds can be left.
* `Disabled`: an action that closes the way the look-ahead has found.
-/

namespace CppStatecharts

variable {S T E P : Type} [DecidableEq S] {c : Chart S T E P}
variable {w w₁ w' : World S T E P} {s x p q j n r : S} {k : ℕ} {ev : Option E} {l : List S}

/-! ### Idle configurations -/

/-- Where the regions find nothing to do, none of those that are active does. -/
lemma idle_of_dispatchRegions
    (h : Returns (ConcurrentState.dispatchRegions (c.methods k) n none l) w false w)
    (ha : w.data.isActive n = true) (hr : r ∈ l) : c.Idle r w := by
  induction l with
  | nil => cases hr
  | cons q l ih =>
      obtain ⟨b₁, w₁, b₂, h₁, h₂, hb⟩ := ConcurrentState.returns_dispatchRegions_cons.mp h
      obtain ⟨rfl, rfl⟩ : b₁ = false ∧ b₂ = false := by simpa using hb.symm
      have hle : w₁.slips ≤ w.slips := by
        rcases ConcurrentState.dispatchRegions_false
          (fun _ _ _ => dispatch_false k) h₂ with hw | hlt
        · rw [hw]
        · exact hlt.le
      rcases ConcurrentState.returns_dispatchRegion.mp h₁ with ⟨hi, -⟩ | ⟨-, h₁⟩
      · rw [ha] at hi
        cases hi
      · obtain rfl := (dispatch_false k h₁).eq hle
        rcases List.mem_cons.mp hr with rfl | hr
        · exact ⟨k, h₁⟩
        · exact ih h₂ hr

lemma Chart.Idle.region (hk : c.kind n = .concurrentState) (h : c.Idle n w)
    (ha : w.data.isActive n = true)
    (hr : r ∈ c.regions n) : c.Idle r w := by
  obtain ⟨k, h⟩ := idle_concurrent hk h
  exact idle_of_dispatchRegions h ha hr

/-- The current state of an idle context is idle. -/
lemma Statechart.Pass.idle_current (h : Statechart.Pass c w false w)
    (hk : c.kind p ≠ .concurrentState)
    (hp : p = c.root ∨ c.Idle p w) (ha : w.data.isActive p = true) (hctx : c.context q = some p)
    (hq : w.data.current p = some q) : c.Idle q w := by
  by_cases hroot : p = c.root
  · subst hroot
    exact (Statechart.returned_pass hq).mp h
  · have hkp : c.kind p = .hierarchicalState := by
      have hctx := c.context_kind hctx
      have hchart : c.kind p ≠ .statechart := fun hkp => hroot ((c.kind_statechart p).mp hkp)
      cases hkp : c.kind p <;> simp_all [StateKind.isContext]
    exact (idle_hierarchical hkp (hp.resolve_left hroot) ha).2 q hq

/-- Where a pass finds nothing to do, no active state does. -/
lemma idle_of_active (hr : c.Standard) (hs : c.Settled w) (h : Statechart.Pass c w false w)
    (hk : (c.kind x).isHistory = false) (ha : w.data.isActive x = true) :
    x = c.root ∨ c.Idle x w := by
  obtain ⟨l, hl⟩ := Forest.exists_descends (Chart.below_root (c := c) x)
  suffices key : ∀ (l : List S) (p : S), c.forest.Descends p l x → (p = c.root ∨ c.Idle p w) →
      x = c.root ∨ c.Idle x w from key l c.root hl (Or.inl rfl)
  intro l
  induction l with
  | nil =>
      intro p hl hp
      exact (show x = p from hl) ▸ hp
  | cons q l ih =>
      intro p hl hp
      have hctx : c.context q = some p := hl.1
      have hqk := isHistory_of_below hk hl.2.below
      have hqa := hs.legal.active_of_below hk ha hl.2.below
      have hpa := hs.legal.upward hqk hqa hctx
      refine ih q hl.2 (Or.inr ?_)
      by_cases hpk : c.kind p = .concurrentState
      · have hpn : p ≠ c.root := by
          rintro rfl
          rw [(c.kind_statechart _).mpr rfl] at hpk
          cases hpk
        exact (hp.resolve_left hpn).region hpk hpa
          (Chart.mem_regions.mpr ⟨hr.regions hctx hpk, hctx⟩)
      · exact h.idle_current hpk hp hpa hctx (hs.legal.single hqk hqa hctx hpk)

namespace Statechart

variable (c) in
/-- The pass that ends the completion loop, after the pass that offers `e` and a number of passes
that report, activates no state and offers no handled event to an enclosing state. -/
def EndsFaithfully (e : Option E) (w : World S T E P) : Prop :=
  ∀ rc w₁ j w₂ w', Returned (fun n => pass c n e) w rc w₁ → Reports c j w₁ w₂ →
    Pass c w₂ false w' → w'.slips = w₂.slips

/-- The loop stops in one place only, so it is enough to look there. -/
lemma endsFaithfully_of (h : ∃ rc w₁ j w₂ w', Returned (fun n => pass c n e) w rc w₁
    ∧ Reports c j w₁ w₂ ∧ Pass c w₂ false w' ∧ w'.slips = w₂.slips) : EndsFaithfully c e w := by
  obtain ⟨rc, w₁, j, w₂, w', hp, hr, hlast, hs⟩ := h
  intro rc' v₁ i v₂ v' hp' hr' hlast'
  obtain ⟨-, rfl⟩ := Returned.unique (monotone_pass c e) hp hp'
  obtain ⟨rfl, rfl, rfl⟩ := hr.stop_unique hlast hr' hlast'
  exact hs

end Statechart

/-! ### Junctions -/

/-- Where there is nothing to do in a junction, it cannot be left. -/
lemma not_lookup_of_idle (hk : c.kind j = .pseudoState .junction)
    (ht : ∀ t ∈ c.transitions j, c.event t = none) (hi : c.Idle j w) :
    ¬ Returned (fun n => (c.methods n).lookup j) w true w' := by
  rintro ⟨k₁, hlook⟩
  obtain ⟨k₂, hi⟩ := hi
  have hmono : ∀ {i}, i ≤ k₁ + k₂ + 1 → c.methods i ≤ c.methods (k₁ + k₂ + 1) := fun h =>
    monotone_methods c h
  set k := k₁ + k₂ with hkk
  have hlook' : Returns (PseudoState.lookup c (c.methods k) j) w true w' :=
    le_iff.mp ((hmono (i := k₁) (by omega)).1 j) _ _ _ hlook
  have hdisp : Returns ((c.methods (k + 1)).dispatch j none) w false w :=
    le_iff.mp ((hmono (i := k₂) (by omega)).2.2.2 j none) _ _ _ hi
  have hp := pure_methods c k
  simp only [Chart.methods, Chart.step, hk] at hdisp
  rcases PseudoState.returns_dispatch.mp hdisp with ⟨q, hh, -⟩ | ⟨hf, -⟩ | ⟨-, hdisp⟩
  · rw [hk] at hh
    cases hh
  · rw [hk] at hf
    cases hf
  rw [PseudoState.returns_lookup (by rw [hk]; decide)] at hlook'
  rcases anyM_cases hlook' with hb | ⟨pre, t, post, w₁, hl, -, hpre, ha⟩
  · cases hb
  have hw₁ : w₁ = w := anyM_eq (fun _ _ _ _ h => hp.allowed h) hpre
  have htmem : t ∈ c.transitions j := hl ▸ List.mem_append_right _ List.mem_cons_self
  rcases (returns_anyM_of_eq fun _ _ _ => execute_false hp).mp hdisp with ⟨-, -, hall⟩ | ⟨hb, -⟩
  · rcases (Transition.returns_execute hp).mp (hall t htmem) with ⟨hb, -⟩ | ⟨-, -, hno⟩
    · cases hb
    · have htrig : Transition.triggered c t none w = true := by
        simp [Transition.triggered, ht t htmem]
      have := (hno htrig).unique (hw₁ ▸ ha)
      cases this.1
  · cases hb

/-- No context has a junction as its current state. -/
def Chart.Resolved (c : Chart S T E P) (m : Metadata S) : Prop :=
  ∀ p j, m.current p = some j → c.kind j ≠ .pseudoState .junction

/-- Every junction that is a current state can be left. -/
def Chart.Passable (c : Chart S T E P) (w : World S T E P) : Prop :=
  ∀ p j, w.data.current p = some j → c.kind j = .pseudoState .junction →
    ∃ w', Returned (fun n => (c.methods n).lookup j) w true w'

/-- The transitions that leave pseudo-states carry no trigger. -/
def Chart.Untriggered (c : Chart S T E P) : Prop :=
  ∀ t, (c.kind (c.source t)).isPseudo = true → c.event t = none

/-- A context with a junction as its current state is active, and not concurrent. -/
lemma Chart.Settled.active_of_junction (hs : c.Settled w) (hr : c.Standard) (hkept : c.Kept w)
    (hcur : w.data.current p = some j) (hk : c.kind j = .pseudoState .junction) :
    c.kind p ≠ .concurrentState ∧ (c.kind p).isHistory = false ∧ w.data.isActive p = true := by
  have hctx := hs.legal.links.pointers p j hcur
  have hpk : c.kind p ≠ .concurrentState := fun hpk => by
    rw [hr.regions hctx hpk] at hk
    cases hk
  obtain ⟨d, hd, -⟩ := Option.bind_eq_some_iff.mp hcur
  exact ⟨hpk, isHistory_of_context hctx,
    hkept.active hpk (isHistory_of_context hctx) (by simp [Metadata.hasData, hd])⟩

/-- If a pass finds nothing to do although all junctions can be left, there are none. -/
lemma Chart.Passable.resolved (hv : c.Passable w) (hr : c.Standard) (ht : c.Untriggered)
    (hs : c.Settled w) (hkept : c.Kept w) (h : Statechart.Pass c w false w) :
      c.Resolved w.data := by
  intro p j hcur hk
  have hctx := hs.legal.links.pointers p j hcur
  obtain ⟨hpk, hph, hpa⟩ := hs.active_of_junction hr hkept hcur hk
  have hidle := h.idle_current hpk (idle_of_active hr hs h hph hpa) hpa hctx hcur
  obtain ⟨w', hlook⟩ := hv p j hcur hk
  refine not_lookup_of_idle hk (fun t hmem => ht t ?_) hidle hlook
  rw [(Chart.mem_transitions.mp hmem).2, hk]
  rfl

namespace Statechart

/-- **Segmented transitions.** In an orderly session, a call whose last pass ends faithfully leaves
no junction as a current state if and only if every junction that is one when the last pass begins
can be left then. -/
theorem resolved_iff (hr : c.Standard) (ht : c.Untriggered) {call : Call E P} {rc : Bool}
    (hw : Session c (fun s w => w.data.isActive c.root = false → Unhindered c s w) w)
    (h : Returned (fun n => Statechart.call c n call) w (.returned rc) w') (ho : c.Orderly w'.trace)
    (hf : EndsFaithfully c call.event (call.prepare c w)) :
    c.Resolved w'.data
      ↔ ∀ rc' w₁ i w₂, Returned (fun n => pass c n call.event) (call.prepare c w) rc' w₁ →
        Reports c i w₁ w₂ → Pass c w₂ false w' → c.Passable w₂ := by
  have hquiet : ∀ {rc' w₁ i w₂}, Returned (fun n => pass c n call.event) (call.prepare c w) rc' w₁ →
      Reports c i w₁ w₂ → Pass c w₂ false w' → w' = w₂ := fun hp hrep hlast =>
    hlast.blocked.eq (hf _ _ _ _ _ hp hrep hlast).le
  obtain ⟨hset, hkept⟩ := settled_session hr (.call call hw h) ho
  constructor
  · intro hres rc' w₁ i w₂ hp hrep hlast p j hcur hk
    rw [← hquiet hp hrep hlast] at hcur
    exact absurd hk (hres p j hcur)
  · intro hpass
    rcases returned_dispatch.mp (returned_call.mp h) with
      ⟨hd, -, hw'⟩ | ⟨-, rc', w₁, hp, ⟨-, ho⟩ | ⟨⟨i, -, w₂, hrep, hlast⟩, -⟩⟩
    · -- the chart does not run
      intro p j hcur hk
      obtain ⟨-, hph, hpa⟩ := hset.active_of_junction hr hkept hcur hk
      obtain ⟨d, hroot, -⟩ := Metadata.exists_of_isActive
        (hset.legal.active_of_below hph hpa (Chart.below_root p))
      rw [← hw', hroot] at hd
      cases hd
    · cases ho
    · have hpassable := hpass rc' w₁ i w₂ hp hrep hlast
      obtain rfl := hquiet hp hrep hlast
      exact hpassable.resolved hr ht hset hkept hlast

end Statechart

/-! ### A way that closes -/

namespace Disabled

/-- From `a`, a junction `j` leads to `b`. -/
inductive St where
  | chart | s | a | j | b
  deriving DecidableEq

instance : Fintype St := ⟨{.chart, .s, .a, .j, .b}, fun x => by cases x <;> decide⟩

inductive Tr where
  | begin | close | go | leave
  deriving DecidableEq

instance : Fintype Tr := ⟨{.begin, .close, .go, .leave}, fun t => by cases t <;> decide⟩

/-- The way out of `j` is open while the parameter is true, and `close` makes it false. -/
def chart : Chart St Tr Event Bool where
  name := "disabled"
  root := .chart
  ownedStates := [.s, .a, .j, .b]
  ownedTransitions := [.begin, .close, .go, .leave]
  kind
    | .chart => .statechart
    | .s => .pseudoState .start
    | .j => .pseudoState .junction
    | .a | .b => .state
  context
    | .chart => none
    | _ => some .chart
  depth
    | .chart => 0
    | _ => 1
  source
    | .begin => .s
    | .close | .go => .a
    | .leave => .j
  target
    | .begin => .a
    | .close | .go => .j
    | .leave => .b
  event
    | .close => some (.event "close")
    | .go => some (.event "go")
    | _ => none
  guard
    | .leave => some fun _ p => p
    | _ => none
  action
    | .close => some fun m _ => (m, false)
    | _ => none
  equals ev e _ _ := ev.equals e
  timeout := Event.timeout

lemma regular : chart.Regular := by
  refine ⟨by decide, by decide, by decide, fun t _ n r r' hn => ?_, by decide, fun h => ?_,
    fun h => ?_, fun h => ?_, fun {t f} h m p => ?_⟩
  · cases n <;> cases hn
  · cases h
  · cases h
  · cases h
  · cases t <;> cases h
    rfl

lemma untriggered : chart.Untriggered := fun t => by cases t <;> decide

set_option maxRecDepth 4000 in
/-- **A junction left behind.** When `close` has been dispatched, the chart stands in `j`. -/
theorem not_resolved : ∃ w w', Statechart.Session chart (fun _ _ => False) w
    ∧ Returned (fun n => Statechart.call chart n (.dispatch (some (.event "close")) true)) w
      (.returned true) w'
    ∧ (∃ m, .fire .close m ∈ w.since w') ∧ ¬ chart.Resolved w'.data := by
  have hstart : Statechart.Session chart (fun _ _ => False) _ :=
    .call (.start true) (.fresh true) ⟨20, rfl⟩
  refine ⟨_, _, hstart, ⟨20, rfl⟩, ⟨_, List.mem_of_getElem? (i := 4) rfl⟩, fun h => ?_⟩
  exact h .chart .j rfl rfl

/-- The loop stops in one place only. -/
lemma passable_of {w w' : World St Tr Event Bool} {e : Option Event} {rc : Bool}
    {w₁ w₂ : World St Tr Event Bool}
    {i : ℕ} (hp : Returned (fun n => Statechart.pass chart n e) w rc w₁)
    (hr : Statechart.Reports chart i w₁ w₂) (hlast : Statechart.Pass chart w₂ false w')
    (h : chart.Passable w₂) : ∀ rc' v₁ i' v₂, Returned
      (fun n => Statechart.pass chart n e) w rc' v₁ →
      Statechart.Reports chart i' v₁ v₂ → Statechart.Pass chart v₂ false w' →
        chart.Passable v₂ := by
  intro rc' v₁ i' v₂ hp' hr' hlast'
  obtain ⟨-, rfl⟩ := Returned.unique (Statechart.monotone_pass chart e) hp hp'
  obtain ⟨-, rfl, -⟩ := hr.stop_unique hlast hr' hlast'
  exact h

set_option maxRecDepth 4000 in
/-- While the way out stays open, the junction is left, as after `go`. -/
theorem resolved_go : ∃ w w', Returned (fun n => Statechart.call chart n
      (.dispatch (some (.event "go")) true)) w (.returned true) w'
    ∧ (∃ m, .fire .go m ∈ w.since w') ∧ chart.Resolved w'.data := by
  have hgo : ∀ {w w' : World St Tr Event Bool}, Statechart.Session chart
      (fun x w => w.data.isActive chart.root = false → Statechart.Unhindered chart x w) w →
      Returned (fun n => Statechart.call chart n (.dispatch (some (.event "go")) true)) w
        (.returned true) w' → (∃ m, .fire .go m ∈ w.since w') → Obs.Unbroken w'.trace → _ → _ →
      ∃ w w', Returned (fun n => Statechart.call chart n (.dispatch (some (.event "go")) true)) w
        (.returned true) w' ∧ (∃ m, .fire .go m ∈ w.since w') ∧ chart.Resolved w'.data :=
    fun hw h hfire ho hf hpass =>
      ⟨_, _, h, hfire, (Statechart.resolved_iff regular.standard untriggered
      hw h (regular.orderly ho) hf).mpr hpass⟩
  have hstart : Statechart.Session chart
      (fun x w => w.data.isActive chart.root = false → Statechart.Unhindered chart x w) _ :=
    .call (.start true) (.fresh true) ⟨20, rfl⟩
  refine hgo hstart ⟨20, rfl⟩ ⟨_, List.mem_of_getElem? (i := 7) rfl⟩ (by decide)
    (Statechart.endsFaithfully_of ⟨true, _, 1, _, _, ⟨20, rfl⟩, ⟨true, _, ⟨20, rfl⟩, rfl, rfl⟩,
      ⟨20, rfl⟩, rfl⟩) (passable_of ⟨20, rfl⟩ (i := 1) ⟨true, _, ⟨20, rfl⟩, rfl, rfl⟩ ⟨20, rfl⟩ ?_)
  intro x y hy hk
  cases x <;> cases hy
  cases hk

end Disabled

end CppStatecharts
