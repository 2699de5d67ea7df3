import CppStatecharts.Configuration.Runs

/-!
What observers and queries report.

* `Chart.Consistent`: the notifications of a state that is no pseudo-state alternate, beginning with
  an activation; pseudo-states are not deactivated unless they were activated, and histories never.
* `Statechart.consistent_calls`: so they are in every run, and they tell which states are active.
* `Recalled`: a chart whose history keeps quiet when it is left.
* `Chart.isRunning_iff`: when `Metadata::isRunning` tells whether an ordinary state is active.
* `Finished`: a chart where an inner final state hides its context.
-/

namespace CppStatecharts

variable {S T E P : Type} [DecidableEq S] {c : Chart S T E P}
variable {w w' : World S T E P} {s x : S} {o : Obs S T} {l l' : List (Obs S T)}

/-! ### Observers -/

/-- A state is notified as active only when it was not, pseudo-states apart, and as inactive only
when it was active, which histories never are. -/
def Chart.Consistent (c : Chart S T E P) : List (Obs S T) → Prop
  | [] => True
  | .activated s :: l => c.Consistent l ∧ ((c.kind s).isPseudo = false → Obs.activeIn s l = false)
  | .deactivated s :: l =>
      c.Consistent l ∧ (c.kind s).isHistory = false ∧ Obs.activeIn s l = true
  | _ :: l => c.Consistent l

lemma consistent_cons (h : ∀ s, o ≠ .activated s ∧ o ≠ .deactivated s) :
    c.Consistent (o :: l) ↔ c.Consistent l := by
  cases o with
  | activated s => exact absurd rfl (h s).1
  | deactivated s => exact absurd rfl (h s).2
  | _ => rfl

lemma consistent_append (h : ∀ o ∈ l', ∀ s, o ≠ .activated s ∧ o ≠ .deactivated s) :
    c.Consistent (l' ++ l) ↔ c.Consistent l := by
  induction l' with
  | nil => rfl
  | cons o l' ih =>
      rw [List.cons_append, consistent_cons (h o List.mem_cons_self)]
      exact ih fun o ho => h o (List.mem_cons_of_mem _ ho)

/-- The observers know which states are active, histories apart, and were told consistently. -/
structure Chart.Observed (c : Chart S T E P) (w : World S T E P) : Prop where
  told : ∀ x, (c.kind x).isHistory = false → w.Tells x
  consistent : c.Consistent w.trace

lemma Chart.Observed.of_adds (h : c.Observed w)
    (ht : ∀ x, (c.kind x).isHistory = false → w'.Tells x)
    (hl : w.Adds (fun o => ∀ s, o ≠ .activated s ∧ o ≠ .deactivated s) w') : c.Observed w' := by
  obtain ⟨l, hl, hq⟩ := hl
  refine ⟨ht, ?_⟩
  rw [hl, consistent_append hq]
  exact h.consistent

/-- No method tells its observers anything inconsistent. -/
lemma compatible_observed (hc : c.ActionsKeepData) :
    Compatible c Set.univ fun w w' => c.Observed w → c.Observed w' := by
  have hq : ∀ {w : World S T E P} {o : Obs S T} {a : Option (Action S P)}, o.isAction = true →
      (w.perform o a).data = w.data → c.Observed w → c.Observed (w.perform o a) := by
    intro w o a ho hd h
    refine h.of_adds (fun x hx => (h.told x hx).perform ho hd) (World.adds_perform fun s => ?_)
    cases o <;> simp_all [Obs.isAction]
  have hw : ∀ {w w' : World S T E P}, (∀ x, w'.data.isActive x = w.data.isActive x) →
      w'.trace = w.trace → c.Observed w → c.Observed w' := fun ha ht h =>
    h.of_adds (fun x hx => (h.told x hx).of_idles (ha x) (World.Adds.of_eq ht))
      (World.Adds.of_eq ht)
  have hlog : ∀ {w : World S T E P} {o : Obs S T},
    (∀ x l, Obs.activeIn x (o :: l) = Obs.activeIn x l) →
      (∀ s, o ≠ .activated s ∧ o ≠ .deactivated s) → c.Observed w → c.Observed (w.log o) :=
    fun ho hs h => h.of_adds (fun x hx => (h.told x hx).log (ho x _)) (World.Adds.of_cons rfl hs)
  exact
  { null := trivial
    refl := fun _ => id
    trans := fun h h' => h' ∘ h
    fire := fun _ _ _ _ _ => hlog (fun _ _ => rfl) (by simp)
    fired := fun _ _ _ => hlog (fun _ _ => rfl) (by simp)
    fallThrough := fun _ _ _ _ => hlog (fun _ _ => rfl) (by simp)
    bracket := fun _ _ _ h h' =>
      hlog (fun _ _ => rfl) (by simp) (h (hlog (fun _ _ => rfl) (by simp) h'))
    effect := fun _ _ => hq rfl hc.data_effect
    entry := fun _ _ => hq rfl hc.data_entry
    doing := fun _ _ => hq rfl hc.data_doing
    exit := fun _ _ => hq rfl hc.data_exit
    activateData := fun s w hs h => ⟨fun x hx => (h.told x hx).activated (by simp) rfl,
      h.consistent, fun hk => by rw [hs] at hk; cases hk⟩
    arrive := fun s w hs hi h => by
      obtain ⟨l, hl, hidle⟩ := trace_arrive c w s
      refine ⟨fun x hx => (h.told x hx).arrive, ?_⟩
      rw [hl, consistent_append]
      · refine ⟨h.consistent, fun hk => ?_⟩
        rw [← show w.data.isActive s = _ from h.told s
          (StateKind.isHistory_eq_false_of_isPseudo hk)]
        exact hi
      · intro o ho x
        have := hidle o ho
        cases o <;> simp_all [Obs.isIdle]
    leave := fun s w hs h => by
      refine ⟨fun x hx => (h.told x hx).leave hx hs, ?_⟩
      obtain ⟨l, hids, hl⟩ := trace_leave_cases (c := c) (s := s) (w := w)
      have hquiet : ∀ o ∈ l, ∀ x, o ≠ .activated x ∧ o ≠ .deactivated x := by
        intro o ho x
        obtain ⟨i, -, rfl⟩ := hids o ho
        simp
      rcases hl with ⟨hl, -⟩ | ⟨hl, hk⟩ <;> rw [hl]
      · exact (consistent_append hquiet).mpr h.consistent
      · refine ⟨(consistent_append hquiet).mpr h.consistent, hk, ?_⟩
        rw [Obs.activeIn_append, ← show w.data.isActive s = _ from h.told s hk]
        · exact hs
        · intro o ho
          obtain ⟨i, -, rfl⟩ := hids o ho
          rfl
    registerRegion := fun _ _ _ _ => hw (fun _ => isActive_registerRegion) rfl
    clearStateset := fun _ _ _ => hw (fun _ => isActive_clearStateset) rfl
    clearCurrent := fun _ _ _ => hw (fun _ => isActive_clearCurrent) rfl
    storeHistory := fun _ _ w w' _ _ hs => by
      refine hw (fun _ => isActive_storeHistory hs) ?_
      rcases Chart.returns_storeHistory hs with rfl | ⟨_, _, _, -, -, -, -, rfl⟩ <;> rfl }

namespace Statechart

/-- The metadata forgets everything at a start, and so do its observers. -/
lemma observed_enter (h : c.Consistent w.trace) : c.Observed (enter c w) := by
  have hroot : c.Observed (c.activateData c.root ((w.onData fun _ => .reset).log .reset)) := by
    refine ⟨fun x _ => ?_, h, fun _ => rfl⟩
    rw [World.Tells, show (c.activateData c.root ((w.onData fun _ => .reset).log .reset)).trace
      = .activated c.root :: .reset :: w.trace from rfl]
    simp [Obs.activeIn]
  unfold enter
  cases hst : c.startState c.root with
  | none => exact hroot
  | some st =>
      refine ⟨fun x hx => (hroot.told x hx).activated (by simp) rfl, hroot.consistent, fun hk => ?_⟩
      rw [(Chart.startState_eq_some hst).1] at hk
      cases hk

/-- **A consistent history.** In every run that begins with a start, the notifications of each state
that is no pseudo-state alternate, beginning with an activation; pseudo-states are notified as
inactive only when they were active, and histories never; and histories apart, the states that are
active are those that were notified as active last. -/
theorem consistent_calls (hc : c.ActionsKeepData) {a : P} {l : List (Call E P)} (hw : w.trace = [])
    (h : Returned (fun n => calls c n (.start a :: l)) w ⟨⟩ w') :
    c.Consistent w'.trace ∧ ∀ x, (c.kind x).isHistory = false → w'.Tells x := by
  obtain ⟨n, h⟩ := h
  obtain ⟨w₁, h₁, h₂⟩ := returns_forM_cons.mp h
  have hR := compatible_observed hc
  simp only [call, start, returns_bind, returns_modify, returns_pure] at h₁
  obtain ⟨o, w₂, ⟨-, w₃, rfl, -, w₄, rfl, hd⟩, -, rfl⟩ := h₁
  have hstart : c.Observed (enter c { w with param := a }) :=
    observed_enter (by simp [hw, Chart.Consistent])
  have hrest := hR.calls (fun p w h => ⟨h.told, h.consistent⟩)
    (fun w h => observed_enter h.consistent) n l
    _ _ _ h₂ (hR.dispatch n (Set.mem_univ _) _ _ _ hd hstart)
  exact ⟨hrest.consistent, hrest.told⟩

end Statechart

namespace Recalled

/-- A hierarchical state `a` with the history `h` and a state `x`. -/
inductive St where
  | chart | s | a | h | x
  deriving DecidableEq

instance : Fintype St := ⟨{.chart, .s, .a, .h, .x}, fun y => by cases y <;> decide⟩

inductive Tr where
  | begin | default | forget
  deriving DecidableEq

instance : Fintype Tr := ⟨{.begin, .default, .forget}, fun t => by cases t <;> decide⟩

/-- The start enters `a` through its history, which has nothing to restore; the event leads from `x`
to itself, with the action given. -/
def chart (action : Option (Action St Unit)) : Chart St Tr Event Unit where
  name := "recalled"
  root := .chart
  ownedStates := [.s, .a, .h, .x]
  ownedTransitions := [.begin, .default, .forget]
  kind
    | .chart => .statechart
    | .s => .pseudoState .start
    | .a => .hierarchicalState
    | .h => .pseudoState .history
    | .x => .state
  context
    | .chart => none
    | .s | .a => some .chart
    | .h | .x => some .a
  depth
    | .chart => 0
    | .s | .a => 1
    | .h | .x => 2
  source
    | .begin => .s
    | .default => .h
    | .forget => .x
  target
    | .begin => .h
    | .default | .forget => .x
  event
    | .forget => some (.event "forget")
    | _ => none
  action
    | .forget => action
    | _ => none
  equals ev e _ _ := ev.equals e
  timeout := Event.timeout

set_option maxRecDepth 4000 in
/-- **Unnoticed.** After the start `h` is not active, although that is what its last notification
says; and an action that resets the metadata does the same to `a`. -/
theorem not_tells :
    (∃ w, Returned (fun k => Statechart.calls (chart none) k [.start ()]) (World.fresh ()) ⟨⟩ w
      ∧ Obs.activeIn .h w.trace = true ∧ w.data.isActive .h = false)
    ∧ ∃ w, Returned (fun k => Statechart.calls (chart (some fun _ p => (.reset, p))) k
        [.start (), .dispatch (some (.event "forget")) ()]) (World.fresh ()) ⟨⟩ w
      ∧ Obs.activeIn .a w.trace = true ∧ w.data.isActive .a = false :=
  ⟨⟨_, ⟨20, rfl⟩, rfl, rfl⟩, ⟨_, ⟨20, rfl⟩, rfl, rfl⟩⟩

lemma actionsKeepData : (chart none).ActionsKeepData := by
  refine ⟨fun h => ?_, fun h => ?_, fun h => ?_, fun {t f} h => ?_⟩
  · cases h
  · cases h
  · cases h
  · cases t <;> cases h

set_option maxRecDepth 4000 in
/-- Without the action, only `h` goes unnoticed. -/
theorem consistent_start : ∃ w,
    Returned (fun k => Statechart.calls (chart none) k [.start ()]) (World.fresh ()) ⟨⟩ w
      ∧ (chart none).Consistent w.trace
      ∧ ∀ y, ((chart none).kind y).isHistory = false → w.Tells y :=
  ⟨_, ⟨20, rfl⟩, Statechart.consistent_calls (l := []) actionsKeepData rfl ⟨20, rfl⟩⟩

end Recalled

/-! ### The queries -/

/-- Neither the chart, nor a pseudo-state, nor a final state. -/
def StateKind.isOrdinary : StateKind → Bool
  | .state | .hierarchicalState | .concurrentState => true
  | _ => false

omit [DecidableEq S] in
lemma Chart.mem_activeStates {m : Metadata S} : x ∈ c.activeStates m ↔ (m.getData x).isSome =
    true := by
  have h : x ∈ c.root :: c.ownedStates := by
    rw [List.mem_cons, c.mem_ownedStates]
    exact eq_or_ne x c.root
  simp [Chart.activeStates, h]

omit [DecidableEq S] in
/-- The loop asks for a final state, and for nothing else. -/
lemma Chart.isRunning_eq_true_iff {m : Metadata S} :
    c.isRunning m = true ↔ ∀ f, c.kind f = .finalState → m.getData f = none := by
  have hloop : ∀ (l : List S) (b : Bool), l.foldl (fun running s =>
      if c.kind s = .statechart then running
      else if (c.kind s).isPseudo then running
      else running && !decide (c.kind s = .finalState)) b = true
      ↔ b = true ∧ ∀ s ∈ l, c.kind s ≠ .finalState := by
    intro l
    induction l with
    | nil => simp
    | cons s l ih =>
        intro b
        rw [List.foldl_cons, ih]
        cases hk : c.kind s <;> simp [hk, StateKind.isPseudo]
  rw [Chart.isRunning, hloop]
  simp only [true_and, Chart.mem_activeStates]
  refine forall_congr' fun f => ?_
  cases m.getData f <;> simp

omit [DecidableEq S] in
/-- **What `isRunning` tells.** When a state other than the chart and the pseudo-states is active,
`isRunning` tells whether an ordinary state is active, unless one is active and a final state has a
record, too. -/
theorem Chart.isRunning_iff {m : Metadata S}
    (h : ∃ x, m.isActive x = true ∧ x ≠ c.root ∧ (c.kind x).isPseudo = false) :
    (c.isRunning m = true ↔ ∃ x, m.isActive x = true ∧ (c.kind x).isOrdinary = true)
      ↔ ¬ ((∃ f, c.kind f = .finalState ∧ (m.getData f).isSome = true)
        ∧ ∃ x, m.isActive x = true ∧ (c.kind x).isOrdinary = true) := by
  have hfinal : c.isRunning m = true
      ↔ ¬ ∃ f, c.kind f = .finalState ∧ (m.getData f).isSome = true := by
    rw [Chart.isRunning_eq_true_iff]
    simp [Option.isSome_iff_ne_none]
  -- without an ordinary state, the active one is final
  have hone : (∃ x, m.isActive x = true ∧ (c.kind x).isOrdinary = true)
      ∨ ∃ f, c.kind f = .finalState ∧ (m.getData f).isSome = true := by
    obtain ⟨x, ha, hx, hk⟩ := h
    obtain ⟨d, hd, -⟩ := m.exists_of_isActive ha
    cases hkx : c.kind x with
    | statechart => exact absurd ((c.kind_statechart x).mp hkx) hx
    | finalState => exact Or.inr ⟨x, hkx, by simp [hd]⟩
    | pseudoState _ => simp [hkx, StateKind.isPseudo] at hk
    | _ => exact Or.inl ⟨x, ha, by rw [hkx]; rfl⟩
  rw [hfinal]
  rcases hone with ho | hf
  · simp [ho]
  · simp [hf]

namespace Finished

/-- A hierarchical state `a` whose only substate is final. -/
inductive St where
  | chart | s | a | sa | f
  deriving DecidableEq

instance : Fintype St := ⟨{.chart, .s, .a, .sa, .f}, fun x => by cases x <;> decide⟩

inductive Tr where
  | begin | finish
  deriving DecidableEq

instance : Fintype Tr := ⟨{.begin, .finish}, fun t => by cases t <;> decide⟩

/-- The start enters `a`, and its final state if the parameter is set. -/
def chart : Chart St Tr Event Bool where
  name := "finished"
  root := .chart
  ownedStates := [.s, .a, .sa, .f]
  ownedTransitions := [.begin, .finish]
  kind
    | .chart => .statechart
    | .s | .sa => .pseudoState .start
    | .a => .hierarchicalState
    | .f => .finalState
  context
    | .chart => none
    | .s | .a => some .chart
    | .sa | .f => some .a
  depth
    | .chart => 0
    | .s | .a => 1
    | .sa | .f => 2
  source
    | .begin => .s
    | .finish => .sa
  target
    | .begin => .a
    | .finish => .f
  guard
    | .finish => some fun _ p => p
    | _ => none
  equals ev e _ _ := ev.equals e
  timeout := Event.timeout

set_option maxRecDepth 4000 in
/-- **A running chart that is not reported.** After the start `a` is active, and the chart is not
said to be running. -/
theorem not_isRunning : ∃ w,
    Returned (fun k => Statechart.calls chart k [.start true]) (World.fresh true) ⟨⟩ w
      ∧ (∃ x, w.data.isActive x = true ∧ x ≠ chart.root ∧ (chart.kind x).isPseudo = false)
      ∧ ¬ (chart.isRunning w.data = true
        ↔ ∃ x, w.data.isActive x = true ∧ (chart.kind x).isOrdinary = true) := by
  refine ⟨_, ⟨20, rfl⟩, ⟨.a, rfl, by decide, rfl⟩, fun h => ?_⟩
  have hrun := h.mpr ⟨.a, rfl, rfl⟩
  exact absurd hrun (by decide)

set_option maxRecDepth 4000 in
/-- Before the final state is entered, the chart is said to be running. -/
theorem isRunning_start : ∃ w,
    Returned (fun k => Statechart.calls chart k [.start false]) (World.fresh false) ⟨⟩ w
      ∧ ((chart.isRunning w.data = true
          ↔ ∃ x, w.data.isActive x = true ∧ (chart.kind x).isOrdinary = true)
        ↔ ¬ ((∃ x, chart.kind x = .finalState ∧ (w.data.getData x).isSome = true)
          ∧ ∃ x, w.data.isActive x = true ∧ (chart.kind x).isOrdinary = true)) :=
  ⟨_, ⟨20, rfl⟩, Chart.isRunning_iff ⟨.a, rfl, by decide, rfl⟩⟩

end Finished

end CppStatecharts
