import CppStatecharts.Completion.Course
import CppStatecharts.Configuration.Sessions
import CppStatecharts.Semantics.Choice

/-!
Nothing fires without a cause.

* `Chart.Justified`: what the code has found out in the world in which a transition fires; a
  transition without a trigger waits until its source is completed.
* `Chart.Calls.eligible`: the code tries transitions of active and, if need be, completed states.
* `World.Begins`: every firing recorded between two worlds began in a world of a certain kind.
* `Statechart.Made`: a nested call was made in the course of a session.
* `Statechart.justified_session`: every firing of every session was a nested call of it, justified
  in the world in which it was made.
* `Pair`: a concurrent state that is left when both its regions are completed.
-/

namespace CppStatecharts

open Relation (ReflTransGen)

variable {S T E P : Type} [DecidableEq S] {c : Chart S T E P}
variable {w w₁ w' : World S T E P} {m : Metadata S} {s : S} {t : T} {e : Option E} {k : ℕ}
variable {x y : Frame S T E × World S T E P}
variable {ok : S → World S T E P → Prop}

/-! ### What is known of a transition that is tried -/

/-- The execution of `t` on `e` in `w` has a cause: the trigger is absent or matches, the guard
holds, and a pseudo-state at the end of `t` can be left again. A hierarchical or concurrent source
is active, and if `t` has no trigger, it is completed: the current state of the source, or of each
of its regions, is final. -/
structure Chart.Justified (c : Chart S T E P) (t : T) (e : Option E) (w : World S T E P) :
    Prop where
  ready : ∃ k, Transition.Ready c k t e w
  active : c.kind (c.source t) = .hierarchicalState ∨ c.kind (c.source t) = .concurrentState →
    w.data.isActive (c.source t) = true
  final : c.kind (c.source t) = .hierarchicalState → c.event t = none →
    c.isFinal (w.data.current (c.source t)) = true
  finished : c.kind (c.source t) = .concurrentState → c.event t = none →
    ∀ r ∈ c.regions (c.source t), c.isFinal (w.data.current r) = true

lemma Chart.Eligible.justified (h : c.Eligible t w) (hr : Transition.Ready c k t e w) :
    c.Justified t e w where
  ready := ⟨k, hr⟩
  active := h.active
  final := h.final
  finished hk he := List.all_eq_true.mp (h.finished hk he)

/-- The own transitions of other states are tried at any time. -/
lemma Chart.Eligible.of_kind (hk : c.kind (c.source t) ≠ .hierarchicalState)
    (hk' : c.kind (c.source t) ≠ .concurrentState) : c.Eligible t w :=
  ⟨fun h => (h.elim hk hk').elim, fun h => absurd h hk, fun h => absurd h hk'⟩

/-- A state that tries a transition is active and, unless the transition has a trigger, completed:
no other transition of it has fired in between. -/
lemma Chart.Calls.eligible (h : c.Calls x (.execute t e, w)) : c.Eligible t w := by
  cases h with
  | @hierarchical s _ _ handled _ _ w₂ _ hk _ _ _ ha _ hl hf =>
      obtain rfl := (Chart.mem_transitions.mp hl.mem).2
      obtain ⟨pre, post, -, n, hpre⟩ := hl
      obtain rfl := anyM_eq (fun _ _ _ _ => HierarchicalState.tryTransition_false
        (pure_methods c n)) hpre
      have hdata : (HierarchicalState.offered (c.source t) e handled w₂).data = w₂.data := by
        cases handled <;> rfl
      exact ⟨fun _ => hdata ▸ ha, fun _ he => hdata ▸ hf he, fun hn => by simp [hk] at hn⟩
  | @concurrent n _ _ _ _ _ hk _ hl ha hf =>
      obtain rfl := (Chart.mem_transitions.mp hl.mem).2
      exact ⟨fun _ => ha, fun hn => by simp [hk] at hn, fun _ => hf⟩
  | branch hk hl =>
      obtain rfl := (Chart.mem_transitions.mp hl.mem).2
      exact .of_kind (by simp [hk]) (by simp [hk])
  | plain hp hl =>
      obtain rfl := (Chart.mem_transitions.mp hl.mem).2
      exact .of_kind hp.hierarchical hp.concurrent

lemma eligible_of_reflTransGen (h : ReflTransGen c.Calls x (.execute t e, w))
    (hx : ∀ t e, x.1 ≠ .execute t e) : c.Eligible t w := by
  rcases ReflTransGen.cases_tail h with h | ⟨y, -, h⟩
  · exact absurd (congrArg Prod.fst h).symm (hx t e)
  · exact h.eligible

namespace Statechart

lemma Leads.eligible {call : Call E P} (h : Leads c call w (.execute t e, w₁)) :
    c.Eligible t w₁ := by
  obtain ⟨-, _, _, _, -, -, h⟩ := h
  exact eligible_of_reflTransGen h (by simp)

lemma Restores.eligible (h : Restores c s w (.execute t e, w₁)) : c.Eligible t w₁ := by
  obtain ⟨-, _, _, -, h⟩ := h
  exact eligible_of_reflTransGen h (by simp)

end Statechart

/-! ### Where firings begin -/

/-- Every firing recorded on top of the first world began in a world with `Q`, which had recorded
what came before. -/
def World.Begins (Q : T → World S T E P → Prop) (w w' : World S T E P) : Prop :=
  ∀ t m l, .fire t m :: l <:+ w'.trace →
    .fire t m :: l <:+ w.trace ∨ ∃ w₁, w₁.trace = l ∧ w₁.data = m ∧ Q t w₁

variable {Q : T → World S T E P → Prop}

omit [DecidableEq S] in
lemma World.Begins.trans (h : w.Begins Q w₁) (h' : w₁.Begins Q w') : w.Begins Q w' :=
  fun t m l hl => (h' t m l hl).elim (h t m l) Or.inr

omit [DecidableEq S] in
lemma World.Begins.of_adds (h : w.Adds (fun o => ∀ t m, o ≠ .fire t m) w') : w.Begins Q w' := by
  obtain ⟨l, hl, hn⟩ := h
  intro t m older hs
  rw [hl] at hs
  clear hl
  refine Or.inl ?_
  induction l with
  | nil => exact hs
  | cons o l ih =>
      rcases List.suffix_cons_iff.mp hs with ho | hs
      · exact absurd (List.cons.inj ho).1.symm (hn o List.mem_cons_self t m)
      · exact ih (fun o ho => hn o (List.mem_cons_of_mem _ ho)) hs

omit [DecidableEq S] in
/-- A firing begins in the world that records it. -/
lemma World.Begins.fire (h : Q t w) : w.Begins Q (w.log (.fire t w.data)) := by
  intro t' m l hl
  rcases List.suffix_cons_iff.mp hl with ho | hl
  · obtain ⟨hfire, rfl⟩ := List.cons.inj ho
    obtain ⟨rfl, rfl⟩ := Obs.fire.inj hfire
    exact Or.inr ⟨w, rfl, rfl, h⟩
  · exact Or.inl hl

lemma steady_begins : Steady c Set.univ (World.Begins Q) :=
  steady_of_unfired World.Begins.trans .of_adds

/-- A transition that fires is justified, and what fires in its course is left to its calls. -/
lemma execute_begins (hQ : c.Justified t e w → Q t w) (he : c.Eligible t w)
    (hcalls : Frame.CallsKeep c (World.Begins Q) (.execute t e, w)) {b : Bool}
    (hx : Returns (Transition.execute c (c.methods k) t e) w b w') : w.Begins Q w' :=
  steady_begins.execute_of_calls hcalls
    (fun ht ha => .fire (hQ (he.justified ⟨ht, ha⟩)))
    (fun _ => .of_adds (World.adds_perform (by simp)))
    (fun _ _ => .of_adds (World.Adds.of_cons rfl (by simp))) hx

/-! ### Sessions -/

namespace Statechart

/-- A session that has led to `w` has made the nested call `x` in the course of one of its calls or
restorations. -/
inductive Made (c : Chart S T E P) (ok : S → World S T E P → Prop)
    (x : Frame S T E × World S T E P) : World S T E P → Prop
  | inCall {w w' : World S T E P} {o : Outcome} (l : Call E P) : Session c ok w →
      Returned (fun k => Statechart.call c k l) w o w' → Leads c l w x → Made c ok x w'
  | inRestoration {w w' : World S T E P} {b : Bool} (s : S) (a : P) : Session c ok w →
      ok s { w with param := a } →
      Returned (fun k => restoreState c k s) { w with param := a } b w' →
      Restores c s { w with param := a } x → Made c ok x w'
  | call {w w' : World S T E P} {o : Outcome} (l : Call E P) : Made c ok x w →
      Returned (fun k => Statechart.call c k l) w o w' → Made c ok x w'
  | restoreState {w w' : World S T E P} {b : Bool} (s : S) (a : P) : Made c ok x w →
      ok s { w with param := a } →
      Returned (fun k => restoreState c k s) { w with param := a } b w' → Made c ok x w'

/-- A call records no firing before its first pass. -/
lemma begins_prepare (call : Call E P) : w.Begins Q (call.prepare c w) := by
  cases call with
  | start p => exact .of_adds (adds_enter (c := c) { w with param := p })
  | dispatch e p => exact .of_adds (World.Adds.of_eq rfl)

/-- **Nothing fires without a cause.** Whatever the chart and its client do, every firing recorded
in a session is the execution of its transition by a nested call of that session, made on an event
and in the world that the record tells of; there the transition is triggered and allowed, and one
without a trigger waits until its source is completed. -/
theorem justified_session (h : Session c ok w) : ∀ t m l, .fire t m :: l <:+ w.trace →
    ∃ e w₁, Made c ok (.execute t e, w₁) w ∧ w₁.trace = l ∧ w₁.data = m ∧ c.Justified t e w₁ := by
  induction h with
  | fresh a => exact fun t m l hl => absurd hl (by simp [World.fresh])
  | @call w w' _ call hs hcall ih =>
      intro t m l hl
      have hcourse := rel_call (steady_begins (Q := fun t w₁ => ∃ e,
        Leads c call w (.execute t e, w₁) ∧ c.Justified t e w₁)).toEntering
        (fun t e w₁ hlead hcalls k b w₂ => execute_begins (fun hj => ⟨e, hlead, hj⟩)
          hlead.eligible hcalls) hcall
      rcases (begins_prepare call).trans hcourse t m l hl with hl | ⟨w₁, hl, hm, e, hlead, hj⟩
      · obtain ⟨e, w₁, hmade, h⟩ := ih t m l hl
        exact ⟨e, w₁, .call call hmade hcall, h⟩
      · exact ⟨e, w₁, .inCall call hs hcall hlead, hl, hm, hj⟩
  | @restoreState w w' _ s a hs hok hrestore ih =>
      intro t m l hl
      have hcourse := rel_restoreState (steady_begins (Q := fun t w₁ => ∃ e,
        Restores c s { w with param := a } (.execute t e, w₁) ∧ c.Justified t e w₁)).toEntering
        (fun w => .of_adds (World.Adds.of_cons rfl (by simp)))
        (fun t e w₁ hlead hcalls k b w₂ => execute_begins (fun hj => ⟨e, hlead, hj⟩)
          hlead.eligible hcalls) hrestore
      rcases hcourse t m l hl with hl | ⟨w₁, hl, hm, e, hlead, hj⟩
      · obtain ⟨e, w₁, hmade, h⟩ := ih t m l hl
        exact ⟨e, w₁, .restoreState s a hmade hok hrestore, h⟩
      · exact ⟨e, w₁, .inRestoration s a hs hok hrestore hlead, hl, hm, hj⟩

end Statechart

namespace Pair

/-- A concurrent state `both` with two regions, and a state `rest` beside it. -/
inductive St where
  | chart | s | both | r1 | s1 | f1 | r2 | s2 | f2 | rest
  deriving DecidableEq

instance : Fintype St :=
  ⟨{.chart, .s, .both, .r1, .s1, .f1, .r2, .s2, .f2, .rest}, fun x => by cases x <;> decide⟩

inductive Tr where
  | begin | one | two | done
  deriving DecidableEq

instance : Fintype Tr := ⟨{.begin, .one, .two, .done}, fun t => by cases t <;> decide⟩

/-- The first region is completed at once, the second one by an event. -/
def chart : Chart St Tr Event Unit where
  name := "pair"
  root := .chart
  ownedStates := [.s, .both, .r1, .s1, .f1, .r2, .s2, .f2, .rest]
  ownedTransitions := [.begin, .one, .two, .done]
  kind
    | .chart => .statechart
    | .s | .s1 | .s2 => .pseudoState .start
    | .both => .concurrentState
    | .r1 | .r2 => .hierarchicalState
    | .f1 | .f2 => .finalState
    | .rest => .state
  context
    | .chart => none
    | .s | .both | .rest => some .chart
    | .r1 | .r2 => some .both
    | .s1 | .f1 => some .r1
    | .s2 | .f2 => some .r2
  depth
    | .chart => 0
    | .s | .both | .rest => 1
    | .r1 | .r2 => 2
    | .s1 | .f1 | .s2 | .f2 => 3
  source
    | .begin => .s
    | .one => .s1
    | .two => .s2
    | .done => .both
  target
    | .begin => .both
    | .one => .f1
    | .two => .f2
    | .done => .rest
  event
    | .two => some (.event "go")
    | _ => none
  equals ev e _ _ := ev.equals e
  timeout := Event.timeout

set_option maxRecDepth 8000 in
/-- `both` is left when both its regions are completed. -/
theorem justified_done : ∃ w : World St Tr Event Unit, Statechart.Session chart (fun _ _ => True) w
    ∧ ∃ m l, .fire .done m :: l <:+ w.trace
      ∧ chart.isFinal (m.current .r1) = true ∧ chart.isFinal (m.current .r2) = true := by
  obtain ⟨w, hw, m, l, hl⟩ : ∃ w : World St Tr Event Unit,
      Statechart.Session chart (fun _ _ => True) w ∧ ∃ m l, .fire .done m :: l <:+ w.trace :=
    ⟨_, .call (.dispatch (some (.event "go")) ()) (.call (.start ()) (.fresh ()) ⟨20, rfl⟩)
      ⟨20, rfl⟩, _, _, [_, _, _, _, _, _, _], rfl⟩
  obtain ⟨e, w₁, -, -, rfl, h⟩ := Statechart.justified_session hw .done m l hl
  exact ⟨w, hw, _, l, hl, h.finished rfl rfl .r1 (by decide), h.finished rfl rfl .r2 (by decide)⟩

end Pair

end CppStatecharts
