import CppStatecharts.Completion.Passes
import CppStatecharts.Configuration.Moves

/-!
Configurations between calls.

* `Chart.LegalConfiguration`: the legal configurations of a chart, as a client sees them.
* `Chart.Settled`: a legal configuration in which no entry is in progress; every orderly call keeps
  it (`Statechart.calls_settled`).
* `Statechart.legalConfiguration`: the configuration after every sequence of calls is legal.
* `Statechart.nests_calls`: entry and exit actions are well nested, and alternate.
* `Abandoned`: a chart that leaves a concurrent state while it is being entered.
-/

namespace CppStatecharts

variable {S T E P : Type} [DecidableEq S] {c : Chart S T E P}
variable {w w₁ w' : World S T E P} {s x p q : S} {k : ℕ} {b : Bool} {ev : Option E}

/-- Active states have active contexts; the chart and the active hierarchical states have at most
one active child, the current state, and a current state is active; an active concurrent state has
all its regions active. Histories do not count. -/
structure Chart.LegalConfiguration (c : Chart S T E P) (m : Metadata S) : Prop where
  upward : ∀ {x p}, (c.kind x).isHistory = false → m.isActive x = true → c.context x = some p →
    m.isActive p = true
  child : ∀ {x p}, c.kind p = .statechart ∨ c.kind p = .hierarchicalState ∧ m.isActive p = true →
    (c.kind x).isHistory = false → m.isActive x = true → c.context x = some p →
    m.current p = some x
  current : ∀ {p q}, c.kind p = .statechart ∨ c.kind p = .hierarchicalState ∧ m.isActive p = true →
    m.current p = some q → m.isActive q = true
  regions : ∀ {n r}, c.kind n = .concurrentState → m.isActive n = true → r ∈ c.regions n →
    m.isActive r = true

lemma Chart.LegalConfiguration.active_of_below {m : Metadata S} (h : c.LegalConfiguration m)
    (hx : (c.kind x).isHistory = false) (ha : m.isActive x = true) (hb : c.Below x s) :
    m.isActive s = true := by
  induction hb using Relation.ReflTransGen.head_induction_on with
  | refl => exact ha
  | head hp _ ih => exact ih (isHistory_of_context hp) (h.upward hx ha hp)

/-- A legal configuration in which no concurrent state is being entered. -/
structure Chart.Settled (c : Chart S T E P) (w : World S T E P) : Prop where
  legal : c.Legal none w
  idle : ∀ n, ¬ Obs.inProgress n w.trace

lemma Chart.Settled.legal_data (h : c.Settled w) : c.LegalConfiguration w.data where
  upward := h.legal.upward
  child hp hx ha hc := h.legal.single hx ha hc <| by
    rcases hp with hp | ⟨hp, -⟩ <;> rw [hp] <;> decide
  current {p q} hp hq := by
    have ha : w.data.isActive p = true := by
      rcases hp with hp | ⟨-, ha⟩
      · obtain rfl := (c.kind_statechart p).mp hp
        exact h.legal.rooted hq
      · exact ha
    have hk : c.kind p ≠ .concurrentState := by
      rcases hp with hp | ⟨hp, -⟩ <;> rw [hp] <;> decide
    exact (h.legal.live hk ha hq).resolve_right (by simp)
  regions hn ha hr :=
    (h.legal.regions hn ha (h.idle _) (Chart.mem_regions.mp hr).2).resolve_right (by simp)

namespace Statechart

/-! ### The beginning of a call -/

lemma settled_param (h : c.Settled w) (a : P) : c.Settled { w with param := a } :=
  ⟨h.legal.of_idles rfl (World.Adds.of_eq rfl), h.idle⟩

variable (c) in
lemma extends_enter (w : World S T E P) : w.Extends (enter c w) := by
  unfold enter
  split
  · exact ⟨[.activated c.root, .reset], rfl, fun _ _ => trivial⟩
  · exact ⟨[.activated _, .activated c.root, .reset], rfl, fun _ _ => trivial⟩

/-- The chart alone is active. -/
lemma settled_alone (hactive : ∀ x, w.data.isActive x = decide (x = c.root))
    (hcur : ∀ x, w.data.current x = none) (hset : ∀ x, w.data.stateset x = [])
    (hdata : ∀ x, x ≠ c.root → w.data.hasData x = false)
    (htold : ∀ x, (c.kind x).isPseudo = false → w.Tells x) (hnests : c.Nests w.trace)
    (hcarried : ∀ {t a b}, .fired t a b ∈ w.trace → c.Carried t a b)
    (hopen : ∀ x, x ≠ c.root → Obs.opened x w.trace = false)
    (hprog : ∀ n, ¬ Obs.inProgress n w.trace) : c.Settled w := by
  have hroot : c.context c.root = none := (c.context_root _).mpr rfl
  have hlone : ∀ {x}, w.data.isActive x = true → x = c.root := fun hx => by
    simpa [hactive] using hx
  refine ⟨⟨⟨⟨htold, hnests, ?_, hcarried⟩, ?_, ?_, ?_, ?_, ?_⟩, ?_, ?_, ?_, ?_⟩, hprog⟩
  · intro x p _ hp _ _
    rw [hactive, hopen x (Chart.ne_root_of_context hp)]
    simp [Chart.ne_root_of_context hp]
  · refine ⟨fun p q hq => ?_, fun y p _ _ => ?_⟩
    · rw [hcur] at hq
      cases hq
    · rw [hset]
      exact .nil
  · intro x p _ ha hp
    rw [hlone ha, hroot] at hp
    cases hp
  · intro x p _ ha hp
    rw [hlone ha, hroot] at hp
    cases hp
  · intro q hq
    rw [hcur] at hq
    cases hq
  · intro x p _ ha hp
    rw [hlone ha, hroot] at hp
    cases hp
  · intro p q _ _ hq
    rw [hcur] at hq
    cases hq
  · intro n r hn ha
    rw [hlone ha, (c.kind_statechart _).mpr rfl] at hn
    cases hn
  · intro n hn _ _
    refine hdata n ?_
    rintro rfl
    rw [(c.kind_statechart _).mpr rfl] at hn
    cases hn
  · intro n hn
    exact absurd hn (hprog n)

/-- The chart alone is active after a reset. -/
lemma settled_root (h : c.Recorded w) (hi : ∀ n, ¬ Obs.inProgress n w.trace) :
    c.Settled (c.activateData c.root ((w.onData fun _ => .reset).log .reset)) := by
  set w₁ := c.activateData c.root ((w.onData fun _ => .reset).log .reset) with hw₁
  have hroot : c.context c.root = none := (c.context_root _).mpr rfl
  have hactive : ∀ x, w₁.data.isActive x = decide (x = c.root) := fun x => by simp [hw₁]
  have htrace : w₁.trace = .activated c.root :: .reset :: w.trace := rfl
  refine settled_alone hactive (fun x => ?_) (fun x => ?_) (fun x hx => ?_) (fun x _ => ?_) h.nests
    (fun hm => h.carried ?_) (fun _ _ => rfl) fun n => ?_
  · rw [hw₁, data_activateData, hroot, Metadata.current_activate_none]
    simp
  · rw [hw₁, data_activateData, Metadata.stateset_activate]
    rfl
  · rw [hw₁, data_activateData, Metadata.hasData_activate]
    simp [hx]
  · simp [World.Tells, hactive, htrace, Obs.activeIn]
  · simpa [htrace] using hm
  · simpa [htrace, Obs.inProgress, Obs.isEntering, Obs.isEntered] using hi n

lemma settled_enter (hc : c.ActionsKeepData) (h : c.Recorded w)
    (hi : ∀ n, ¬ Obs.inProgress n w.trace) : c.Settled (enter c w) := by
  have h₁ := settled_root h hi
  unfold enter
  cases hst : c.startState c.root with
  | none => exact h₁
  | some st =>
      obtain ⟨hk, hp⟩ := Chart.startState_eq_some hst
      have hps : (c.kind st).isPseudo = true := by
        rw [hk]
        rfl
      have hra : (c.activateData c.root ((w.onData fun _ => .reset).log .reset)).data.isActive
        c.root
          = true := by simp
      have hent : c.Enterable c.root st
          (c.activateData c.root ((w.onData fun _ => .reset).log .reset)) := by
        refine .of_vacant hp hra fun y hy _ => ?_
        simp [Chart.ne_root_of_context hy]
      refine ⟨Chart.Legal.activateData hc h₁.legal.mono hent hps, fun n hn => h₁.idle n ?_⟩
      exact ((compatible_level (c := c)).activateData st _ hps).inProgress.mp hn

/-! ### Passes and calls -/

lemma pass_settled (hr : c.Standard) (h : c.Settled w) (hu : c.Orderly w'.trace)
    (hp : Returns (pass c k ev) w b w') : c.Settled w' := by
  have hlevel := (compatible_level (c := c)).pass k (Set.mem_univ ev) _ _ _ hp
  refine ⟨?_, fun n hn => h.idle n (hlevel.inProgress.mp hn)⟩
  rcases returns_pass.mp hp with ⟨-, -, rfl⟩ | ⟨q, hq, hp⟩
  · exact h.legal
  · have hk : c.kind c.root ≠ .concurrentState := by
      rw [(c.kind_statechart _).mpr rfl]
      decide
    obtain ⟨-, hreach⟩ := h.legal.reached_current hk (h.legal.rooted hq) hq
    exact ((legal_methods hr k).2 h.legal hreach (fun n hn => absurd hn (h.idle n)) hu hp).legal

lemma completionLoop_settled (hr : c.Standard) : ∀ (fuel : ℕ) {w b w'}, c.Settled w →
    c.Orderly w'.trace → Returns (completionLoop c k fuel) w b w' → c.Settled w'
  | 0, w, b, w', h, _, hl => by
      rw [(returns_pure.mp hl).2]
      exact h
  | fuel + 1, w, b, w', h, hu, hl => by
      obtain ⟨a, w₁, hp, hl⟩ := returns_bind.mp hl
      rcases returns_ite.mp hl with ⟨-, hl⟩ | ⟨-, hl⟩
      · have hu₁ := hu.of_extends ((compatible_extends c).completionLoop k fuel _ _ _ hl)
        exact completionLoop_settled hr fuel (pass_settled hr h hu₁ hp) hu hl
      · obtain ⟨-, rfl⟩ := returns_pure.mp hl
        exact pass_settled hr h hu hp

lemma dispatch_settled (hr : c.Standard) {o : Outcome} (h : c.Settled w)
    (hu : c.Orderly w'.trace) (hd : Returns (dispatch c k ev) w o w') : c.Settled w' := by
  have hext := compatible_extends c
  simp only [dispatch, complete, returns_bind, returns_peek, returns_ite, returns_pure] at hd
  obtain ⟨_, _, ⟨rfl, rfl⟩, ⟨-, rc, w₁, hp, b, w₂, hl, hd⟩ | ⟨-, -, rfl⟩⟩ := hd
  · have hw₂ : w' = w₂ := by
      rcases hd with ⟨-, -, hw⟩ | ⟨-, -, hw⟩ <;> exact hw
    subst hw₂
    have hu₁ := hu.of_extends (hext.completionLoop k _ _ _ _ hl)
    exact completionLoop_settled hr _ (pass_settled hr h hu₁ hp) hu hl
  · exact h

lemma extends_call {l : Call E P} {o : Outcome} (h : Returns (call c k l) w o w') : w.Extends w' :=
  (compatible_extends c).call (fun _ _ => World.Adds.of_eq rfl) (extends_enter c) k l _ _ _ h

lemma call_settled (hr : c.Standard) {l : Call E P} {o : Outcome} (h : c.Settled w)
    (hu : c.Orderly w'.trace) (hl : Returns (call c k l) w o w') : c.Settled w' := by
  cases l with
  | start a =>
      simp only [call, start, returns_bind, returns_modify] at hl
      obtain ⟨_, w₁, rfl, _, w₂, rfl, hd⟩ := hl
      have h₁ := settled_param h a
      exact dispatch_settled hr (settled_enter hr.actions h₁.legal.toRecorded h₁.idle) hu hd
  | dispatch e a =>
      simp only [call, returns_bind, returns_modify] at hl
      obtain ⟨_, w₁, rfl, hd⟩ := hl
      exact dispatch_settled hr (settled_param h a) hu hd

/-- A new metadata is empty. -/
lemma settled_fresh (a : P) : c.Settled (World.fresh a : World S T E P) := by
  have hprog : ∀ n, ¬ Obs.inProgress n (World.fresh a : World S T E P).trace := fun n h => h rfl
  refine ⟨⟨⟨⟨fun _ _ => rfl, trivial, fun _ _ _ _ _ _ => rfl, fun hm => by cases hm⟩, links_reset,
    ?_, ?_, ?_, ?_⟩, ?_, ?_, ?_, ?_⟩, hprog⟩
  · intro x p _ hx
    cases hx
  · intro x p _ hx
    cases hx
  · intro q hq
    cases hq
  · intro x p _ hx
    cases hx
  · intro p q _ hp
    cases hp
  · intro n r _ hn
    cases hn
  · intro n _ _ _
    rfl
  · intro n hn
    exact absurd hn (hprog n)

/-- Every orderly sequence of calls ends in a legal configuration. -/
lemma calls_settled (hr : c.Standard) {l : List (Call E P)} {u : PUnit} (h : c.Settled w)
    (hu : c.Orderly w'.trace) (hl : Returns (calls c k l) w u w') : c.Settled w' := by
  refine forM_induction (fun _ w' => c.Orderly w'.trace → c.Settled w')
    (fun done call rest _ w₁ w₂ hw hc hu₂ => ?_) hl (fun _ => h) hu
  obtain ⟨o, w₃, hc, hp⟩ := returns_bind.mp hc
  obtain ⟨-, rfl⟩ := returns_pure.mp hp
  exact call_settled hr (hw (hu₂.of_extends (extends_call hc))) hu₂ hc

/-! ### The two results -/

/-- **Legal configurations.** After every sequence of calls in which no concurrent state is left
while it is being entered, the configuration is legal. -/
theorem legalConfiguration (hr : c.Regular) {a : P} {l : List (Call E P)}
    (h : Returned (fun n => calls c n l) (World.fresh a) ⟨⟩ w) (hu : Obs.Unbroken w.trace) :
    c.LegalConfiguration w.data := by
  obtain ⟨n, h⟩ := h
  exact (calls_settled hr.standard (settled_fresh a) (hr.orderly hu) h).legal_data

/-- **Nested actions.** In every run in which no concurrent state is left while it is being entered,
entry and exit actions are well nested, and those of each state alternate. -/
theorem nests_calls (hr : c.Regular) {a : P} {l : List (Call E P)}
    (h : Returned (fun n => calls c n l) (World.fresh a) ⟨⟩ w) (hu : Obs.Unbroken w.trace) :
    c.Nests w.trace := by
  obtain ⟨n, h⟩ := h
  exact (calls_settled hr.standard (settled_fresh a) (hr.orderly hu) h).legal.nests

end Statechart

namespace Abandoned

/-- A concurrent state `n` with the regions `r1` and `r2`, and a state `z` beside it. -/
inductive St where
  | chart | s | n | r1 | s1 | f1 | r2 | z
  deriving DecidableEq

instance : Fintype St := ⟨{.chart, .s, .n, .r1, .s1, .f1, .r2, .z}, fun x => by cases x <;> decide⟩

inductive Tr where
  | begin | finish | leave
  deriving DecidableEq

instance : Fintype Tr := ⟨{.begin, .finish, .leave}, fun t => by cases t <;> decide⟩

/-- The default entry of `r1` leads to its final state, and then, if the parameter is set, out of
`n` to `z`. -/
def chart : Chart St Tr Event Bool where
  name := "abandoned"
  root := .chart
  ownedStates := [.s, .n, .r1, .s1, .f1, .r2, .z]
  ownedTransitions := [.begin, .finish, .leave]
  kind
    | .chart => .statechart
    | .s | .s1 => .pseudoState .start
    | .n => .concurrentState
    | .r1 | .r2 => .hierarchicalState
    | .f1 => .finalState
    | .z => .state
  context
    | .chart => none
    | .s | .n | .z => some .chart
    | .r1 | .r2 => some .n
    | .s1 | .f1 => some .r1
  depth
    | .chart => 0
    | .s | .n | .z => 1
    | .r1 | .r2 => 2
    | .s1 | .f1 => 3
  entryAction
    | .r2 => some fun m p => (m, p)
    | _ => none
  source
    | .begin => .s
    | .finish => .s1
    | .leave => .r1
  target
    | .begin => .n
    | .finish => .f1
    | .leave => .z
  guard
    | .leave => some fun _ p => p
    | _ => none
  equals ev e _ _ := ev.equals e
  timeout := Event.timeout

lemma regular : chart.Regular := by
  refine ⟨by decide, by decide, by decide, ?_, by decide, fun h => ?_, fun h => ?_, fun h => ?_,
    fun h => ?_⟩
  · intro t _ x r r' hx hr hr' hs ht
    cases x <;> try cases hx
    cases r <;> try cases hr
    all_goals cases r' <;> try first | rfl | cases hr'
    all_goals cases t <;> revert hs ht <;> decide
  · rename_i x f
    cases x <;> cases h
    exact fun _ _ => rfl
  all_goals cases h

set_option maxRecDepth 4000 in
/-- **An active state in an inactive context.** The start leaves `n` while it is being entered, and
enters `r2` all the same. -/
theorem not_legalConfiguration : chart.Regular
    ∧ ∃ w, Returned (fun k => Statechart.calls chart k [.start true]) (World.fresh true) ⟨⟩ w
      ∧ ¬ chart.LegalConfiguration w.data :=
  ⟨regular, _, ⟨20, rfl⟩, fun h => absurd (h.upward (x := .r2) (p := .n) rfl rfl rfl) (by decide)⟩

set_option maxRecDepth 4000 in
/-- Without the way out, the start enters both regions. -/
theorem legalConfiguration_start : ∃ w,
    Returned (fun k => Statechart.calls chart k [.start false]) (World.fresh false) ⟨⟩ w
      ∧ chart.LegalConfiguration w.data := by
  refine ⟨_, ⟨20, rfl⟩, Statechart.legalConfiguration regular (a := false)
    (l := [.start false]) ?_ ?_⟩
  · exact ⟨20, rfl⟩
  · decide

set_option maxRecDepth 4000 in
/-- **An entry action outside an active context.** The entry action of `r2` runs after `n` was
left. -/
theorem not_nests : chart.Regular
    ∧ ∃ w, Returned (fun k => Statechart.calls chart k [.start true]) (World.fresh true) ⟨⟩ w
      ∧ ¬ chart.Nests w.trace := by
  refine ⟨regular, _, ⟨20, rfl⟩, fun h => ?_⟩
  have hentry := (show _ ∧ _ from h).2 rfl
  exact absurd (hentry.1 .n rfl) (by decide)

set_option maxRecDepth 4000 in
/-- Without the way out, the entry action of `r2` runs inside `n`. -/
theorem nests_start : ∃ w,
    Returned (fun k => Statechart.calls chart k [.start false]) (World.fresh false) ⟨⟩ w
      ∧ chart.Nests w.trace := by
  refine ⟨_, ⟨20, rfl⟩, Statechart.nests_calls regular (a := false) (l := [.start false]) ?_ ?_⟩
  · exact ⟨20, rfl⟩
  · decide

end Abandoned

end CppStatecharts
