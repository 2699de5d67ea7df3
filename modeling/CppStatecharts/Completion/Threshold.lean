import CppStatecharts.Events.Report

/-!
The infinite-loop threshold of `Statechart::dispatch`.

* `Statechart.ThresholdExact`: the exception is thrown exactly when more than
  `infiniteLoopThreshold` passes fire in a row, and a shorter chain is carried to its end.
* `Statechart.CarefulPasses`: no pass of the chain loses what a substate has fired, or dispatches a
  fork in vain.
* `thresholdExact_iff`: for such passes the first holds exactly when the chain is not as long as
  the threshold. The loop throws as soon as its counter reaches the threshold, so a chain of that
  length violates it (`Countdown.not_thresholdExact`).
-/

namespace CppStatecharts

namespace Statechart

variable {S T E P : Type} [DecidableEq S] (c : Chart S T E P)

/-- After the pass that offers the event, the exception is thrown if and only if more passes than
the threshold fire in a row; a chain of at most that many firing passes, ended by a pass that does
not fire, is carried to its end and the result of the event pass is returned. -/
def ThresholdExact (e : Option E) (w : World S T E P) : Prop :=
  ∀ rc w₁, Returned (fun n => pass c n e) w rc w₁ →
    ((∃ ex w', Returned (fun n => dispatch c n e) w (.thrown ex) w')
        ↔ ∃ w', Fires c (c.infiniteLoopThreshold + 1) w₁ w')
      ∧ ∀ m ≤ c.infiniteLoopThreshold, ∀ w₂ b w₃, Fires c m w₁ w₂ → Pass c w₂ b w₃ →
          w₃.firings = w₂.firings →
            ∃ w' k, Returned (fun n => dispatch c n e) w (.returned rc) w' ∧ Continues c k w₂ w'

/-- The passes that follow a chain of at most as many firing passes as the threshold are careful:
no dispatch within them ends with an event that a substate has handled and no own transition of
the enclosing state wants, and each fork dispatched fires a branch. -/
def CarefulPasses (w : World S T E P) : Prop :=
  ∀ k ≤ c.infiniteLoopThreshold, ∀ w₁ b w₂ q, Fires c k w w₁ → Pass c w₁ b w₂ →
    w₁.data.current c.root = some q → c.Throughout c.careful q none w₁

variable {c} {e : Option E} {w w₁ w₂ w' : World S T E P} {rc : Bool} {k j m : ℕ}

/-- The exception is thrown when as many passes as the threshold report. -/
lemma throws_iff (hp : Returned (fun n => pass c n e) w rc w₁) :
    (∃ ex w', Returned (fun n => dispatch c n e) w (.thrown ex) w')
      ↔ ∃ w', Reports c c.infiniteLoopThreshold w₁ w' := by
  simp only [returned_dispatch, reduceCtorEq, false_and, and_false, false_or, or_false]
  cases hd : (w.data.getData c.root).isSome
  · obtain ⟨-, rfl⟩ := (returned_pass_of_getData hd).mp hp
    have hpos := c.threshold_pos
    constructor
    · rintro ⟨_, _, h, -⟩
      exact absurd h (by simp)
    · rintro ⟨w', h⟩
      obtain ⟨k, hk⟩ := Nat.exists_eq_add_one_of_ne_zero hpos.ne'
      rw [hk] at h
      obtain ⟨b, w₂, h, rfl, -⟩ := h
      exact absurd ((returned_pass_of_getData hd).mp h).1 (by simp)
  · constructor
    · rintro ⟨_, w', -, rc', w₂, hp', h, -⟩
      obtain ⟨-, rfl⟩ := Returned.unique (monotone_pass c e) hp hp'
      exact ⟨w', h⟩
    · rintro ⟨w', h⟩
      exact ⟨_, w', rfl, rc, w₁, hp, h, rfl⟩

/-- The result of the event pass is returned by the first pass, within the threshold, that does not
report. -/
lemma returns_iff (hp : Returned (fun n => pass c n e) w rc w₁) :
    Returned (fun n => dispatch c n e) w (.returned rc) w'
      ↔ ∃ j < c.infiniteLoopThreshold, ∃ w₂, Reports c j w₁ w₂ ∧ Pass c w₂ false w' := by
  rw [returned_dispatch]
  cases hd : (w.data.getData c.root).isSome
  · obtain ⟨rfl, rfl⟩ := (returned_pass_of_getData hd).mp hp
    simp only [true_and, Bool.false_eq_true, false_and, or_false]
    constructor
    · rintro rfl
      exact ⟨0, c.threshold_pos, w', rfl, (returned_pass_of_getData hd).mpr ⟨rfl, rfl⟩⟩
    · rintro ⟨j, -, w₂, h, hf⟩
      cases j with
      | zero =>
          rw [show w₂ = w₁ from h] at hf
          exact ((returned_pass_of_getData hd).mp hf).2
      | succ j =>
          obtain ⟨b, w₃, h, rfl, -⟩ := h
          exact absurd ((returned_pass_of_getData hd).mp h).1 (by simp)
  · simp only [Bool.true_eq_false, false_and, true_and, false_or]
    constructor
    · rintro ⟨rc', w₂, hp', ⟨-, h⟩ | ⟨h, -⟩⟩
      · exact absurd h (by simp)
      · obtain ⟨-, rfl⟩ := Returned.unique (monotone_pass c e) hp hp'
        exact h
    · exact fun h => ⟨rc, w₁, hp, Or.inr ⟨h, rfl⟩⟩

/-- A careful pass reports exactly when it fires. -/
lemma Pass.reports_iff {b : Bool} (h : Pass c w b w')
    (hc : ∀ q, w.data.current c.root = some q → c.Throughout c.careful q none w) :
    b = true ↔ w.firings < w'.firings := by
  cases hq : w.data.current c.root with
  | none =>
      obtain ⟨n, h⟩ := h
      rcases returns_pass.mp h with ⟨-, rfl, rfl⟩ | ⟨q, hq', -⟩
      · simp
      · rw [hq] at hq'
        cases hq'
  | some q =>
      obtain ⟨b', w'', n, hn⟩ := hc q hq
      have hdis : Returned (fun n => (c.methods n).dispatch q none) w b' w'' :=
        ⟨n, (Chart.screened_le c _ n).2.2.2 q none w b' w'' hn⟩
      obtain ⟨rfl, rfl⟩ := Returned.unique
        ((CppStatecharts.monotone_dispatch q none).comp (monotone_methods c)) hdis
        ((returned_pass hq).mp h)
      have hn : Returns ((c.screened c.careful n).dispatch q none) w b' w'' := hn
      rw [← screened_honest] at hn
      exact ((told_screened n).1 _ _ _ _ _ hn).iff

/-- Along a chain of careful passes the reporting passes are the firing ones. -/
lemma CarefulPasses.reports_iff (hc : CarefulPasses c w) (hk : k ≤ c.infiniteLoopThreshold + 1) :
    Reports c k w w' ↔ Fires c k w w' := by
  induction k generalizing w' with
  | zero => exact Iff.rfl
  | succ k ih =>
      refine passes_succ.trans (Iff.trans ?_ passes_succ.symm)
      refine exists_congr fun b => exists_congr fun w₁ => ?_
      refine (and_congr_left' (ih (by omega))).trans ?_
      refine and_congr_right fun hf => and_congr_right fun hp => ?_
      exact hp.reports_iff fun q hq => hc k (by omega) w₁ b w' q hf hp hq

/-- **The threshold is exact**, where the passes are careful, for just the chains that are not as
long as the threshold. -/
theorem thresholdExact_iff
    (hcareful : ∀ rc w₁, Returned (fun n => pass c n e) w rc w₁ → CarefulPasses c w₁) :
    ThresholdExact c e w ↔ ∀ rc w₁, Returned (fun n => pass c n e) w rc w₁ →
      (∃ w', Fires c c.infiniteLoopThreshold w₁ w') →
        ∃ w', Fires c (c.infiniteLoopThreshold + 1) w₁ w' := by
  refine forall_congr' fun rc => forall_congr' fun w₁ => forall_congr' fun hp => ?_
  have hc := hcareful rc w₁ hp
  simp only [throws_iff hp, returns_iff hp, hc.reports_iff (Nat.le_succ _)]
  constructor
  · exact fun h => h.1.mp
  refine fun h => ⟨⟨h, ?_⟩, fun m hm w₂ b w₃ hf hb hsame => ?_⟩
  · rintro ⟨w', hw'⟩
    obtain ⟨_, w₂, hw₂, -, -⟩ := passes_succ.mp hw'
    exact ⟨w₂, hw₂⟩
  -- the pass after the chain fires nothing, so it reports nothing and ends the loop
  have hrep := hb.reports_iff fun q hq => hc m hm w₂ b w₃ q hf hb hq
  obtain rfl : b = false := by
    by_contra hne
    have := hrep.mp (by simpa using hne)
    omega
  have hlt : m < c.infiniteLoopThreshold := by
    refine lt_of_le_of_ne hm fun heq => ?_
    subst heq
    obtain ⟨w', hw'⟩ := h ⟨w₂, hf⟩
    obtain ⟨_, w₄, hw₄, hp', hfires⟩ := passes_succ.mp hw'
    obtain rfl := hw₄.unique hf
    obtain ⟨-, rfl⟩ := hb.unique hp'
    omega
  exact ⟨w₃, 1, ⟨m, hlt, w₂, (hc.reports_iff (by omega)).mpr hf, hb⟩, false, w₃, hb, trivial, rfl⟩

end Statechart

/-! ### A chain as long as the threshold -/

namespace Countdown

/-- The states of a chart with the path `s → a → b → d`. -/
inductive St where
  | chart | s | a | b | d
  deriving DecidableEq

instance : Fintype St := ⟨{.chart, .s, .a, .b, .d}, fun x => by cases x <;> decide⟩

inductive Tr where
  | begin | go | next
  deriving DecidableEq

instance : Fintype Tr := ⟨{.begin, .go, .next}, fun t => by cases t <;> decide⟩

/-- From `a` the event `go` leads to `b`, which leads on to `d` by itself; one step is allowed. -/
def chart : Chart St Tr Event Unit where
  name := "countdown"
  root := .chart
  ownedStates := [.s, .a, .b, .d]
  ownedTransitions := [.begin, .go, .next]
  kind
    | .chart => .statechart
    | .s => .pseudoState .start
    | _ => .state
  context
    | .chart => none
    | _ => some .chart
  depth
    | .chart => 0
    | _ => 1
  source
    | .begin => .s
    | .go => .a
    | .next => .b
  target
    | .begin => .a
    | .go => .b
    | .next => .d
  event
    | .go => some (.event "go")
    | _ => none
  equals ev e _ _ := ev.equals e
  timeout := Event.timeout
  infiniteLoopThreshold := 1

set_option maxRecDepth 4000 in
/-- **Off by one.** After `start`, the event `go` fires one step and is followed by one more,
the single one the threshold allows, and still the exception is thrown. -/
theorem not_thresholdExact : ∃ o w,
    Returned (fun n => Statechart.start chart n) (World.fresh ()) o w
      ∧ ¬ Statechart.ThresholdExact chart (some (.event "go")) w := by
  refine ⟨_, _, ⟨10, rfl⟩, fun h => ?_⟩
  obtain ⟨-, hend⟩ := h true _ ⟨10, rfl⟩
  -- the chain of the single firing pass, and the pass after it
  obtain ⟨w', -, hret, -⟩ := hend 1 le_rfl _ false _ ⟨true, _, ⟨10, rfl⟩, by decide, rfl⟩
    ⟨10, rfl⟩ rfl
  have heq : Outcome.returned true = .thrown (Statechart.infiniteLoopException chart) :=
    (Returned.unique (Statechart.monotone_dispatch chart _) hret ⟨10, rfl⟩).1
  exact absurd heq (by simp)

/-- The same chart, with two steps allowed. -/
def wider : Chart St Tr Event Unit := 
  { chart with infiniteLoopThreshold := 2, threshold_pos := by decide }

set_option maxRecDepth 4000 in
/-- The one step after `go` is not as many as two. -/
theorem thresholdExact_wider : ∃ o w,
    Returned (fun n => Statechart.start wider n) (World.fresh ()) o w
      ∧ Statechart.ThresholdExact wider (some (.event "go")) w := by
  refine ⟨_, _, ⟨10, rfl⟩, (Statechart.thresholdExact_iff fun rc w₁ hp => ?_).mpr
    fun rc w₁ hp => ?_⟩
  all_goals obtain ⟨-, rfl⟩ := Returned.unique (Statechart.monotone_pass wider _) hp ⟨10, rfl⟩
  · -- one pass from `b` to `d`, and one that does nothing
    rintro (_ | _ | k) - w₂ b w₃ q hf - hq
    · obtain rfl : w₂ = _ := hf
      cases hq
      exact ⟨_, _, 10, rfl⟩
    · obtain ⟨_, _, h₁, -, rfl⟩ := hf
      obtain ⟨-, rfl⟩ := h₁.unique ⟨10, rfl⟩
      cases hq
      exact ⟨_, _, 10, rfl⟩
    · obtain ⟨_, _, h₁, -, _, _, h₂, hlt, -⟩ := hf
      obtain ⟨-, rfl⟩ := h₁.unique ⟨10, rfl⟩
      obtain ⟨-, rfl⟩ := h₂.unique ⟨10, rfl⟩
      exact absurd hlt (by decide)
  · rintro ⟨_, _, _, h₁, -, _, _, h₂, hlt, -⟩
    obtain ⟨-, rfl⟩ := h₁.unique ⟨10, rfl⟩
    obtain ⟨-, rfl⟩ := h₂.unique ⟨10, rfl⟩
    exact absurd hlt (by decide)

end Countdown

end CppStatecharts
