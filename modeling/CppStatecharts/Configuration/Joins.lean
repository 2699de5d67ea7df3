import CppStatecharts.Configuration.Runs

/-!
What a join waits for, and what it leaves.

* `Chart.Synchronises`: a join outside a concurrent state, for states in its regions.
* `Transition.sources_of_execute`: a transition into the join fires only when all its sources are
  active and all its guards hold.
* `Statechart.join_synchronises`: after that, the join is active and the concurrent state is left.
* `Leftover`: a chart where a source of a join stays active.
-/

namespace CppStatecharts

variable {S T E P : Type} [DecidableEq S] {c : Chart S T E P}
variable {w w' : World S T E P} {x j n : S} {t t' : T} {k : ℕ} {b : Bool} {ev : Option E}

/-- A join outside the concurrent state `n` whose transitions come from different regions of `n`. -/
structure Chart.Synchronises (c : Chart S T E P) (j n : S) : Prop where
  join : c.kind j = .pseudoState .join
  concurrent : c.kind n = .concurrentState
  outside : ¬ c.Below j n
  inside : ∀ {t}, t ∈ c.incoming j → ∃ r, c.context r = some n ∧ c.Below (c.source t) r
  distinct : ∀ {t t' r}, t ∈ c.incoming j → t' ∈ c.incoming j → c.context r = some n →
    c.Below (c.source t) r → c.Below (c.source t') r → t = t'

namespace Chart

variable (hj : c.Synchronises j n)

include hj

/-- The way from a region to the join leads out of the concurrent state. -/
lemma Synchronises.branch (ht : t ∈ c.incoming j) :
    c.internal t = false ∧ ∃ m d e u v, c.calculateStateSet (c.source t) j =
      ((d :: u).reverse, e :: v)
      ∧ c.forest.Descends m (d :: u) (c.source t) ∧ c.forest.Descends m (e :: v) j ∧ d ≠ e
      ∧ c.Below n d := by
  obtain ⟨r, hr, hsr⟩ := hj.inside ht
  have hsn : c.Below (c.source t) n := Forest.below_trans hsr (Forest.below_of_parent hr)
  have htj : c.target t = j := (mem_incoming.mp ht).2
  have hsj : ¬ c.Below (c.source t) j := fun hb => by
    have hk : (c.kind j).isContext = false := by rw [hj.join]; rfl
    rw [eq_of_below_of_not_isContext hk hb] at hsn
    exact hj.outside hsn
  have hjs : ¬ c.Below j (c.source t) := fun hb => hj.outside (Forest.below_trans hb hsn)
  have hint : c.internal t = false := by
    cases hi : c.internal t with
    | false => rfl
    | true =>
        rw [← htj, c.internal_target hi] at hsj
        exact absurd (Forest.below_refl _) hsj
  obtain ⟨m, d, e, u, v, hl, hd, he, hde⟩ := calculateStateSet_branch hsj hjs
  refine ⟨hint, m, d, e, u, v, hl, hd, he, hde, ?_⟩
  have hsd := (Forest.Descends.below_head hd d List.mem_cons_self).2
  -- were `d` strictly inside `n`, the join would be inside as well
  rcases Forest.below_total hsd hsn with hdn | hnd
  · by_cases hdn' : d = n
    · exact hdn' ▸ Forest.below_refl _
    · exact absurd (Forest.below_trans he.below (Forest.below_parent hdn hdn' hd.1)) hj.outside
  · exact hnd

/-- The source is the first state to be left. -/
lemma Synchronises.deactivates (ht : t ∈ c.incoming j) :
    ∃ l, c.deactivates t = c.source t :: l := by
  obtain ⟨hint, m, d, e, u, v, hl, hd, -⟩ := hj.branch ht
  obtain ⟨l, hlast⟩ : ∃ l, d :: u = l ++ [c.source t] :=
    ⟨_, (List.dropLast_append_getLast? _ (Forest.Descends.getLast? hd)).symm⟩
  refine ⟨l.reverse, ?_⟩
  simp only [Chart.deactivates, hint, Bool.false_eq_true, ↓reduceIte, (mem_incoming.mp ht).2,
    hl, hlast,
    List.reverse_append, List.reverse_cons, List.reverse_nil, List.nil_append, List.cons_append]

/-- The join is the last state to be entered. -/
lemma Synchronises.activates (ht : t ∈ c.incoming j) : (c.activates t).getLast? = some j := by
  obtain ⟨hint, m, d, e, u, v, hl, -, he, -⟩ := hj.branch ht
  simp only [Chart.activates, hint, Bool.false_eq_true, ↓reduceIte, (mem_incoming.mp ht).2, hl]
  exact Forest.Descends.getLast? he

/-- A join that is ready has all its sources active, and all its guards hold. -/
lemma Synchronises.of_joinReady (h : PseudoState.joinReady c j w = true) (ht : t ∈ c.incoming j) :
    w.data.isActive (c.source t) = true ∧ Transition.guardHolds c t w = true := by
  obtain ⟨l, hl⟩ := hj.deactivates ht
  have hready := List.all_eq_true.mp h t ht
  rw [hl] at hready
  simpa using hready

end Chart

/-! ### The results -/

/-- The look-ahead at a join succeeds only when the join is ready. -/
lemma PseudoState.joinReady_of_lookup {v : Methods S T E P} (hk : c.kind j = .pseudoState .join)
    (h : Returns (PseudoState.lookup c v j) w true w') : PseudoState.joinReady c j w = true := by
  simp only [PseudoState.lookup, hk, decide_true, Bool.true_and, returns_bind, returns_peek,
    returns_ite, Bool.not_eq_true'] at h
  obtain ⟨ready, w₁, ⟨rfl, rfl⟩, ⟨-, h⟩ | ⟨hready, -⟩⟩ := h
  · exact absurd (returns_pure.mp h).1 (by simp)
  · exact Bool.not_eq_false _ ▸ hready

/-- **What a join waits for.** A transition into a join fires only when the sources of all its
transitions are active and all their guards hold. -/
theorem Transition.sources_of_execute (hj : c.Synchronises j n) (ht : t ∈ c.incoming j)
    (he : Returns (Transition.execute c (c.methods k) t ev) w true w') (ht' : t' ∈ c.incoming j) :
    w.data.isActive (c.source t') = true ∧ Transition.guardHolds c t' w = true := by
  rcases (Transition.returns_execute (pure_methods c k)).mp he with ⟨-, -, ha, -⟩ | ⟨hfalse, -⟩
  · refine hj.of_joinReady ?_ ht'
    have hk : (c.kind j).isPseudo = true := by rw [hj.join]; rfl
    have hlook := (Transition.returns_allowed_of_isPseudo (Transition.guardHolds_of_allowed ha)
      (hj.activates ht) hk).mp ha
    cases k with
    | zero => exact absurd hlook (by simp [Chart.methods])
    | succ k => exact PseudoState.joinReady_of_lookup hj.join hlook
  · cases hfalse

/-- After a transition into a join has fired, the join is active, and nothing inside the concurrent
state is, histories apart. -/
lemma Chart.Carried.of_join {a a' : Metadata S} (h : c.Carried t a a') (hj : c.Synchronises j n)
    (ht : t ∈ c.incoming j) : a'.isActive j = true
      ∧ ∀ x, c.Below x n → (c.kind x).isHistory = false → a'.isActive x = false := by
  obtain ⟨hint, m, d, e, u, v, -, hd, he, hde, hnd⟩ := hj.branch ht
  have htj : c.target t = j := (Chart.mem_incoming.mp ht).2
  have hjh : (c.kind (c.target t)).isHistory = false := by
    rw [htj, hj.join]
    rfl
  have hsd := (Forest.Descends.below_head hd d List.mem_cons_self).2
  have hje := (Forest.Descends.below_head he e List.mem_cons_self).2
  refine ⟨htj ▸ h.target hint hjh, fun x hx hk => ?_⟩
  refine h.left hint hjh hd.1 hsd (htj ▸ he.below) (fun hjd => hde ?_) hk
    (Forest.below_trans hx hnd)
  exact Forest.eq_of_below_children (F := c.forest) hd.1 he.1 (htj ▸ hjd) hje

/-- **Joins.** A transition into a join fires only when the sources of all its transitions are
active and all their guards hold; in a run in which no concurrent state is left while it is being
entered, the join is active after that, and nothing inside the concurrent state is, histories
apart. -/
theorem Statechart.join_synchronises (hr : c.Regular) (hj : c.Synchronises j n)
    (ht : t ∈ c.incoming j) :
    (∀ {k ev w w'}, Returns (Transition.execute c (c.methods k) t ev) w true w' →
      ∀ t' ∈ c.incoming j, w.data.isActive (c.source t') = true
        ∧ Transition.guardHolds c t' w = true)
    ∧ ∀ {a : P} {l : List (Call E P)} {w before after},
      Returned (fun k => calls c k l) (World.fresh a) ⟨⟩ w → Obs.Unbroken w.trace →
        .fired t before after ∈ w.trace → after.isActive j = true
          ∧ ∀ x, c.Below x n → (c.kind x).isHistory = false → after.isActive x = false := by
  refine ⟨fun he t' ht' => Transition.sources_of_execute hj ht he ht', fun h hu hfired => ?_⟩
  obtain ⟨k, h⟩ := h
  have hs := calls_settled hr.standard (settled_fresh _) (hr.orderly hu) h
  exact (hs.legal.carried hfired).of_join hj ht

namespace Leftover

/-- A concurrent state `n` with the regions `r1` and `r2`, a state `z` beside it, and a join `j`
that leads to `e`. -/
inductive St where
  | chart | s | n | r1 | s1 | a1 | f1 | r2 | s2 | a2 | b2 | z | j | e
  deriving DecidableEq

instance : Fintype St :=
  ⟨{.chart, .s, .n, .r1, .s1, .a1, .f1, .r2, .s2, .a2, .b2, .z, .j, .e}, fun x =>
    by cases x <;> decide⟩

inductive Tr where
  | begin | stay | finish | leave | enter | back | in1 | in2 | out
  deriving DecidableEq

instance : Fintype Tr :=
  ⟨{.begin, .stay, .finish, .leave, .enter, .back, .in1, .in2, .out}, fun t =>
    by cases t <;> decide⟩

/-- With the parameter set, the default entry of `r1` leads to its final state and then out of `n`
to `z`; from there `n` can be entered again at `b2`. The join waits for `a1` and `a2`. -/
def chart : Chart St Tr Event Bool where
  name := "leftover"
  root := .chart
  ownedStates := [.s, .n, .r1, .s1, .a1, .f1, .r2, .s2, .a2, .b2, .z, .j, .e]
  ownedTransitions := [.begin, .stay, .finish, .leave, .enter, .back, .in1, .in2, .out]
  kind
    | .chart => .statechart
    | .s | .s1 | .s2 => .pseudoState .start
    | .n => .concurrentState
    | .r1 | .r2 => .hierarchicalState
    | .f1 => .finalState
    | .j => .pseudoState .join
    | .a1 | .a2 | .b2 | .z | .e => .state
  context
    | .chart => none
    | .s | .n | .z | .j | .e => some .chart
    | .r1 | .r2 => some .n
    | .s1 | .a1 | .f1 => some .r1
    | .s2 | .a2 | .b2 => some .r2
  depth
    | .chart => 0
    | .s | .n | .z | .j | .e => 1
    | .r1 | .r2 => 2
    | .s1 | .a1 | .f1 | .s2 | .a2 | .b2 => 3
  source
    | .begin => .s
    | .stay | .finish => .s1
    | .leave => .r1
    | .enter => .s2
    | .back => .z
    | .in1 => .a1
    | .in2 => .a2
    | .out => .j
  target
    | .begin => .n
    | .stay => .a1
    | .finish => .f1
    | .leave => .z
    | .enter => .a2
    | .back => .b2
    | .in1 | .in2 => .j
    | .out => .e
  event
    | .back => some (.event "back")
    | _ => none
  guard
    | .stay => some fun _ p => !p
    | _ => none
  equals ev e _ _ := ev.equals e
  timeout := Event.timeout

/-- The calls that leave `n` while it is being entered, and enter it again. -/
def run : List (Call Event Bool) := [.start true, .dispatch (some (.event "back")) false]

lemma regular : chart.Regular := by
  refine ⟨by decide, by decide, by decide, ?_, by decide, fun h => ?_, fun h => ?_, fun h => ?_,
    fun h => ?_⟩
  · intro t _ x r r' hx hr hr' hs ht
    cases x <;> try cases hx
    cases r <;> try cases hr
    all_goals cases r' <;> try first | rfl | cases hr'
    all_goals cases t <;> revert hs ht <;> decide
  all_goals cases h

lemma synchronises : chart.Synchronises .j .n := by
  refine ⟨rfl, rfl, by decide, fun {t} ht => ?_, fun {t t' r} ht ht' hr hs hs' => ?_⟩
  · cases t <;> first
      | exact absurd ht (by decide)
      | exact ⟨.r1, rfl, by decide⟩
      | exact ⟨.r2, rfl, by decide⟩
  · cases r <;> try cases hr
    all_goals cases t <;> first | exact absurd ht (by decide) | exact absurd hs (by decide) | skip
    all_goals cases t' <;> first | exact absurd ht' (by decide) | exact absurd hs' (by decide) | rfl

set_option maxRecDepth 8000 in
/-- **A source that stays.** The first call leaves `n` while it is being entered, and enters `r2`
all the same; once `n` is entered again, the transition from `a1` into the join leaves `a2`
active. -/
theorem not_synchronises : chart.Regular ∧ chart.Synchronises .j .n
    ∧ ∃ w before after, Returned (fun k => Statechart.calls chart k run) (World.fresh true) ⟨⟩ w
      ∧ .fired .in1 before after ∈ w.trace ∧ Tr.in1 ∈ chart.incoming .j ∧ Tr.in2 ∈ chart.incoming .j
      ∧ after.isActive (chart.source .in2) = true :=
  ⟨regular, synchronises, _, _, _, ⟨12, rfl⟩, List.mem_of_getElem? (i := 4) rfl, by decide,
    by decide, rfl⟩

set_option maxRecDepth 8000 in
/-- When nothing is left while it is being entered, the join leaves no source active. -/
theorem synchronises_start : ∃ w before after,
    Returned (fun k => Statechart.calls chart k [.start false]) (World.fresh false) ⟨⟩ w
      ∧ .fired .in1 before after ∈ w.trace ∧ after.isActive .j = true
      ∧ after.isActive .a1 = false ∧ after.isActive .a2 = false := by
  have hj := Statechart.join_synchronises (t := .in1) regular synchronises (by decide)
  obtain ⟨w, b, a, h, hu, hm⟩ : ∃ w b a,
      Returned (fun k => Statechart.calls chart k [.start false]) (World.fresh false) ⟨⟩ w
        ∧ Obs.Unbroken w.trace ∧ .fired .in1 b a ∈ w.trace :=
    ⟨_, _, _, ⟨12, rfl⟩, by decide, List.mem_of_getElem? (i := 4) rfl⟩
  obtain ⟨ha, hn⟩ := hj.2 h hu hm
  exact ⟨w, b, a, h, hm, ha, hn .a1 (by decide) rfl, hn .a2 (by decide) rfl⟩

end Leftover

end CppStatecharts
