import CppStatecharts.Semantics.Trace

/-!
Each transition that fires calls its own action, and no other.

* `Obs.due`: the transition whose action is still to be called; `Chart.Segmented`: a record in which
  every firing is followed by the call of its action before anything else fires.
* `Statechart.concluded_calls`: the record of every run is segmented.
* `Statechart.join_effects`: between the firing of a transition into a join and the next firing, the
  actions of all transitions into the join are called once exactly when the others have none.
* `Silent`: a chart where the action of a transition into a join is never called.
-/

namespace CppStatecharts

variable {S T E P : Type}

/-! ### Firings and their actions -/

/-- The firing of a transition, or the call of its action. -/
def Obs.isSegment : Obs S T → Bool
  | .fire .. | .effect _ => true
  | _ => false

/-- The call of the action of `t`. -/
def Obs.isEffect [DecidableEq T] (t : T) : Obs S T → Bool
  | .effect t' => decide (t' = t)
  | _ => false

/-- The transition that has fired last, if its action is still to be called. -/
def Obs.due (c : Chart S T E P) : List (Obs S T) → Option T
  | [] => none
  | .fire t _ :: _ => if (c.action t).isSome then some t else none
  | .effect _ :: _ => none
  | _ :: l => Obs.due c l

/-- Nothing fires while an action is due, and no other action is called. -/
def Chart.Segmented (c : Chart S T E P) : List (Obs S T) → Prop
  | [] => True
  | .fire _ _ :: l => Obs.due c l = none ∧ c.Segmented l
  | .effect t :: l => Obs.due c l = some t ∧ c.Segmented l
  | _ :: l => c.Segmented l

variable {c : Chart S T E P} {o : Obs S T} {l l' older : List (Obs S T)} {t t' : T} {m : Metadata S}

lemma Obs.due_cons (ho : o.isSegment = false) : Obs.due c (o :: l) = Obs.due c l := by
  cases o <;> first | rfl | cases ho

lemma Chart.segmented_fire : c.Segmented (.fire t m :: l) ↔ Obs.due c l = none
    ∧ c.Segmented l := Iff.rfl

lemma Chart.segmented_effect : c.Segmented (.effect t :: l) ↔ Obs.due c l = some t
    ∧ c.Segmented l :=
  Iff.rfl

lemma Chart.segmented_cons (ho : o.isSegment = false) : c.Segmented (o :: l) ↔ c.Segmented l := by
  cases o <;> first | rfl | cases ho

lemma Obs.due_append (h : ∀ o ∈ l', o.isSegment = false) : Obs.due c (l' ++ l) = Obs.due c l := by
  induction l' with
  | nil => rfl
  | cons o l' ih =>
      rw [List.cons_append, Obs.due_cons (h o List.mem_cons_self)]
      exact ih fun o ho => h o (List.mem_cons_of_mem _ ho)

lemma Chart.segmented_append (h : ∀ o ∈ l', o.isSegment = false) :
    c.Segmented (l' ++ l) ↔ c.Segmented l := by
  induction l' with
  | nil => rfl
  | cons o l' ih =>
      rw [List.cons_append, Chart.segmented_cons (h o List.mem_cons_self)]
      exact ih fun o ho => h o (List.mem_cons_of_mem _ ho)

lemma Chart.Segmented.of_append (h : c.Segmented (l' ++ l)) : c.Segmented l := by
  induction l' with
  | nil => exact h
  | cons o l' ih =>
      refine ih ?_
      cases o <;> first | exact h | exact (show _ ∧ _ from h).2

/-- After the firing of `t`, and as long as no other transition fires that `p` speaks of, only the
action of `t` is called among those, and it is called once if it is not due any more. -/
lemma Chart.Segmented.countP_effect [DecidableEq T] {p : T → Prop} {mid : List (Obs S T)}
    (h : c.Segmented (mid ++ .fire t m :: older)) (hmid : ∀ t' m', .fire t' m' ∈ mid → ¬ p t')
    (hp : p t') :
    mid.countP (Obs.isEffect t') +
      (if Obs.due c (mid ++ .fire t m :: older) = some t' then 1 else 0)
      = if t' = t ∧ (c.action t).isSome = true then 1 else 0 := by
  induction mid with
  | nil =>
      cases ha : (c.action t).isSome
      · simp [Obs.due, ha]
      · simp [Obs.due, ha, eq_comm]
  | cons o mid ih =>
      have hmid' := fun t' m' ho => hmid t' m' (List.mem_cons_of_mem o ho)
      rw [List.cons_append] at h ⊢
      by_cases ho : o.isSegment = true
      · cases o with
        | fire t₁ m₁ =>
            -- nothing was due, and `t₁` is not one of the transitions that count
            obtain ⟨hdue, hseg⟩ := (Chart.segmented_fire (m := m₁)).mp h
            have ht₁ : t₁ ≠ t' := by
              rintro rfl
              exact hmid t₁ m₁ List.mem_cons_self hp
            rw [← ih hseg hmid', hdue]
            cases (c.action t₁).isSome <;> simp [Obs.due, Obs.isEffect, *]
        | effect t₁ =>
            obtain ⟨hdue, hseg⟩ := Chart.segmented_effect.mp h
            rw [← ih hseg hmid', hdue]
            by_cases ht₁ : t₁ = t'
            · simp [Obs.due, Obs.isEffect, ht₁]
            · simp [Obs.due, Obs.isEffect, ht₁]
        | _ => cases ho
      · have ho := Bool.not_eq_true _ ▸ ho
        have heffect : Obs.isEffect t' o = false := by
          cases o <;> first | rfl | cases ho
        rw [← ih ((Chart.segmented_cons ho).mp h) hmid', Obs.due_cons ho, List.countP_cons, heffect]
        rfl

/-! ### The record of a run -/

variable [DecidableEq S] {w w' : World S T E P} {k : ℕ} {e : Option E} {b : Bool}

/-- The record is segmented, and no action is due. -/
def Chart.Concluded (c : Chart S T E P) (w : World S T E P) : Prop :=
  c.Segmented w.trace ∧ Obs.due c w.trace = none

omit [DecidableEq S] in
lemma Chart.Concluded.of_adds (h : c.Concluded w) (ha : w.Adds (·.isSegment = false) w') :
    c.Concluded w' := by
  obtain ⟨l, hl, hseg⟩ := ha
  rw [Chart.Concluded, hl, Chart.segmented_append hseg, Obs.due_append hseg]
  exact h

variable (c) in
/-- While no transition fires, no action of a transition is called either. -/
lemma steady_unsegmented : Steady c Set.univ (World.Adds (·.isSegment = false)) :=
  steady_adds trivial (fun _ _ _ => rfl) fun o ho => by cases o <;> simp_all [Obs.isSegment]

variable (c) in
/-- Apart from firings, nothing matters. -/
lemma steady_concluded : Steady c Set.univ fun w w' => c.Concluded w → c.Concluded w' := by
  have h := steady_unsegmented c
  exact {
    null := trivial
    refl := fun _ => id
    trans := fun h h' => h' ∘ h
    fallThrough := fun s w e he hw => hw.of_adds (h.fallThrough s w e he)
    bracket := fun n w w' hw' hw =>
      (hw' (hw.of_adds (World.Adds.of_cons rfl rfl))).of_adds (World.Adds.of_cons rfl rfl)
    entry := fun s w hw => hw.of_adds (h.entry s w)
    doing := fun s w hw => hw.of_adds (h.doing s w)
    exit := fun s w hw => hw.of_adds (h.exit s w)
    activateData := fun s w hs hw => hw.of_adds (h.activateData s w hs)
    arrive := fun s w hs hi hw => hw.of_adds (h.arrive s w hs hi)
    leave := fun s w ha hw => hw.of_adds (h.leave s w ha)
    registerRegion := fun n r w hn hw => hw.of_adds (h.registerRegion n r w hn)
    clearStateset := fun n w hn hw => hw.of_adds (h.clearStateset n w hn)
    clearCurrent := fun s w hs hw => hw.of_adds (h.clearCurrent s w hs)
    storeHistory := fun s q w w' hq hs hr hw => hw.of_adds (h.storeHistory s q w w' hq hs hr) }

/-- A transition that fires leaves its source, calls its action and then enters its target. -/
lemma Transition.keeps_concluded
    (hv : (c.methods k).Keep Set.univ fun w w' => c.Concluded w → c.Concluded w') :
    Keeps (fun w w' => c.Concluded w → c.Concluded w')
      (Transition.execute c (c.methods k) t e) := by
  intro w b w' hx hw
  rcases (Transition.returns_execute (pure_methods c k)).mp hx with ⟨-, -, -, hf⟩ | ⟨-, rfl, -⟩
  · obtain ⟨w₁, w₂, h₁, h₂, rfl⟩ := Transition.returns_fire.mp hf
    obtain ⟨l, hl, hexits⟩ : (w.log (.fire t w.data)).Adds (·.isSegment = false) w₁ :=
      keeps_forM (fun s _ => (steady_unsegmented c).deactivate k s) _ _ _ h₁
    have hseg : c.Segmented w₁.trace := by
      rw [hl, Chart.segmented_append hexits]
      exact ⟨hw.2, hw.1⟩
    have hdue : Obs.due c w₁.trace = if (c.action t).isSome then some t else none := by
      rw [hl, Obs.due_append hexits]
      rfl
    have heffect : c.Concluded (w₁.perform (.effect t) (c.action t)) := by
      cases ha : c.action t with
      | none => exact ⟨hseg, by rw [World.perform, hdue, ha]; rfl⟩
      | some f => exact ⟨⟨by rw [hdue, ha]; rfl, hseg⟩, rfl⟩
    have hentries := (steady_concluded c).activateAll hv.toEnter _ _ _ _ h₂ heffect
    exact hentries.of_adds (World.Adds.of_cons rfl rfl)
  · exact hw

namespace Statechart

/-- In every run, a firing is followed by the call of its action before anything else fires. -/
lemma concluded_calls {l : List (Call E P)} {a : P} {u : PUnit}
    (h : Returns (calls c k l) (World.fresh a) u w) : c.Concluded w := by
  have hkeep : ∀ k, (c.methods k).Keep Set.univ fun w w' => c.Concluded w → c.Concluded w' :=
    (steady_concluded c).methods fun k hv t e _ => Transition.keeps_concluded hv
  refine (steady_concluded c).calls (hkeep k).toEnter Set.mem_univ (fun _ _ hw => hw)
    (fun w hw => ?_) l _ _ _ h
    ⟨trivial, rfl⟩
  have henter : w.Adds (·.isSegment = false) (enter c w) := by
    unfold enter
    split
    · exact ⟨[.activated c.root, .reset], rfl, by simp [Obs.isSegment]⟩
    · exact ⟨[.activated _, .activated c.root, .reset], rfl, by simp [Obs.isSegment]⟩
  exact hw.of_adds henter

variable [DecidableEq T] {j : S} {t₂ : T} {m₁ m₂ : Metadata S} {newer mid : List (Obs S T)}

/-- **The actions on the way into a join.** From the firing of a transition `t`, which leads into
the join, up to a later firing, of a transition that leaves the join for instance, with no other
transition into the join in between, the actions of all transitions into the join are called exactly
once if and only if none of them but `t` has an action. -/
theorem join_effects {l : List (Call E P)} {a : P}
    (h : Returned (fun k => calls c k l) (World.fresh a) ⟨⟩ w)
    (hw : w.trace = newer ++ .fire t₂ m₂ :: (mid ++ .fire t m₁ :: older))
    (hmid : ∀ t' m, .fire t' m ∈ mid → t' ∉ c.incoming j) :
    (∀ t' ∈ c.incoming j, (c.action t').isSome = true → mid.countP (Obs.isEffect t') = 1)
      ↔ ∀ t' ∈ c.incoming j, t' ≠ t → c.action t' = none := by
  obtain ⟨k, h⟩ := h
  have hseg := (concluded_calls h).1
  rw [hw] at hseg
  obtain ⟨hdue, hseg⟩ := Chart.segmented_fire.mp hseg.of_append
  have hcount : ∀ t' ∈ c.incoming j,
      mid.countP (Obs.isEffect t') = if t' = t ∧ (c.action t).isSome = true then 1 else 0 := by
    intro t' ht'
    rw [← hseg.countP_effect hmid ht', hdue]
    rfl
  constructor
  · intro hall t' ht' hne
    by_contra ha
    have honce := hall t' ht' (Option.isSome_iff_ne_none.mpr ha)
    rw [hcount t' ht', if_neg fun h => hne h.1] at honce
    cases honce
  · intro hnone t' ht' ha
    by_cases hne : t' = t
    · rw [hcount t' ht', if_pos ⟨hne, hne ▸ ha⟩]
    · rw [hnone t' ht' hne] at ha
      cases ha

end Statechart

namespace Silent

/-- A concurrent state `n` with the regions `r1` and `r2`, and a join `j` that leads to `e`. -/
inductive St where
  | chart | s | n | r1 | s1 | a1 | r2 | s2 | a2 | j | e
  deriving DecidableEq

instance : Fintype St :=
  ⟨{.chart, .s, .n, .r1, .s1, .a1, .r2, .s2, .a2, .j, .e}, fun x => by cases x <;> decide⟩

inductive Tr where
  | begin | enter1 | enter2 | in1 | in2 | out
  deriving DecidableEq

instance : Fintype Tr :=
  ⟨{.begin, .enter1, .enter2, .in1, .in2, .out}, fun t => by cases t <;> decide⟩

/-- The join waits for `a1` and `a2`; the transition from `a1` has an action, and the one from `a2`
has one if `both` is set. -/
def chart (both : Bool) : Chart St Tr Event Unit where
  name := "silent"
  root := .chart
  ownedStates := [.s, .n, .r1, .s1, .a1, .r2, .s2, .a2, .j, .e]
  ownedTransitions := [.begin, .enter1, .enter2, .in1, .in2, .out]
  kind
    | .chart => .statechart
    | .s | .s1 | .s2 => .pseudoState .start
    | .n => .concurrentState
    | .r1 | .r2 => .hierarchicalState
    | .j => .pseudoState .join
    | .a1 | .a2 | .e => .state
  context
    | .chart => none
    | .s | .n | .j | .e => some .chart
    | .r1 | .r2 => some .n
    | .s1 | .a1 => some .r1
    | .s2 | .a2 => some .r2
  depth
    | .chart => 0
    | .s | .n | .j | .e => 1
    | .r1 | .r2 => 2
    | .s1 | .a1 | .s2 | .a2 => 3
  source
    | .begin => .s
    | .enter1 => .s1
    | .enter2 => .s2
    | .in1 => .a1
    | .in2 => .a2
    | .out => .j
  target
    | .begin => .n
    | .enter1 => .a1
    | .enter2 => .a2
    | .in1 | .in2 => .j
    | .out => .e
  action
    | .in1 => some fun m p => (m, p)
    | .in2 => if both then some fun m p => (m, p) else none
    | _ => none
  equals ev e _ _ := ev.equals e
  timeout := Event.timeout

set_option maxRecDepth 4000 in
/-- **An action that is never called.** The transition from `a1` leads into the join, and the join
is left, but the action of the transition from `a2` is not called. -/
theorem not_called : (chart true).kind .j = .pseudoState .join
    ∧ ∃ w newer mid older m₁ m₂,
      Returned (fun k => Statechart.calls (chart true) k [.start ()]) (World.fresh ()) ⟨⟩ w
        ∧ w.trace = newer ++ .fire .out m₂ :: (mid ++ .fire .in1 m₁ :: older)
        ∧ (chart true).source .out = .j ∧ Tr.in2 ∈ (chart true).incoming .j
        ∧ ((chart true).action .in2).isSome = true ∧ mid.countP (Obs.isEffect .in2) = 0 :=
  ⟨rfl, _, [_, _, _], [_, _, _, _, _, _, _, _], _, _, _, ⟨12, rfl⟩, rfl, rfl, by decide, rfl, rfl⟩

set_option maxRecDepth 4000 in
/-- Without the second action, the run does what the join promises. -/
theorem effects_start : ∃ w newer mid older m₁ m₂,
    Returned (fun k => Statechart.calls (chart false) k [.start ()]) (World.fresh ()) ⟨⟩ w
      ∧ w.trace = newer ++ .fire .out m₂ :: (mid ++ .fire .in1 m₁ :: older)
      ∧ ∀ t' ∈ (chart false).incoming .j, ((chart false).action t').isSome = true →
          mid.countP (Obs.isEffect t') = 1 := by
  obtain ⟨w, newer, mid, older, m₁, m₂, h, hw, hmid⟩ : ∃ w newer mid older m₁ m₂,
      Returned (fun k => Statechart.calls (chart false) k [.start ()]) (World.fresh ()) ⟨⟩ w
        ∧ w.trace = newer ++ .fire .out m₂ :: (mid ++ .fire .in1 m₁ :: older)
        ∧ ∀ t' m, .fire t' m ∈ mid → t' ∉ (chart false).incoming .j :=
    ⟨_, [_, _, _], [_, _, _, _, _, _, _, _], _, _, _, ⟨12, rfl⟩, rfl, by simp⟩
  refine ⟨w, newer, mid, older, m₁, m₂, h, hw, (Statechart.join_effects h hw hmid).mpr ?_⟩
  decide

end Silent

end CppStatecharts
