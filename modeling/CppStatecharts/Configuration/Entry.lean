import CppStatecharts.Configuration.Legal

/-!
Entering states.

* `Chart.Inside`: a change of the configuration, and of the sets, inside one state.
* `Chart.Entered`: what the entry of a state makes of a legal configuration; `Chart.Activates v`
  says that the method `activate` does so.
* `State.activate_entered`, `PseudoState.activate_entered`: the entry of a state that is not
  concurrent, with the states a history restores.
* `activateAll_entered`: the loop of `Transition::execute` over the entry list.
-/

namespace CppStatecharts

variable {S T E P : Type} [DecidableEq S] {c : Chart S T E P} {v : Methods S T E P}
variable {w w₁ w₂ w' : World S T E P} {s x y p q : S} {r : Option S} {b : Bool} {u : PUnit}

namespace Chart

/-- Outside `s`, the change leaves the active states and the sets alone, and the current states but
for the one of its context. -/
def Inside (c : Chart S T E P) (s : S) (w w' : World S T E P) : Prop :=
  ∀ x, ¬ c.Below x s → w'.data.isActive x = w.data.isActive x
    ∧ w'.data.stateset x = w.data.stateset x
    ∧ (c.context s ≠ some x → w'.data.current x = w.data.current x)

omit [DecidableEq S] in
lemma Inside.trans (h : c.Inside s w w₁) (h' : c.Inside s w₁ w') : c.Inside s w w' := fun x hx =>
  ⟨(h' x hx).1.trans (h x hx).1, (h' x hx).2.1.trans (h x hx).2.1,
    fun hs => ((h' x hx).2.2 hs).trans ((h x hx).2.2 hs)⟩

omit [DecidableEq S] in
lemma Inside.mono (h : c.Inside q w w') (hq : c.Below q s) : c.Inside s w w' := by
  intro x hx
  obtain ⟨ha, hset, hcur⟩ := h x fun hb => hx (Forest.below_trans hb hq)
  refine ⟨ha, hset, fun hs => hcur fun hqx => ?_⟩
  -- the context of `q` is inside `s`, or that of `s`
  by_cases hqs : q = s
  · exact hs (hqs ▸ hqx)
  · exact hx (Forest.below_parent (F := c.forest) hq hqs hqx)

omit [DecidableEq S] in
lemma Inside.of_data (h : w'.data = w.data) : c.Inside s w w' := fun _ _ => by
  rw [h]
  exact ⟨rfl, rfl, fun _ => rfl⟩

lemma Fades.to_inside (h : c.Fades s w w') : c.Inside s w w' := fun _ hx =>
  ⟨(h.frame hx).1, (h.frame hx).2.2, fun _ => (h.frame hx).2.1⟩

/-- Only `s` becomes active, and no set changes. -/
lemma Inside.of_active (ha : ∀ x, w'.data.isActive x = (decide (x = s) || w.data.isActive x))
    (hset : ∀ x, w'.data.stateset x = w.data.stateset x)
    (hcur : ∀ x, w'.data.current x = (c.activateData s w).data.current x) : c.Inside s w w' := by
  intro x hx
  have hne : x ≠ s := fun h => hx (h ▸ Forest.below_refl _)
  rw [ha, hset]
  refine ⟨by simp [hne], rfl, fun hs => ?_⟩
  rw [hcur, data_activateData]
  cases hp : c.context s with
  | none => rw [Metadata.current_activate_none, if_neg hne]
  | some p =>
      rw [Metadata.current_activate fun h => Forest.ne_of_parent (F := c.forest) hp h.symm,
        if_neg hne, if_neg]
      rintro ⟨rfl, -⟩
      exact hs hp

/-- Nothing is active inside a state that is not. -/
lemma Coherent.inactive_child (h : c.Coherent w) (hs : w.data.isActive s = false)
    (hx : c.context x = some s) (hk : (c.kind x).isHistory = false) :
    w.data.isActive x = false := by
  by_contra ha
  rw [h.upward hk (by simpa using ha) hx] at hs
  cases hs

/-- Without a current state, nothing is active inside. -/
lemma Coherent.inactive_of_current (h : c.Coherent w) (hs : c.kind s ≠ .concurrentState)
    (hcur : w.data.current s = none) (hx : c.context x = some s)
    (hk : (c.kind x).isHistory = false) : w.data.isActive x = false := by
  by_contra ha
  rw [h.single hk (by simpa using ha) hx hs] at hcur
  cases hcur

omit [DecidableEq S] in
lemma Enterable.of_active (h : c.Enterable p s w)
    (ha : ∀ x, w'.data.isActive x = w.data.isActive x) : c.Enterable p s w' := by
  refine ⟨h.context, (ha p).trans h.parent, fun hk hy hyk hya => ?_, fun hk => ?_⟩
  · rw [ha] at hya
    exact h.vacant hk hy hyk hya
  · rw [ha]
    exact h.fresh hk

omit [DecidableEq S] in
/-- Nothing is active beside the state that is entered. -/
lemma Enterable.of_vacant (hs : c.context s = some p) (ha : w.data.isActive p = true)
    (hv : ∀ y, c.context y = some p → (c.kind y).isHistory = false → w.data.isActive y = false) :
    c.Enterable p s w := by
  refine ⟨hs, ha, fun _ hy hyk hya => ?_, fun hk => ?_⟩
  · rw [hv _ hy hyk] at hya
    cases hya
  · exact hv s hs (StateKind.isHistory_eq_false_of_isPseudo hk)

/-! ### Arriving -/

/-- The world after the arrival of `s`, whatever marks are added. -/
lemma Legal.arrive (hc : c.ActionsKeepData) (h : c.Legal (some s) w) (he : c.Enterable p s w)
    (hk : (c.kind s).isPseudo = false) (hd : w'.data = (c.greet s (c.arrive s w)).data)
    (hrec : c.Recorded w') (hext : w.Extends w')
    (hin : ∀ n, Obs.inProgress n w'.trace → Obs.inProgress n w.trace
      ∨ n = s ∧ c.kind s = .concurrentState)
    (hkeep : ∀ n, Obs.inProgress n w.trace → Obs.inProgress n w'.trace)
    (hself : c.kind s = .concurrentState → Obs.inProgress s w'.trace) : c.Legal none w' := by
  have hdata : w'.data = (c.arrive s w).data := hd.trans hc.data_greet
  refine h.enter he ?_ hrec hext (fun x => ?_) (fun x => ?_) (fun x hx => ?_) hin hkeep hself
  · rw [hdata]
    exact (compatible_links hc).arrive s w hk (he.fresh hk) h.links
  · rw [hdata, isActive_arrive]
  · rw [hdata, current_arrive, current_activateData he.context]
  · rw [hdata, hasData_arrive]
    simp [hx]

lemma level_greet (hk : (c.kind s).isPseudo = false) (hi : w.data.isActive s = false) :
    w.Level (c.greet s (c.arrive s w)) :=
  ((compatible_level (c := c)).arrive s w hk hi).trans ((compatible_level (c := c)).greet s _)

lemma extends_greet (hk : (c.kind s).isPseudo = false) (hi : w.data.isActive s = false) :
    w.Extends (c.greet s (c.arrive s w)) :=
  ((compatible_extends c).arrive s w hk hi).trans ((compatible_extends c).greet s _)

/-- A pseudo-state is entered. -/
lemma Legal.visit (hc : c.ActionsKeepData) (h : c.Legal (some s) w) (he : c.Enterable p s w)
    (hk : (c.kind s).isPseudo = true) : c.Legal none (c.visit s w) := by
  have hdata : (c.visit s w).data = (c.activateData s w).data := hc.data_entry
  have hlevel : ∀ n, Obs.inProgress n (c.visit s w).trace ↔ Obs.inProgress n w.trace := fun n =>
    (((compatible_level (c := c)).activateData s w hk).trans
      ((compatible_level (c := c)).entry s _)).inProgress
  have hext := (compatible_extends c).trans ((compatible_extends c).activateData s w hk)
    ((compatible_extends c).entry s _)
  refine h.enter he ?_ (h.toRecorded.visit hc hk) hext (fun x => ?_) (fun x => ?_) (fun x hx => ?_)
    (fun n hn => Or.inl ((hlevel n).mp hn)) (fun n => (hlevel n).mpr) fun hs => ?_
  · rw [hdata]
    exact (compatible_links hc).activateData s w hk h.links
  · rw [hdata, data_activateData, Metadata.isActive_activate]
  · rw [hdata, current_activateData he.context]
  · rw [hdata, data_activateData, Metadata.hasData_activate]
    simp [hx]
  · rw [hs] at hk
    cases hk

/-- The record of a pseudo-state is made before it is entered. -/
lemma Legal.activateData (hc : c.ActionsKeepData) (h : c.Legal (some s) w)
    (he : c.Enterable p s w) (hk : (c.kind s).isPseudo = true) :
    c.Legal none (c.activateData s w) := by
  have hlevel : ∀ n, Obs.inProgress n (c.activateData s w).trace ↔ Obs.inProgress n w.trace :=
    fun n => ((compatible_level (c := c)).activateData s w hk).inProgress
  have hrec : c.Recorded (c.activateData s w) := by
    refine ⟨fun x hx => (h.told x hx).activated (by simp) rfl, h.nests,
      fun x q hx hq he he' => ?_, h.carried_of_adds (World.Adds.of_cons rfl (by simp))⟩
    have hxs : x ≠ s := by
      rintro rfl
      rw [hk] at hx
      cases hx
    rw [data_activateData, Metadata.isActive_activate, ← h.matched x q hx hq he he']
    simp [hxs]
    rfl
  refine h.enter he ?_ hrec ((compatible_extends c).activateData s w hk) (fun x => ?_) (fun x => ?_)
    (fun x hx => ?_) (fun n hn => Or.inl ((hlevel n).mp hn)) (fun n => (hlevel n).mpr) fun hs => ?_
  · exact (compatible_links hc).activateData s w hk h.links
  · rw [data_activateData, Metadata.isActive_activate]
  · rw [current_activateData he.context]
  · rw [data_activateData, Metadata.hasData_activate]
    simp [hx]
  · rw [hs] at hk
    cases hk

/-! ### The entry of a state -/

/-- What the entry of `s`, inside `p`, makes of a configuration that is legal but for `s`; in a
concurrent state, the region `r` is left to be entered next. -/
structure Entered (c : Chart S T E P) (p s : S) (r : Option S) (w w' : World S T E P) : Prop where
  legal : c.Legal r w'
  parent : w'.data.isActive p = true
  inside : c.Inside p w w'
  active : (c.kind s).isHistory = false → w'.data.isActive s = true ∧ c.Inside s w w'
  empty : c.kind s = .hierarchicalState → w'.data.current s = none
  pending : ∀ y ∈ r, w'.data.isActive y = w.data.isActive y
  recovers : c.Recovers s w'.data

/-- The regions of `s` registered so far: just `r`, if anything. -/
structure Registered (c : Chart S T E P) (s : S) (r : Option S) (w : World S T E P) : Prop where
  stateset : c.kind s = .concurrentState → w.data.stateset s = r.toList
  region : ∀ y ∈ r, c.kind s = .concurrentState ∧ c.context y = some s

/-- The method `activate` enters states. -/
def Activates (c : Chart S T E P) (v : Methods S T E P) : Prop := ∀ {p s r w b w'},
  c.Legal (some s) w → c.Enterable p s w → c.Registered s r w → c.Orderly w'.trace →
    Returns (v.activate s) w b w' → c.Entered p s r w w'

omit [DecidableEq S] in
lemma Recovers.of_not {m : Metadata S} (hs : (c.kind s).isHistory = false) : c.Recovers s m := by
  intro h
  rw [hs] at h
  cases h

omit [DecidableEq S] in
lemma Registered.eq_none (h : c.Registered s r w) (hs : c.kind s ≠ .concurrentState) : r =
    none := by
  cases r with
  | none => rfl
  | some y => exact absurd (h.region y rfl).1 hs

omit [DecidableEq S] in
lemma Registered.none (hs : c.kind s = .concurrentState → w.data.stateset s = []) :
    c.Registered s none w := ⟨hs, fun _ h => by cases h⟩

end Chart

open Chart

lemma State.activate_entered (hc : c.ActionsKeepData) (h : c.Legal (some s) w)
    (he : c.Enterable p s w) (hr : c.Registered s r w) (hk : (c.kind s).isPseudo = false)
    (hs : c.kind s ≠ .concurrentState) (ha : Returns (State.activate c s) w b w') :
    c.Entered p s r w w' := by
  have hi := he.fresh hk
  obtain ⟨hact, -⟩ | ⟨-, -, rfl⟩ := State.returns_activate.mp ha
  · rw [hi] at hact
    cases hact
  obtain rfl := hr.eq_none hs
  have hlevel : ∀ n, Obs.inProgress n (c.greet s (c.arrive s w)).trace ↔ Obs.inProgress n w.trace :=
    fun n => (level_greet hk hi).inProgress
  have hlegal : c.Legal none (c.greet s (c.arrive s w)) :=
    h.arrive hc he hk rfl (h.toRecorded.greet hc hk he.context he.parent hi) (extends_greet hk hi)
      (fun n hn => Or.inl ((hlevel n).mp hn)) (fun n => (hlevel n).mpr) fun hn => absurd hn hs
  have hactive : ∀ x, (c.greet s (c.arrive s w)).data.isActive x
      = (decide (x = s) || w.data.isActive x) := fun x => by rw [hc.data_greet, isActive_arrive]
  have hin : c.Inside s w (c.greet s (c.arrive s w)) :=
    Inside.of_active hactive (fun x => by rw [hc.data_greet, stateset_arrive])
      fun x => by rw [hc.data_greet, current_arrive]
  refine ⟨hlegal, ?_, hin.mono (Forest.below_of_parent he.context), fun _ => ⟨?_, hin⟩, fun _ => ?_,
    by simp, .of_not (StateKind.isHistory_eq_false_of_isPseudo hk)⟩
  · rw [hactive, he.parent, Bool.or_true]
  · simp [hactive]
  · rw [hc.data_greet, current_arrive, current_activateData he.context, if_pos rfl]

/-! ### Histories -/

/-- Without an active child, nothing is restored. -/
lemma Chart.Coherent.regained_nil (h : c.Coherent w)
    (hvac : ∀ y, c.context y = some p → (c.kind y).isHistory = false → w.data.isActive y = false) :
    c.Regained p [] w.data where
  active _ hq := by cases hq
  only _ _ hx hb hne ha := by
    rw [h.inactive_of_children (fun y hk hy => hvac y hy hk) hx hb hne] at ha
    cases ha

/-- An active state inside `p` is the active child `q` of `p` or lies inside of it. -/
lemma Chart.Coherent.eq_or_below (h : c.Coherent w) (hp : c.kind p ≠ .concurrentState)
    (hq : c.context q = some p) (hk : (c.kind q).isHistory = false)
    (ha : w.data.isActive q = true) (hx : (c.kind x).isHistory = false) (hb : c.Below x p)
    (hne : x ≠ p) (hxa : w.data.isActive x = true) : x = q ∨ c.Below x q ∧ x ≠ q := by
  obtain ⟨y, hy, hxy, hyk⟩ := exists_child hx hb hne
  have hya := h.active_of_below hx hxa hxy
  obtain rfl := Option.some.inj ((h.single hyk hya hy hp).symm.trans (h.single hk ha hq hp))
  exact (eq_or_ne x y).imp id fun hxy' => ⟨hxy, hxy'⟩

/-- The last state of a way has been entered. -/
lemma Chart.Entered.regained_single (h : c.Entered p q none w w')
    (hp : c.kind p ≠ .concurrentState) (hq : c.context q = some p) :
    c.Regained p [q] w'.data where
  active y hy hk := by
    obtain rfl := List.mem_singleton.mp hy
    exact (h.active hk).1
  only hset x hx hb hne ha := by
    by_cases hk : (c.kind q).isHistory = true
    · -- another history, with nothing to restore
      have hback := (h.recovers hk p hq).only
      rw [hset q (List.mem_singleton_self q) hk] at hback
      simpa using hback (by simp) hx hb hne ha
    rw [Bool.not_eq_true] at hk
    rcases h.legal.eq_or_below hp hq hk (h.active hk).1 hx hb hne ha with rfl | ⟨hxq, hxne⟩
    · exact Or.inl (List.mem_singleton_self x)
    obtain ⟨y, hy, hxy, hyk⟩ := exists_child hx hxq hxne
    by_cases hc : c.kind q = .concurrentState
    · exact Or.inr ⟨q, List.mem_singleton_self q, hc, hxq⟩
    -- a state that is not concurrent is entered empty
    have hroot : c.kind q ≠ .statechart := fun hs =>
      ne_root_of_context hq ((c.kind_statechart q).mp hs)
    have hcon := c.context_kind hy
    have hhier : c.kind q = .hierarchicalState := by
      cases hkq : c.kind q <;> simp_all [StateKind.isContext]
    have hya := h.legal.active_of_below hx ha hxy
    rw [h.legal.inactive_of_current hc (h.empty hhier) hy hyk] at hya
    cases hya

/-- A way down goes on below its first state. -/
lemma Chart.Regained.cons {l : List S} (h : c.Regained q l w.data) (hw : c.Coherent w)
    (hp : c.kind p ≠ .concurrentState) (hq : c.context q = some p)
    (hk : (c.kind q).isHistory = false) (ha : w.data.isActive q = true) :
    c.Regained p (q :: l) w.data where
  active y hy hyk := by
    rcases List.mem_cons.mp hy with rfl | hy
    · exact ha
    · exact h.active y hy hyk
  only hset x hx hb hne hxa := by
    rcases hw.eq_or_below hp hq hk ha hx hb hne hxa with rfl | ⟨hxq, hxne⟩
    · exact Or.inl List.mem_cons_self
    · exact (h.only (fun y hy => hset y (List.mem_cons_of_mem q hy)) hx hxq hxne hxa).imp
        (List.mem_cons_of_mem q) fun ⟨y, hy, hyc⟩ => ⟨y, List.mem_cons_of_mem q hy, hyc⟩

/-- The loop of a history over the states it has stored, from a state `p` on with nothing active
inside. -/
lemma PseudoState.restore_entered (hv : c.Activates v) (hext : v.Keep Set.univ World.Extends)
    {l : List S}
    (hl : c.forest.Descends p l x) (hin : ∀ q ∈ l.dropLast, c.kind q = .hierarchicalState)
    (hpk : c.kind p ≠ .concurrentState) (h : c.Legal none w) (hp : w.data.isActive p = true)
    (hvac : ∀ y, c.context y = some p → (c.kind y).isHistory = false → w.data.isActive y = false)
    (hu : c.Orderly w'.trace)
    (hr : Returns (l.forM fun q => do let _ ← v.activate q) w u w') :
    c.Legal none w' ∧ w'.data.isActive p = true ∧ c.Inside p w w'
      ∧ (∀ q ∈ l.head?, (c.kind q).isHistory = false → c.Inside q w w')
      ∧ c.Regained p l w'.data := by
  induction l generalizing p w with
  | nil =>
      rw [returns_forM_nil.mp hr]
      exact ⟨h, hp, Inside.of_data rfl, by simp, h.regained_nil hvac⟩
  | cons q l ih =>
      obtain ⟨w₁, h₁, h₂⟩ := returns_forM_cons.mp hr
      obtain ⟨b, w₂, h₁, h₃⟩ := returns_bind.mp h₁
      obtain ⟨-, rfl⟩ := returns_pure.mp h₃
      have hu₁ : c.Orderly w₁.trace := hu.of_extends <|
        keeps_forM (fun q _ => keeps_bind (hext.activate q) fun _ => keeps_pure _) _ _ _ h₂
      have hqp : c.context q = some p := hl.1
      have hclear : c.kind q = .concurrentState → w.data.stateset q = [] := fun hk =>
        Metadata.stateset_of_hasData_eq_false (h.clear hk (hvac q hqp (by rw [hk]; rfl)) (by simp))
      have hent := hv h.mono (.of_vacant hqp hp hvac) (.none hclear) hu₁ h₁
      cases l with
      | nil =>
          rw [returns_forM_nil.mp h₂]
          exact ⟨hent.legal, hent.parent, hent.inside, by simpa using fun hk => (hent.active hk).2,
            hent.regained_single hpk hqp⟩
      | cons q' l =>
          -- a state above the last one is hierarchical, and still empty
          have hk : c.kind q = .hierarchicalState := hin q (by simp)
          have hqk : (c.kind q).isHistory = false := by rw [hk]; rfl
          obtain ⟨hlegal, hqa, hin', -, hres⟩ := ih hl.2
            (fun y hy => hin y (List.mem_cons_of_mem q hy))
            (by rw [hk]; decide) hent.legal (hent.active hqk).1
            (fun y hy hyk => hent.legal.inactive_of_current (by rw [hk]; decide)
              (hent.empty hk) hy hyk)
            h₂
          exact ⟨hlegal, hlegal.upward hqk hqa hqp,
            hent.inside.trans (hin'.mono (Forest.below_of_parent hqp)),
            by simpa using fun _ => (hent.active hqk).2.trans hin',
            hres.cons hlegal.toCoherent hpk hqp hqk hqa⟩

lemma PseudoState.activate_entered (hc : c.ActionsKeepData) (hv : c.Activates v)
    (hext : v.Keep Set.univ World.Extends) (h : c.Legal (some s) w) (he : c.Enterable p s w)
    (hr : c.Registered s r w) (hk : (c.kind s).isPseudo = true) (hu : c.Orderly w'.trace)
    (ha : Returns (PseudoState.activate c v s) w b w') : c.Entered p s r w w' := by
  obtain rfl := hr.eq_none fun hs => by rw [hs] at hk; cases hk
  have hactive : ∀ x, (c.visit s w).data.isActive x = (decide (x = s) || w.data.isActive x) := by
    intro x
    rw [Chart.visit, hc.data_entry, data_activateData, Metadata.isActive_activate]
  have hin : c.Inside s w (c.visit s w) := Inside.of_active hactive
    (fun x => by rw [Chart.visit, hc.data_entry, data_activateData, Metadata.stateset_activate])
    fun x => by rw [hc.data_visit]
  have hp : (c.visit s w).data.isActive p = true := by rw [hactive, he.parent, Bool.or_true]
  have hbelow : c.Below s p := Forest.below_of_parent he.context
  have hhier : c.kind s ≠ .hierarchicalState := fun hs => by rw [hs] at hk; cases hk
  have hlegal := h.visit hc he hk
  rcases (PseudoState.returns_activate.mp ha).2 with ⟨hh, ha⟩ | ⟨-, hs, ha⟩ | ⟨hh, -, rfl⟩
  · -- nothing but the history is active in its context
    have hvac : ∀ y, c.context y = some p → (c.kind y).isHistory = false →
        (c.visit s w).data.isActive y = false := by
      intro y hy hyk
      have hys : y ≠ s := by
        rintro rfl
        rw [hh] at hyk
        cases hyk
      rw [hactive]
      by_contra hya
      refine hys (he.vacant ?_ hy hyk (by simpa [hys] using hya))
      rw [c.history_context hh he.context]
      decide
    obtain ⟨hl, hinner, hhead, -⟩ := hlegal.links.histories s p hh he.context
    obtain ⟨z, hl⟩ := hl
    have hpk : c.kind p ≠ .concurrentState := by
      rw [c.history_context hh he.context]
      decide
    obtain ⟨hlegal', hp', hin', hfirst, hres⟩ :=
      PseudoState.restore_entered hv hext hl hinner hpk hlegal hp hvac hu ha
    -- the history itself is none of the states it restores
    have hset : w'.data.stateset s = (c.visit s w).data.stateset s := by
      cases hl₀ : (c.visit s w).data.stateset s with
      | nil =>
          rw [hl₀] at ha
          rw [returns_forM_nil.mp ha, hl₀]
      | cons q l =>
          rw [hl₀] at hl hhead hfirst
          have hqp : c.context q = some p := hl.1
          have hqs : q ≠ s := fun hqs => hhead (by rw [hqs]; rfl)
          have hqk : (c.kind q).isHistory = false := by
            by_contra hqk
            exact hqs (c.history_unique (by simpa using hqk) hh (hqp.trans he.context.symm))
          exact (hfirst q rfl hqk s fun hb => hqs <| Forest.eq_of_below_children (F := c.forest) hqp
            he.context hb (Forest.below_refl _)).2.1.trans hl₀
    refine ⟨hlegal', hp', (hin.mono hbelow).trans hin', fun hs => ?_, fun hs =>
      absurd hs hhier, by simp, fun _ p' hp' => ?_⟩
    · rw [hh] at hs
      cases hs
    · obtain rfl := Option.some.inj (he.context.symm.trans hp')
      rw [hset]
      exact hres
  · -- no fork is entered
    have hext' : (c.visit s w).Extends w' := by
      refine keeps_forM (fun t _ => ?_) _ _ _ ha
      exact keeps_bind (keeps_peek _) fun _ =>
        keeps_ite (keeps_modify fun w => (compatible_extends c).registerRegions _ w) (keeps_pure _)
    have hmem : .activated s ∈ (c.visit s w).trace := by
      rw [Chart.visit]
      cases c.entryAction s with
      | none => exact List.mem_cons_self
      | some f => exact List.mem_cons_of_mem _ List.mem_cons_self
    exact absurd hs ((hu.of_extends hext').noFork hmem)
  · exact ⟨hlegal, hp, hin.mono hbelow, fun _ => ⟨by simp [hactive], hin⟩, fun hs =>
      absurd hs hhier, by simp, .of_not hh⟩

/-! ### The entry list -/

/-- A concurrent state `s` is told that its region `r` is entered next. -/
def Chart.announce (c : Chart S T E P) (s r : S) (w : World S T E P) : World S T E P :=
  if c.kind s = .concurrentState then registerRegion s r w else w

lemma Transition.returns_activateAll_cons {l : List S} :
    Returns (Transition.activateAll c v (x :: y :: l)) w u w'
      ↔ ∃ b w₁, Returns (v.activate x) (c.announce x y w) b w₁
        ∧ Returns (Transition.activateAll c v (y :: l)) w₁ u w' := by
  by_cases hx : c.kind x = .concurrentState <;> simp [Transition.activateAll, Chart.announce, hx]

/-- A state above the end of an entry list stands ready to be entered. -/
lemma Chart.Legal.announce (hc : c.ActionsKeepData) (h : c.Legal (some s) w)
    (he : c.Enterable p s w) (hclear : c.kind s = .concurrentState → w.data.stateset s = [])
    (hy : c.context y = some s) :
    c.Legal (some s) (c.announce s y w) ∧ c.Enterable p s (c.announce s y w)
      ∧ c.Registered s (if c.kind s = .concurrentState then some y else none) (c.announce s y w)
      ∧ c.Inside s w (c.announce s y w) := by
  unfold Chart.announce
  by_cases hs : c.kind s = .concurrentState
  · simp only [hs, ↓reduceIte]
    have ha : ∀ x, (Chart.registerRegion s y w).data.isActive x = w.data.isActive x := fun _ =>
      isActive_registerRegion
    refine ⟨h.registerRegion hc hs, he.of_active ha, ⟨fun _ => ?_, fun x hx => ?_⟩, fun x hx => ?_⟩
    · simp [stateset_registerRegion, hclear hs]
    · obtain rfl := Option.mem_some_iff.mp hx
      exact ⟨hs, hy⟩
    · refine ⟨ha x, ?_, fun _ => current_registerRegion⟩
      rw [stateset_registerRegion, if_neg]
      rintro ⟨rfl, -⟩
      exact hx (Forest.below_refl _)
  · simp only [hs, ↓reduceIte]
    exact ⟨h, he, .none hclear, Inside.of_data rfl⟩

/-- A state inside the one just entered can be entered next. -/
lemma Chart.Entered.next (hreg : ∀ {s n}, c.context s = some n → c.kind n = .concurrentState →
      c.kind s = .hierarchicalState)
    (h : c.Entered p s (if c.kind s = .concurrentState then some y else none) w w')
    (hw : c.Coherent w) (hi : w.data.isActive s = false) (hp : c.context s = some p)
    (hy : c.context y = some s) :
    c.Legal (some y) w' ∧ c.Enterable s y w'
      ∧ (c.kind y = .concurrentState → w'.data.stateset y = []) := by
  have ha := (h.active (isHistory_of_context hy)).1
  by_cases hk : c.kind s = .concurrentState
  · simp only [hk, ↓reduceIte] at h
    refine ⟨h.legal, ⟨hy, ha, fun hk' => absurd hk hk', fun hyk => ?_⟩, fun hyk => ?_⟩
    · rw [h.pending y rfl]
      exact hw.inactive_child hi hy (StateKind.isHistory_eq_false_of_isPseudo hyk)
    · rw [hreg hy hk] at hyk
      cases hyk
  · simp only [hk, ↓reduceIte] at h
    have hcur : w'.data.current s = none := by
      refine h.empty ?_
      have hcon := c.context_kind hy
      have hroot : c.kind s ≠ .statechart := fun hs =>
        ne_root_of_context hp ((c.kind_statechart s).mp hs)
      cases hks : c.kind s <;> simp_all [StateKind.isContext]
    have hvac : ∀ x, c.context x = some s → (c.kind x).isHistory = false →
        w'.data.isActive x = false := fun x hx hxk =>
      h.legal.inactive_of_current hk hcur hx hxk
    refine ⟨h.legal.mono, .of_vacant hy ha hvac, fun hyk => ?_⟩
    exact Metadata.stateset_of_hasData_eq_false
      (h.legal.clear hyk (hvac y hy (by rw [hyk]; rfl)) (by simp))

/-- The loop of `Transition::execute` over an entry list, which leads down from `p` to `y`. -/
lemma Transition.activateAll_entered (hc : c.Standard) (hv : c.Activates v)
    (hext : v.Keep Set.univ World.Extends) {l : List S} (hl : c.forest.Descends p (x :: l) y)
    (h : c.Legal (some x) w) (he : c.Enterable p x w)
    (hclear : c.kind x = .concurrentState → w.data.stateset x = [])
    (hu : c.Orderly w'.trace) (hr : Returns (Transition.activateAll c v (x :: l)) w u w') :
    c.Legal none w' ∧ w'.data.isActive p = true ∧ c.Inside p w w'
      ∧ ((c.kind x).isHistory = false → w'.data.isActive x = true ∧ c.Inside x w w')
      ∧ ((c.kind y).isHistory = false → w'.data.isActive y = true)
      ∧ (c.kind y = .hierarchicalState → w'.data.current y = none) ∧ c.Recovers y w'.data := by
  induction l generalizing p x w with
  | nil =>
      obtain ⟨b, w₁, h₁, h₂⟩ := returns_bind.mp hr
      obtain ⟨-, rfl⟩ := returns_pure.mp h₂
      have hent := hv h he (.none hclear) hu h₁
      obtain rfl : y = x := hl.2
      exact ⟨hent.legal, hent.parent, hent.inside, hent.active, fun hk => (hent.active hk).1,
        hent.empty, hent.recovers⟩
  | cons z l ih =>
      have hz : c.context z = some x := hl.2.1
      have hh := isHistory_of_context hz
      obtain ⟨b, w₁, h₁, h₂⟩ := Transition.returns_activateAll_cons.mp hr
      obtain ⟨hlegal, hent, hregd, hin⟩ := h.announce hc.actions he hclear hz
      have hu₁ : c.Orderly w₁.trace :=
        hu.of_extends ((compatible_extends c).activateAll hext.toEnter _ _ _ _ h₂)
      have hent₁ := hv hlegal hent hregd hu₁ h₁
      obtain ⟨hxa, hin₁⟩ := hent₁.active hh
      have hxi : (c.announce x z w).data.isActive x = false := by
        exact hent.fresh (isPseudo_of_context hz)
      obtain ⟨hnext, henter, hset⟩ := hent₁.next hc.regions hlegal.toCoherent hxi he.context hz
      obtain ⟨hlegal', hxa', hin', -, hend⟩ := ih hl.2 hnext henter hset h₂
      have hinx : c.Inside x w w' := (hin.trans hin₁).trans hin'
      exact ⟨hlegal', hlegal'.upward hh hxa' he.context,
        hinx.mono (Forest.below_of_parent he.context), fun _ => ⟨hxa', hinx⟩, hend⟩

end CppStatecharts
