import CppStatecharts.Events.Report

/-!
What the pass that ends the completion loop leaves behind.

* `World.OffersOnce`: no event that a substate has handled is offered once more.
* `Chart.FirstEntry`, `Chart.Entries`: a first entry into a hierarchical state, and any number of
  them. A dispatch of the null event that reports `false` consists of first entries, if it offers
  nothing once more.
* `Chart.Explored`, `Chart.Meets`: nothing is left to enter on the way of the null event, and the
  transitions it comes to there. A state is idle when they are all refused (`Explored.idle`,
  `Chart.Idle.refused`).
* `walked_of_dispatch`: what a dispatch that reports `false` has entered, and that it was refused by
  each transition that the null event comes to afterwards.
* `Statechart.quiescent_iff`: a call whose last pass offers nothing once more leaves a quiescent
  configuration if and only if no first entry of this pass enables a transition on the way that was
  refused before.
-/

namespace CppStatecharts

variable {S T E P : Type}

/-! ### First entries -/

/-- No event that a substate has handled is offered to an enclosing state between the worlds. -/
def World.OffersOnce (w w' : World S T E P) : Prop :=
  w.Adds (fun o => ∀ s b, o ≠ .fallThrough s b) w'

lemma World.Adds.split {p : Obs S T → Prop} {w w₁ w' : World S T E P} (h : w.Adds p w')
    (h₁ : w.Extends w₁) (h₂ : w₁.Extends w') : w.Adds p w₁ ∧ w₁.Adds p w' := by
  have hp := h.since
  rw [World.since_trans h₁ h₂] at hp
  exact ⟨⟨_, h₁.trace_eq, fun o ho => hp o (List.mem_append_right _ ho)⟩,
    ⟨_, h₂.trace_eq, fun o ho => hp o (List.mem_append_left _ ho)⟩⟩

variable [DecidableEq S]

/-- The hierarchical state `s`, which has no current state, is entered at its start state. -/
def Chart.FirstEntry (c : Chart S T E P) (s : S) (w w' : World S T E P) : Prop :=
  c.kind s = .hierarchicalState ∧ w.data.isActive s = true ∧ w.data.current s = none
    ∧ ∃ st, c.startState s = some st ∧ w' = c.visit st (c.activateData st w)

/-- Any number of first entries. -/
abbrev Chart.Entries (c : Chart S T E P) : World S T E P → World S T E P → Prop :=
  Relation.ReflTransGen fun w w' => ∃ s, c.FirstEntry s w w'

/-- A first entry into `s` that starts from current states that are substates, gives `s` a current
state, and changes no other current state and no active flag but that of a start state. -/
structure Chart.Gentle (c : Chart S T E P) (s : S) (w w' : World S T E P) : Prop where
  pointers : c.Pointers w.data
  entered : w'.data.current s ≠ none
  current : ∀ r, r ≠ s → w'.data.current r = w.data.current r
  active : ∀ q, c.kind q ≠ .pseudoState .start → w'.data.isActive q = w.data.isActive q

/-- All the first entries made on the way between two worlds are gentle. -/
def Chart.GentleBetween (c : Chart S T E P) (w w' : World S T E P) : Prop :=
  ∀ s u u', c.Entries w u → c.FirstEntry s u u' → c.Entries u' w' → c.Gentle s u u'

/-- The transition does not fire on the null event. -/
def Chart.Refused (c : Chart S T E P) (t : T) (w : World S T E P) : Prop :=
  Returned (fun n => Transition.execute c (c.methods n) t none) w false w

/-- The transitions the null event comes to in `s` when none of them fires. -/
inductive Chart.Meets (c : Chart S T E P) (w : World S T E P) : S → T → Prop
  | substate {s q : S} {t : T} (hk : c.kind s = .hierarchicalState)
      (ha : w.data.isActive s = true) (hq : w.data.current s = some q) (h : c.Meets w q t) :
      c.Meets w s t
  | completed {s : S} {t : T} (hk : c.kind s = .hierarchicalState)
      (ha : w.data.isActive s = true) (hf : c.isFinal (w.data.current s) = true)
      (ht : t ∈ c.transitions s) : c.Meets w s t
  | region {n r : S} {t : T} (hk : c.kind n = .concurrentState)
      (ha : w.data.isActive n = true) (hr : r ∈ c.regions n) (h : c.Meets w r t) :
      c.Meets w n t
  | finished {n : S} {t : T} (hk : c.kind n = .concurrentState)
      (ha : w.data.isActive n = true) (hf : ConcurrentState.finished c n w = true)
      (ht : t ∈ c.transitions n) : c.Meets w n t
  | restored {s q : S} {t : T} (hk : (c.kind s).isHistory = true)
      (hq : PseudoState.restored c s w = some q) (h : c.Meets w q t) : c.Meets w s t
  | own {s : S} {t : T} (hk : c.kind s ≠ .hierarchicalState) (hn : c.kind s ≠ .concurrentState)
      (hh : (c.kind s).isHistory = true → PseudoState.restored c s w = none)
      (ht : t ∈ c.transitions s) : c.Meets w s t

/-- On the way of the null event from `s`, no hierarchical state waits for its first entry, and no
fork is met. -/
inductive Chart.Explored (c : Chart S T E P) (w : World S T E P) : S → Prop
  | inactive {s : S} (hk : c.kind s = .hierarchicalState) (ha : w.data.isActive s = false) :
      c.Explored w s
  | empty {s : S} (hk : c.kind s = .hierarchicalState) (hq : w.data.current s = none)
      (hst : c.startState s = none) : c.Explored w s
  | substate {s q : S} (hk : c.kind s = .hierarchicalState) (hq : w.data.current s = some q)
      (h : c.Explored w q) : c.Explored w s
  | concurrent {n : S} (hk : c.kind n = .concurrentState)
      (h : w.data.isActive n = true → ∀ r ∈ c.regions n, c.Explored w r) : c.Explored w n
  | restored {s q : S} (hk : (c.kind s).isHistory = true)
      (hq : PseudoState.restored c s w = some q) (h : c.Explored w q) : c.Explored w s
  | own {s : S} (hk : c.kind s ≠ .hierarchicalState) (hn : c.kind s ≠ .concurrentState)
      (hf : c.kind s ≠ .pseudoState .fork)
      (hh : (c.kind s).isHistory = true → PseudoState.restored c s w = none) : c.Explored w s

variable {c : Chart S T E P} {v : Methods S T E P}
variable {w w₁ w₂ w' : World S T E P} {s n q r x : S} {t : T} {b : Bool} {k : ℕ}

/-- The first entry made by the methods. -/
lemma HierarchicalState.enterStart_cases (hk : c.kind s = .hierarchicalState)
    (ha : w.data.isActive s = true)
    (h : Returns (HierarchicalState.enterStart c (c.methods k) s) w ⟨⟩ w') :
    (w' = w ∧ (w.data.current s = none → c.startState s = none))
      ∨ c.FirstEntry s w w' := by
  rcases HierarchicalState.returns_enterStart.mp h with h | ⟨st, hcur, hst, h⟩
  · exact Or.inl h
  obtain ⟨hkst, hctx⟩ := Chart.startState_eq_some hst
  have hnew : (c.activateData st w).data.current s = some st := by
    have hd : (w.data.getData s).isSome = true := by
      cases hd : w.data.getData s <;> simp_all [Metadata.isActive]
    rw [current_activateData hctx, if_neg (Forest.ne_of_parent (F := c.forest) hctx).symm,
      if_pos ⟨rfl, hd⟩]
  rcases h with ⟨hno, -⟩ | ⟨q, b, hq, h⟩
  · rw [hnew] at hno
    cases hno
  obtain rfl := Option.some.inj (hnew.symm.trans hq)
  refine Or.inr ⟨hk, ha, hcur, st, hst, ?_⟩
  cases k with
  | zero => exact absurd h (by simp [Chart.methods])
  | succ k =>
      have h' : Returns (PseudoState.activate c (c.methods k) st) (c.activateData st w) b w' := by
        simpa only [Chart.methods, Chart.step, hkst] using h
      obtain ⟨-, ⟨hh, -⟩ | ⟨-, hf, -⟩ | ⟨-, -, hw⟩⟩ := PseudoState.returns_activate.mp h'
      · rw [hkst] at hh
        cases hh
      · rw [hkst] at hf
        cases hf
      · exact hw

lemma Chart.FirstEntry.extends (h : c.FirstEntry s w w') : w.Extends w' := by
  obtain ⟨-, -, -, st, -, rfl⟩ := h
  exact (World.Adds.of_cons rfl trivial).trans
    ((World.Adds.of_cons rfl trivial).trans (World.adds_perform trivial))

lemma Chart.Entries.extends (h : c.Entries w w') : w.Extends w' := by
  induction h with
  | refl => exact World.Adds.refl _
  | tail _ h ih =>
      obtain ⟨s, h⟩ := h
      exact ih.trans h.extends

/-- The entries between two worlds on the way are entries on the way. -/
lemma Chart.GentleBetween.mono {u u' : World S T E P} (h : c.GentleBetween w w')
    (hu : c.Entries w u) (hu' : c.Entries u' w') : c.GentleBetween u u' :=
  fun _ _ _ h₁ h₂ h₃ => h _ _ _ (hu.trans h₁) h₂ (h₃.trans hu')

/-! ### Later entries elsewhere -/

/-- The state is the current one of a state, or a child of a concurrent one. -/
def Chart.Placed (c : Chart S T E P) (s : S) (w : World S T E P) : Prop :=
  (∃ r, w.data.current r = some s) ∨ ∃ n, c.context s = some n ∧ c.kind n = .concurrentState

lemma Chart.Placed.region (hk : c.kind n = .concurrentState) (hr : r ∈ c.regions n) :
    c.Placed r w :=
  Or.inr ⟨n, (Chart.mem_regions.mp hr).2, hk⟩

lemma PseudoState.restored_eq_some : PseudoState.restored c s w = some q
    ↔ ∃ r, c.context s = some r ∧ w.data.current r = some q ∧ q ≠ s := by
  unfold PseudoState.restored
  cases c.context s with
  | none => simp
  | some r =>
      cases hcur : w.data.current r with
      | none => simp [hcur]
      | some x =>
          by_cases hx : x = s
          · simp [hcur, hx, eq_comm]
          · simp only [Option.bind_some, hcur, hx, ↓reduceIte, Option.some.injEq, exists_eq_left']
            exact ⟨fun h => ⟨h, h ▸ hx⟩, fun h => h.1⟩

lemma Chart.Placed.restored (hq : PseudoState.restored c s w = some q) : c.Placed q w := by
  obtain ⟨r, -, hr, -⟩ := PseudoState.restored_eq_some.mp hq
  exact Or.inl ⟨r, hr⟩

/-- A gentle entry changes no current state. -/
lemma Chart.FirstEntry.current (h : c.FirstEntry x w w') (hg : c.Gentle x w w')
    (hq : w.data.current r = some q) : w'.data.current r = some q := by
  rw [hg.current r, hq]
  rintro rfl
  rw [h.2.2.1] at hq
  cases hq

/-- A gentle entry changes the current state of a hierarchical state with a start state only. -/
lemma Chart.FirstEntry.entered (h : c.FirstEntry x w w') (hg : c.Gentle x w w')
    (hr : w.data.current r = none) : w'.data.current r = none
      ∨ c.kind r = .hierarchicalState ∧ w.data.isActive r = true ∧ c.startState r ≠ none := by
  by_cases hrx : r = x
  · subst hrx
    obtain ⟨hk, ha, -, st, hst, -⟩ := h
    exact Or.inr ⟨hk, ha, by simp [hst]⟩
  · exact Or.inl ((hg.current r hrx).trans hr)

/-- A gentle entry does not change what a history restores. -/
lemma Chart.FirstEntry.restored (h : c.FirstEntry x w w') (hg : c.Gentle x w w')
    (hs : c.Placed s w) :
    PseudoState.restored c s w' = PseudoState.restored c s w := by
  unfold PseudoState.restored
  cases hctx : c.context s with
  | none => rfl
  | some r =>
      suffices heq : w'.data.current r = w.data.current r by simp only [Option.bind_some, heq]
      cases hcur : w.data.current r with
      | some y => exact h.current hg hcur
      | none =>
          refine (h.entered hg hcur).resolve_right ?_
          rintro ⟨hk, -⟩
          rcases hs with ⟨r', hr'⟩ | ⟨n, hn, hkn⟩
          · obtain rfl := Option.some.inj (hctx.symm.trans (hg.pointers r' s hr'))
            rw [hcur] at hr'
            cases hr'
          · obtain rfl := Option.some.inj (hctx.symm.trans hn)
            rw [hk] at hkn
            cases hkn

lemma Chart.Meets.hierarchical (hk : c.kind s = .hierarchicalState) (h : c.Meets w s t) :
    w.data.isActive s = true ∧ ((∃ q, w.data.current s = some q ∧ c.Meets w q t)
      ∨ c.isFinal (w.data.current s) = true ∧ t ∈ c.transitions s) := by
  cases h with
  | substate _ ha hq h => exact ⟨ha, Or.inl ⟨_, hq, h⟩⟩
  | completed _ ha hf ht => exact ⟨ha, Or.inr ⟨hf, ht⟩⟩
  | region hk' | finished hk' => simp [hk] at hk'
  | restored hk' => simp [hk, StateKind.isHistory] at hk'
  | own hk' => exact absurd hk hk'

lemma Chart.Meets.concurrent (hk : c.kind n = .concurrentState) (h : c.Meets w n t) :
    w.data.isActive n = true ∧ ((∃ r ∈ c.regions n, c.Meets w r t)
      ∨ ConcurrentState.finished c n w = true ∧ t ∈ c.transitions n) := by
  cases h with
  | region _ ha hr h => exact ⟨ha, Or.inl ⟨_, hr, h⟩⟩
  | finished _ ha hf ht => exact ⟨ha, Or.inr ⟨hf, ht⟩⟩
  | substate hk' | completed hk' => simp [hk] at hk'
  | restored hk' => simp [hk, StateKind.isHistory] at hk'
  | own _ hn => exact absurd hk hn

/-- The other states hand the event on, or try their own transitions. -/
lemma Chart.Meets.simple (hk : c.kind s ≠ .hierarchicalState) (hn : c.kind s ≠ .concurrentState)
    (h : c.Meets w s t) :
    (∃ q, (c.kind s).isHistory = true ∧ PseudoState.restored c s w = some q ∧ c.Meets w q t)
      ∨ ((c.kind s).isHistory = true → PseudoState.restored c s w = none)
        ∧ t ∈ c.transitions s := by
  cases h with
  | substate hk' | completed hk' => exact absurd hk' hk
  | region hk' | finished hk' => exact absurd hk' hn
  | restored hh hq h => exact Or.inl ⟨_, hh, hq, h⟩
  | own _ _ hh ht => exact Or.inr ⟨hh, ht⟩

/-- Where nothing is left to enter, a state without a current state has no start state. -/
lemma Chart.Explored.startState (h : c.Explored w s) (hk : c.kind s = .hierarchicalState)
    (ha : w.data.isActive s = true) (hq : w.data.current s = none) : c.startState s = none := by
  cases h with
  | inactive _ hi =>
      rw [ha] at hi
      cases hi
  | empty _ _ hst => exact hst
  | substate _ hq' =>
      rw [hq] at hq'
      cases hq'
  | concurrent hk' => simp [hk] at hk'
  | restored hk' => simp [hk, StateKind.isHistory] at hk'
  | own hk' => exact absurd hk hk'

/-- What was entered stays entered, and a gentle entry adds nothing to its way. -/
lemma Chart.Explored.firstEntry (h : c.Explored w s) (he : c.FirstEntry x w w')
    (hg : c.Gentle x w w') (hs : c.Placed s w) :
    c.Explored w' s ∧ ∀ t, c.Meets w' s t → c.Meets w s t := by
  induction h with
  | @inactive s hk ha =>
      have ha' : w'.data.isActive s = false := by rw [hg.active s (by simp [hk]), ha]
      refine ⟨.inactive hk ha', fun t ht => ?_⟩
      rw [(ht.hierarchical hk).1] at ha'
      cases ha'
  | @empty s hk hq hst =>
      have hq' : w'.data.current s = none := by
        refine (he.entered hg hq).resolve_right ?_
        exact fun h => h.2.2 hst
      refine ⟨.empty hk hq' hst, fun t ht => ?_⟩
      obtain ⟨-, ⟨q, hcur, -⟩ | ⟨hf, -⟩⟩ := ht.hierarchical hk
      · rw [hq'] at hcur
        cases hcur
      · simp [hq', Chart.isFinal] at hf
  | @substate s q hk hq h ih =>
      have hq' := he.current hg hq
      obtain ⟨hent, hoff⟩ := ih (Or.inl ⟨s, hq⟩)
      refine ⟨.substate hk hq' hent, fun t ht => ?_⟩
      obtain ⟨ha, h⟩ := ht.hierarchical hk
      rw [hg.active s (by simp [hk])] at ha
      rcases h with ⟨y, hy, h⟩ | ⟨hf, ht⟩
      · obtain rfl := Option.some.inj (hq'.symm.trans hy)
        exact .substate hk ha hq (hoff t h)
      · exact .completed hk ha (by rw [hq, ← hq', hf]) ht
  | @concurrent n hk h ih =>
      have hact := hg.active n (by simp [hk])
      refine ⟨.concurrent hk fun ha r hr => (ih (hact ▸ ha) r hr (Chart.Placed.region hk hr)).1,
        fun t ht => ?_⟩
      obtain ⟨ha, h'⟩ := ht.concurrent hk
      rw [hact] at ha
      rcases h' with ⟨r, hr, h'⟩ | ⟨hf, ht⟩
      · exact .region hk ha hr ((ih ha r hr (Chart.Placed.region hk hr)).2 t h')
      · refine .finished hk ha ?_ ht
        -- the regions have been entered, so their current states stay
        rw [ConcurrentState.finished, List.all_eq_true] at hf ⊢
        intro r hr
        have hfr := hf r hr
        cases hcur : w.data.current r with
        | some y => rwa [he.current hg hcur] at hfr
        | none =>
            rcases he.entered hg hcur with hnone | ⟨hkr, har, hst⟩
            · simp [hnone, Chart.isFinal] at hfr
            · exact absurd ((h ha r hr).startState hkr har hcur) hst
  | @restored s q hk hq h ih =>
      have hq' := (he.restored hg hs).trans hq
      obtain ⟨hent, hoff⟩ := ih (Chart.Placed.restored hq)
      refine ⟨.restored hk hq' hent, fun t ht => ?_⟩
      rcases ht.simple (fun hk' => by simp [hk', StateKind.isHistory] at hk)
        (fun hk' => by simp [hk', StateKind.isHistory] at hk) with ⟨y, -, hy, h⟩ | ⟨hh, -⟩
      · obtain rfl := Option.some.inj (hq'.symm.trans hy)
        exact .restored hk hq (hoff t h)
      · rw [hh hk] at hq'
        cases hq'
  | @own s hk hn hf hh =>
      have hh' : (c.kind s).isHistory = true → PseudoState.restored c s w' = none :=
        fun hist => (he.restored hg hs).trans (hh hist)
      refine ⟨.own hk hn hf hh', fun t ht => ?_⟩
      rcases ht.simple hk hn with ⟨y, hist, hy, -⟩ | ⟨-, ht⟩
      · rw [hh' hist] at hy
        cases hy
      · exact .own hk hn hh ht

lemma Chart.Placed.firstEntry (h : c.Placed s w) (he : c.FirstEntry x w w')
    (hg : c.Gentle x w w') : c.Placed s w' :=
  h.imp_left fun ⟨r, hr⟩ => ⟨r, he.current hg hr⟩

/-- The same for any number of entries. -/
lemma Chart.Explored.entries (h : c.Explored w s) (hs : c.Placed s w) (he : c.Entries w w')
    (hg : c.GentleBetween w w') : c.Explored w' s ∧ (∀ t, c.Meets w' s t → c.Meets w s t) := by
  induction he using Relation.ReflTransGen.head_induction_on with
  | refl => exact ⟨h, fun _ => id⟩
  | head hstep hrest ih =>
      obtain ⟨x, hx⟩ := hstep
      have hg₁ := hg _ _ _ .refl hx hrest
      obtain ⟨hent, hoff⟩ := h.firstEntry hx hg₁ hs
      obtain ⟨hent', hoff'⟩ := ih hent (hs.firstEntry hx hg₁) (hg.mono (.single ⟨x, hx⟩) .refl)
      exact ⟨hent', fun t ht => hoff t (hoff' t ht)⟩

/-- Gentle entries keep the active flags, start states aside, and the current states. -/
lemma Chart.GentleBetween.keeps (hg : c.GentleBetween w w') (he : c.Entries w w') :
    (∀ q, c.kind q ≠ .pseudoState .start → w'.data.isActive q = w.data.isActive q)
      ∧ ∀ r q, w.data.current r = some q → w'.data.current r = some q := by
  induction he using Relation.ReflTransGen.head_induction_on with
  | refl => exact ⟨fun _ _ => rfl, fun _ _ => id⟩
  | head hstep hrest ih =>
      obtain ⟨x, hx⟩ := hstep
      have hg₁ := hg _ _ _ .refl hx hrest
      obtain ⟨hact, hcur⟩ := ih (hg.mono (.single ⟨x, hx⟩) .refl)
      exact ⟨fun q hq => (hact q hq).trans (hg₁.active q hq),
        fun r q hq => hcur r q (hx.current hg₁ hq)⟩

/-! ### A dispatch that reports `false` -/

/-- The null event has gone through `s` between the worlds: it has made first entries only, and
where these are gentle, nothing is left to enter, and each transition it comes to at the end was
refused on the way. -/
def Chart.Walked (c : Chart S T E P) (s : S) (w w' : World S T E P) : Prop :=
  c.Entries w w' ∧ (c.GentleBetween w w' → c.Placed s w → c.Explored w' s
    ∧ ∀ t, c.Meets w' s t → ∃ u, c.Entries w u ∧ c.Entries u w' ∧ c.Refused t u)

lemma State.walked_of_dispatch (hk : c.kind s ≠ .hierarchicalState)
    (hn : c.kind s ≠ .concurrentState) (hf : c.kind s ≠ .pseudoState .fork)
    (hh : (c.kind s).isHistory = true → PseudoState.restored c s w = none)
    (h : Returns (State.dispatch c (c.methods k) s none) w false w') : c.Walked s w w' := by
  obtain rfl := State.dispatch_false (pure_methods c k) h
  refine ⟨.refl, fun _ _ => ⟨.own hk hn hf hh, fun t ht => ⟨w', .refl, .refl, k, ?_⟩⟩⟩
  rcases ht.simple hk hn with ⟨q, hist, hq, -⟩ | ⟨-, ht⟩
  · rw [hh hist] at hq
    cases hq
  · exact ((anyM_false_iff fun _ _ _ _ => execute_false (pure_methods c k)).mp h).2 t ht

lemma HierarchicalState.walked_of_dispatch (hk : c.kind s = .hierarchicalState)
    (ih : ∀ q w w', Returns ((c.methods k).dispatch q none) w false w' → w.OffersOnce w' →
      c.Walked q w w')
    (h : Returns (HierarchicalState.dispatch c (c.methods k) s none) w false w')
    (ho : w.OffersOnce w') : c.Walked s w w' := by
  have hx := compatible_extends c
  have hp := pure_methods c k
  have hoffers : Offers c none World.Extends (c.methods k) := hx.offers hp (hx.methods k) trivial
  rcases HierarchicalState.returns_dispatch.mp h with
    ⟨hi, -, rfl⟩ | ⟨ha, w₁, w₂, handled, h₁, h₂, h₃⟩
  · refine ⟨.refl, fun _ _ => ⟨.inactive hk hi, fun t ht => ?_⟩⟩
    rw [(ht.hierarchical hk).1] at hi
    cases hi
  have hext₁ : w.Extends w₁ := hx.enterStart (hx.methods k) s _ _ _ h₁
  have hext₂ : w₁.Extends w₂ := hoffers.dispatchCurrent s _ _ _ h₂
  -- a handled event would have been reported, or offered once more
  have hend : handled = false ∧ w' = w₂ ∧ (w₂.data.isActive s = true → ∀ t ∈ c.transitions s,
      c.isFinal (w₂.data.current s) = true → c.Refused t w₂) := by
    rcases h₃ with ⟨hi, hb, rfl⟩ | ⟨-, -, -, hb, -⟩ | ⟨-, -, h₃⟩
    · refine ⟨hb.symm, rfl, fun hact => ?_⟩
      rw [hi] at hact
      cases hact
    · cases hb
    · have hw := anyM_eq (fun _ _ _ _ => HierarchicalState.tryTransition_false hp) h₃
      cases handled with
      | true =>
          have hmem : Obs.fallThrough s false ∈ w.since w' := by
            have htrace := World.Extends.trace_eq (hext₁.trans hext₂)
            rw [hw, World.since_eq (l := .fallThrough s false :: w.since w₂)
              (by simp [HierarchicalState.offered, htrace])]
            exact List.mem_cons_self
          exact absurd rfl (ho.since _ hmem s false)
      | false =>
          refine ⟨rfl, hw, fun _ t ht hfin => ⟨k, ?_⟩⟩
          have hall := (anyM_false_iff fun _ _ _ _ =>
            HierarchicalState.tryTransition_false hp).mp h₃
          rcases (HierarchicalState.returns_tryTransition hp).mp (hall.2 t ht) with
            ⟨⟨-, hno⟩, -⟩ | ⟨-, h⟩
          · rw [hfin] at hno
            cases hno
          · exact h
  obtain ⟨rfl, rfl, href⟩ := hend
  have ho₂ : w₁.OffersOnce w' := (ho.split hext₁ hext₂).2
  have hfirst := HierarchicalState.enterStart_cases hk ha h₁
  have he₁ : c.Entries w w₁ := by
    rcases hfirst with ⟨rfl, -⟩ | hfirst
    · exact .refl
    · exact .single ⟨s, hfirst⟩
  rcases HierarchicalState.returns_dispatchCurrent.mp h₂ with ⟨hcur, -, rfl⟩ | ⟨q, hq, h₂⟩
  · refine ⟨he₁, fun hg _ => ?_⟩
    obtain ⟨rfl, hst⟩ := hfirst.resolve_right fun hfirst =>
      (hg _ _ _ .refl hfirst .refl).entered hcur
    refine ⟨.empty hk hcur (hst hcur), fun t ht => ?_⟩
    obtain ⟨-, ⟨q, hq, -⟩ | ⟨hf, -⟩⟩ := ht.hierarchical hk
    · rw [hcur] at hq
      cases hq
    · simp [hcur, Chart.isFinal] at hf
  · obtain ⟨he₂, hwalk⟩ := ih q w₁ w' h₂ ho₂
    refine ⟨he₁.trans he₂, fun hg _ => ?_⟩
    have hg₂ : c.GentleBetween w₁ w' := hg.mono he₁ .refl
    have hq' := (hg₂.keeps he₂).2 s q hq
    obtain ⟨hent, hoff⟩ := hwalk hg₂ (Or.inl ⟨s, hq⟩)
    refine ⟨.substate hk hq' hent, fun t ht => ?_⟩
    obtain ⟨ha', ⟨x, hx, ht⟩ | ⟨hf, ht⟩⟩ := ht.hierarchical hk
    · obtain rfl := Option.some.inj (hq'.symm.trans hx)
      obtain ⟨u, hu, hu', ht⟩ := hoff t ht
      exact ⟨u, he₁.trans hu, hu', ht⟩
    · exact ⟨w', he₁.trans he₂, .refl, href ha' t ht hf⟩

lemma ConcurrentState.walked_of_dispatchRegions {l : List S} (hkn : c.kind n = .concurrentState)
    (hl : ∀ r ∈ l, r ∈ c.regions n)
    (ih : ∀ q w w', Returns ((c.methods k).dispatch q none) w false w' → w.OffersOnce w' →
      c.Walked q w w')
    (h : Returns (ConcurrentState.dispatchRegions (c.methods k) n none l) w false w')
    (ho : w.OffersOnce w') :
    c.Entries w w' ∧ (c.GentleBetween w w' → w.data.isActive n = true → ∀ r ∈ l, c.Explored w' r
      ∧ ∀ t, c.Meets w' r t → ∃ u, c.Entries w u ∧ c.Entries u w' ∧ c.Refused t u) := by
  induction l generalizing w with
  | nil =>
      obtain ⟨-, rfl⟩ := returns_pure.mp h
      exact ⟨.refl, fun _ _ r hr => absurd hr List.not_mem_nil⟩
  | cons r l ihl =>
      obtain ⟨b₁, w₁, b₂, h₁, h₂, hb⟩ := ConcurrentState.returns_dispatchRegions_cons.mp h
      obtain ⟨rfl, rfl⟩ : b₁ = false ∧ b₂ = false := by simpa using hb.symm
      have hx := compatible_extends c
      have hoffers : Offers c none World.Extends (c.methods k) :=
        hx.offers (pure_methods c k) (hx.methods k) trivial
      obtain ⟨ho₁, ho₂⟩ := ho.split (hoffers.dispatchRegion n r _ _ _ h₁)
        (hoffers.dispatchRegions n l _ _ _ h₂)
      obtain ⟨he₂, hrest⟩ := ihl (fun x hx => hl x (List.mem_cons_of_mem r hx)) h₂ ho₂
      rcases ConcurrentState.returns_dispatchRegion.mp h₁ with ⟨hi, -, rfl⟩ | ⟨-, h₁⟩
      · refine ⟨he₂, fun _ ha => ?_⟩
        rw [hi] at ha
        cases ha
      obtain ⟨he₁, hwalk⟩ := ih r w w₁ h₁ ho₁
      refine ⟨he₁.trans he₂, fun hg ha x hx => ?_⟩
      have hg₁ : c.GentleBetween w w₁ := hg.mono .refl he₂
      have hg₂ : c.GentleBetween w₁ w' := hg.mono he₁ .refl
      have ha₁ : w₁.data.isActive n = true := ((hg₁.keeps he₁).1 n (by simp [hkn])).trans ha
      rcases List.mem_cons.mp hx with rfl | hx
      · -- what the later regions enter does not concern this one
        have hplaced : ∀ {w}, c.Placed x w := Chart.Placed.region hkn (hl x List.mem_cons_self)
        obtain ⟨hent, hoff⟩ := hwalk hg₁ hplaced
        obtain ⟨hent', hoff'⟩ := hent.entries hplaced he₂ hg₂
        refine ⟨hent', fun t ht => ?_⟩
        obtain ⟨u, hu, hu', ht⟩ := hoff t (hoff' t ht)
        exact ⟨u, hu, hu'.trans he₂, ht⟩
      · obtain ⟨hent, hoff⟩ := hrest hg₂ ha₁ x hx
        refine ⟨hent, fun t ht => ?_⟩
        obtain ⟨u, hu, hu', ht⟩ := hoff t ht
        exact ⟨u, he₁.trans hu, hu', ht⟩

lemma ConcurrentState.walked_of_dispatch (hk : c.kind n = .concurrentState)
    (ih : ∀ q w w', Returns ((c.methods k).dispatch q none) w false w' → w.OffersOnce w' →
      c.Walked q w w')
    (h : Returns (ConcurrentState.dispatch c (c.methods k) n none) w false w')
    (ho : w.OffersOnce w') : c.Walked n w w' := by
  have hp := pure_methods c k
  rcases ConcurrentState.returns_dispatch.mp h with ⟨-, hb⟩ | ⟨w₁, h₁, h₂⟩
  · cases hb
  obtain ⟨rfl, hown⟩ :=
    (anyM_false_iff fun _ _ _ _ => ConcurrentState.tryTransition_false hp).mp h₂
  obtain ⟨he, hreg⟩ := ConcurrentState.walked_of_dispatchRegions hk (fun _ => id) ih h₁ ho
  refine ⟨he, fun hg _ => ?_⟩
  have hact := (hg.keeps he).1 n (by simp [hk])
  refine ⟨.concurrent hk fun ha r hr => (hreg hg (hact ▸ ha) r hr).1, fun t ht => ?_⟩
  obtain ⟨ha, ⟨r, hr, ht⟩ | ⟨hf, ht⟩⟩ := ht.concurrent hk
  · exact (hreg hg (hact ▸ ha) r hr).2 t ht
  · refine ⟨w', he, .refl, k, ?_⟩
    rcases ConcurrentState.returns_tryTransition.mp (hown t ht) with
      ⟨hi | ⟨-, hno⟩, -⟩ | ⟨-, -, h⟩
    · rw [ha] at hi
      cases hi
    · rw [hf] at hno
      cases hno
    · exact h

lemma PseudoState.walked_of_dispatch (hk : c.kind s ≠ .hierarchicalState)
    (hn : c.kind s ≠ .concurrentState)
    (ih : ∀ q w w', Returns ((c.methods k).dispatch q none) w false w' → w.OffersOnce w' →
      c.Walked q w w')
    (h : Returns (PseudoState.dispatch c (c.methods k) s none) w false w')
    (ho : w.OffersOnce w') : c.Walked s w w' := by
  rcases PseudoState.returns_dispatch.mp h with ⟨q, hh, hq, h⟩ | ⟨-, hb, -⟩ | ⟨hrest, h⟩
  · obtain ⟨he, hwalk⟩ := ih q w w' h ho
    refine ⟨he, fun hg hs => ?_⟩
    have hq' : PseudoState.restored c s w' = some q := by
      obtain ⟨r, hctx, hr, hne⟩ := PseudoState.restored_eq_some.mp hq
      exact PseudoState.restored_eq_some.mpr ⟨r, hctx, (hg.keeps he).2 r q hr, hne⟩
    obtain ⟨hent, hoff⟩ := hwalk hg (Chart.Placed.restored hq)
    refine ⟨.restored hh hq' hent, fun t ht => ?_⟩
    rcases ht.simple hk hn with ⟨x, -, hx, ht⟩ | ⟨hno, -⟩
    · obtain rfl := Option.some.inj (hq'.symm.trans hx)
      exact hoff t ht
    · rw [hno hh] at hq'
      cases hq'
  · cases hb
  · refine State.walked_of_dispatch hk hn (fun hf => ?_) (fun hh => ?_) h
    · rcases hrest with ⟨hh, -⟩ | ⟨-, hnf⟩
      · simp [hf, StateKind.isHistory] at hh
      · exact hnf hf
    · rcases hrest with ⟨-, hr⟩ | ⟨hnh, -⟩
      · exact hr
      · rw [hh] at hnh
        cases hnh

/-- A dispatch of the null event that reports `false` walks through the configuration, unless it
offers a handled event once more. -/
lemma walked_of_dispatch (k : ℕ) (h : Returns ((c.methods k).dispatch s none) w false w')
    (ho : w.OffersOnce w') : c.Walked s w w' := by
  induction k generalizing s w w' with
  | zero => exact absurd h (by simp [Chart.methods])
  | succ k ih =>
      have ih' : ∀ q w w', Returns ((c.methods k).dispatch q none) w false w' →
          w.OffersOnce w' → c.Walked q w w' := fun _ _ _ => ih
      rw [Chart.methods] at h
      cases hk : c.kind s <;> simp only [Chart.step, hk] at h
      case hierarchicalState => exact HierarchicalState.walked_of_dispatch hk ih' h ho
      case concurrentState => exact ConcurrentState.walked_of_dispatch hk ih' h ho
      case pseudoState =>
        exact PseudoState.walked_of_dispatch (by simp [hk]) (by simp [hk]) ih' h ho
      all_goals
        refine State.walked_of_dispatch ?_ ?_ ?_ ?_ h <;> simp [hk, StateKind.isHistory]

/-! ### Idle states -/

lemma Chart.exists_refused {l : List T} (h : ∀ t ∈ l, c.Refused t w) : ∃ i, ∀ k, i ≤ k →
    ∀ t ∈ l, Returns (Transition.execute c (c.methods k) t none) w false w := by
  induction l with
  | nil => exact ⟨0, fun _ _ t ht => absurd ht List.not_mem_nil⟩
  | cons t l ih =>
      obtain ⟨i, hi⟩ := ih fun t' ht' => h t' (List.mem_cons_of_mem t ht')
      obtain ⟨j, hj⟩ := h t List.mem_cons_self
      refine ⟨max i j, fun k hk => List.forall_mem_cons.mpr ⟨?_, hi k (by omega)⟩⟩
      exact Transition.monotone_execute c t none (monotone_methods c (by omega)) _ _ _ hj

/-- Regions that are idle one by one are idle together. -/
lemma exists_dispatchRegions {l : List S} (h : w.data.isActive n = true → ∀ r ∈ l, c.Idle r w) :
    ∃ i, ∀ k, i ≤ k →
      Returns (ConcurrentState.dispatchRegions (c.methods k) n none l) w false w := by
  induction l with
  | nil => exact ⟨0, fun _ _ => returns_pure.mpr ⟨rfl, rfl⟩⟩
  | cons r l ih =>
      obtain ⟨i, hi⟩ := ih fun ha x hx => h ha x (List.mem_cons_of_mem r hx)
      cases ha : w.data.isActive n with
      | false =>
          exact ⟨i, fun k hk => ConcurrentState.returns_dispatchRegions_cons.mpr ⟨false, w, false,
            ConcurrentState.returns_dispatchRegion.mpr (Or.inl ⟨ha, rfl, rfl⟩), hi k hk, rfl⟩⟩
      | true =>
          obtain ⟨j, hj⟩ := h ha r List.mem_cons_self
          refine ⟨max i j, fun k hk => ConcurrentState.returns_dispatchRegions_cons.mpr
            ⟨false, w, false, ?_, hi k (by omega), rfl⟩⟩
          exact ConcurrentState.returns_dispatchRegion.mpr (Or.inr ⟨ha,
            (monotone_methods c (by omega : j ≤ k)).2.2.2 r none _ _ _ hj⟩)

/-- A transition with a trigger does not fire on the null event. -/
lemma Transition.execute_none {ev : E} (hv : v.Pure) (ht : c.event t = some ev) :
    Returns (Transition.execute c v t none) w false w :=
  (Transition.returns_execute hv).mpr
    (Or.inr ⟨rfl, rfl, fun h => by simp [Transition.triggered, ht] at h⟩)

lemma HierarchicalState.idle (hk : c.kind s = .hierarchicalState)
    (h : w.data.isActive s = true → (w.data.current s = none → c.startState s = none)
      ∧ (∀ q, w.data.current s = some q → c.Idle q w)
      ∧ (c.isFinal (w.data.current s) = true → ∀ t ∈ c.transitions s, c.Refused t w)) :
    c.Idle s w := by
  cases ha : w.data.isActive s with
  | false =>
      exact ⟨1, by simp [Chart.methods, Chart.step, hk, HierarchicalState.returns_dispatch, ha]⟩
  | true =>
      obtain ⟨hst, hq, ht⟩ := h ha
      obtain ⟨i, hi⟩ : ∃ i, ∀ k, i ≤ k →
          Returns (HierarchicalState.dispatchCurrent (c.methods k) s none) w false w := by
        cases hcur : w.data.current s with
        | none => exact ⟨0, fun _ _ => HierarchicalState.returns_dispatchCurrent.mpr
            (Or.inl ⟨hcur, rfl, rfl⟩)⟩
        | some q =>
            obtain ⟨i, hi⟩ := hq q hcur
            exact ⟨i, fun k hk => HierarchicalState.returns_dispatchCurrent.mpr
              (Or.inr ⟨q, hcur, (monotone_methods c hk).2.2.2 q none _ _ _ hi⟩)⟩
      obtain ⟨j, hj⟩ : ∃ j, ∀ k, j ≤ k → ∀ t ∈ c.transitions s,
          Returns (HierarchicalState.tryTransition c (c.methods k)
            (c.isFinal (w.data.current s)) none t) w false w := by
        cases hf : c.isFinal (w.data.current s) with
        | false =>
            refine ⟨0, fun k _ t _ =>
              (HierarchicalState.returns_tryTransition (pure_methods c k)).mpr ?_⟩
            cases hev : c.event t with
            | none => exact Or.inl ⟨⟨rfl, rfl⟩, rfl, rfl⟩
            | some ev => exact Or.inr ⟨by simp, Transition.execute_none (pure_methods c k) hev⟩
        | true =>
            obtain ⟨j, hj⟩ := Chart.exists_refused (ht hf)
            exact ⟨j, fun k hk t htr =>
              (HierarchicalState.returns_tryTransition (pure_methods c k)).mpr
                (Or.inr ⟨fun _ => rfl, hj k hk t htr⟩)⟩
      have hown := (anyM_false_iff fun _ _ _ _ => HierarchicalState.tryTransition_false
        (pure_methods c (max i j))).mpr ⟨rfl, hj (max i j) (le_max_right i j)⟩
      have hdis : Returns (HierarchicalState.dispatch c (c.methods (max i j)) s none) w false w :=
        HierarchicalState.returns_dispatch.mpr (Or.inr ⟨ha, w, w, false,
          HierarchicalState.returns_enterStart.mpr (Or.inl ⟨rfl, hst⟩), hi _ (le_max_left i j),
          Or.inr (Or.inr ⟨ha, by simp, hown⟩)⟩)
      exact ⟨max i j + 1, by simpa only [Chart.methods, Chart.step, hk] using hdis⟩

lemma ConcurrentState.idle (hk : c.kind n = .concurrentState)
    (hr : ∀ r ∈ c.regions n, w.data.isActive n = true → c.Idle r w)
    (ht : ∀ t ∈ c.transitions n, w.data.isActive n = true →
      ConcurrentState.finished c n w = true → c.Refused t w) : c.Idle n w := by
  obtain ⟨i, hi⟩ := exists_dispatchRegions fun ha r hrn => hr r hrn ha
  obtain ⟨j, hj⟩ : ∃ j, ∀ k, j ≤ k → ∀ t ∈ c.transitions n,
      Returns (ConcurrentState.tryTransition c (c.methods k) n none t) w false w := by
    cases hgo : w.data.isActive n && ConcurrentState.finished c n w with
    | false =>
        refine ⟨0, fun k _ t _ => ConcurrentState.returns_tryTransition.mpr ?_⟩
        cases ha : w.data.isActive n with
        | false => exact Or.inl ⟨Or.inl rfl, rfl, rfl⟩
        | true =>
            rw [ha, Bool.true_and] at hgo
            cases hev : c.event t with
            | none => exact Or.inl ⟨Or.inr ⟨rfl, hgo⟩, rfl, rfl⟩
            | some ev =>
                exact Or.inr ⟨rfl, by simp, Transition.execute_none (pure_methods c k) hev⟩
    | true =>
        obtain ⟨ha, hf⟩ := Bool.and_eq_true_iff.mp hgo
        obtain ⟨j, hj⟩ := Chart.exists_refused fun t htn => ht t htn ha hf
        exact ⟨j, fun k hk t htn => ConcurrentState.returns_tryTransition.mpr
          (Or.inr ⟨ha, fun _ => hf, hj k hk t htn⟩)⟩
  have hown := (anyM_false_iff fun _ _ _ _ => ConcurrentState.tryTransition_false
    (pure_methods c (max i j))).mpr ⟨rfl, hj (max i j) (le_max_right i j)⟩
  have hdis : Returns (ConcurrentState.dispatch c (c.methods (max i j)) n none) w false w :=
    ConcurrentState.returns_dispatch.mpr (Or.inr ⟨w, hi _ (le_max_left i j), hown⟩)
  exact ⟨max i j + 1, by simpa only [Chart.methods, Chart.step, hk] using hdis⟩

/-- A state is idle where nothing is left to enter on the way of the null event and each transition
it comes to is refused. -/
lemma Chart.Explored.idle (h : c.Explored w s) (ht : ∀ t, c.Meets w s t → c.Refused t w) :
    c.Idle s w := by
  induction h with
  | @inactive s hk ha =>
      refine HierarchicalState.idle hk fun ha' => ?_
      rw [ha] at ha'
      cases ha'
  | @empty s hk hq hst =>
      refine HierarchicalState.idle hk fun ha => ⟨fun _ => hst, fun q hq' => ?_,
        fun hf t htr => ht t (.completed hk ha hf htr)⟩
      rw [hq] at hq'
      cases hq'
  | @substate s q hk hq h ih =>
      refine HierarchicalState.idle hk fun ha => ⟨fun hno => ?_, fun x hx => ?_,
        fun hf t htr => ht t (.completed hk ha hf htr)⟩
      · rw [hq] at hno
        cases hno
      · obtain rfl := Option.some.inj (hq.symm.trans hx)
        exact ih fun t h => ht t (.substate hk ha hq h)
  | @concurrent n hk h ih =>
      exact ConcurrentState.idle hk
        (fun r hr ha => ih ha r hr fun t h => ht t (.region hk ha hr h))
        fun t htn ha hf => ht t (.finished hk ha hf htn)
  | @restored s q hk hq h ih =>
      obtain ⟨i, hi⟩ := ih fun t h => ht t (.restored hk hq h)
      have hdis : Returns (PseudoState.dispatch c (c.methods i) s none) w false w :=
        PseudoState.returns_dispatch.mpr (Or.inl ⟨q, hk, hq, hi⟩)
      refine ⟨i + 1, ?_⟩
      cases hks : c.kind s <;> simp only [hks, StateKind.isHistory, Bool.false_eq_true] at hk
      simpa only [Chart.methods, Chart.step, hks] using hdis
  | @own s hk hn hf hh =>
      obtain ⟨i, hi⟩ := Chart.exists_refused fun t htr => ht t (.own hk hn hh htr)
      have hdis : Returns (State.dispatch c (c.methods i) s none) w false w :=
        (anyM_false_iff fun _ _ _ _ => execute_false (pure_methods c i)).mpr ⟨rfl, hi i le_rfl⟩
      refine ⟨i + 1, ?_⟩
      cases hks : c.kind s
      case hierarchicalState => exact absurd hks hk
      case concurrentState => exact absurd hks hn
      case pseudoState =>
        have hps : Returns (PseudoState.dispatch c (c.methods i) s none) w false w := by
          refine PseudoState.returns_dispatch.mpr (Or.inr (Or.inr ⟨?_, hdis⟩))
          cases hist : (c.kind s).isHistory with
          | true => exact Or.inl ⟨rfl, hh hist⟩
          | false => exact Or.inr ⟨rfl, hf⟩
        simpa only [Chart.methods, Chart.step, hks] using hps
      all_goals simpa only [Chart.methods, Chart.step, hks] using hdis

lemma Chart.FirstEntry.length_lt (h : c.FirstEntry s w w') :
    w.trace.length < w'.trace.length := by
  obtain ⟨-, -, -, st, -, rfl⟩ := h
  obtain ⟨l, hl, -⟩ : (c.activateData st (c.activateData st w)).Extends
    (c.visit st (c.activateData st w)) := World.adds_perform trivial
  rw [hl]
  simp only [Chart.activateData, World.trace_log, World.trace_onData, List.length_append,
    List.length_cons]
  omega

lemma Chart.Entries.length_le (h : c.Entries w w') : w.trace.length ≤ w'.trace.length := by
  obtain ⟨l, hl, -⟩ := h.extends
  simp [hl]

/-- There is no way back from a first entry. -/
lemma Chart.gentleBetween_self : c.GentleBetween w w := by
  intro s u u' hu he hu'
  have h₁ := Chart.Entries.length_le hu
  have h₂ := he.length_lt
  have h₃ := Chart.Entries.length_le hu'
  omega

lemma Chart.Entries.eq_self (h : c.Entries w w₁) (h' : c.Entries w₁ w) : w₁ = w := by
  rcases Relation.ReflTransGen.cases_head h with heq | ⟨u, ⟨s, he⟩, hu⟩
  · exact heq.symm
  · have h₁ := he.length_lt
    have h₂ := Chart.Entries.length_le hu
    have h₃ := Chart.Entries.length_le h'
    omega

/-- In an idle state, each transition that the null event comes to is refused. -/
lemma Chart.Idle.refused (h : c.Idle s w) (hs : c.Placed s w) (ht : c.Meets w s t) :
    c.Refused t w := by
  obtain ⟨k, h⟩ := h
  obtain ⟨-, hwalk⟩ := walked_of_dispatch k h (World.Adds.refl w)
  obtain ⟨-, hoff⟩ := hwalk Chart.gentleBetween_self hs
  obtain ⟨u, hu, hu', ht⟩ := hoff t ht
  exact Chart.Entries.eq_self hu hu' ▸ ht

/-! ### Run to completion -/

namespace Statechart

variable {e : Option E}

/-- The pass that ends the completion loop of a dispatch of `e` from `w`. -/
def LastPass (c : Chart S T E P) (e : Option E) (w w₁ w₂ : World S T E P) : Prop :=
  ∃ rc w₀ j, Returned (fun n => pass c n e) w rc w₀ ∧ Reports c j w₀ w₁ ∧ Pass c w₁ false w₂

/-- No transition that the null event comes to at the end of a pass was refused in the pass, and is
enabled at its end. -/
def EnablesNothing (c : Chart S T E P) (w w' : World S T E P) : Prop :=
  ∀ q t u, w'.data.current c.root = some q → c.Meets w' q t → c.Entries w u → c.Entries u w' →
    c.Refused t u → c.Refused t w'

lemma LastPass.unique {v₁ v₂ : World S T E P} (h : LastPass c e w w₁ w₂)
    (h' : LastPass c e w v₁ v₂) : w₁ = v₁ ∧ w₂ = v₂ := by
  obtain ⟨_, _, _, hp, hr, hlast⟩ := h
  obtain ⟨_, _, _, hp', hr', hlast'⟩ := h'
  obtain ⟨-, rfl⟩ := Returned.unique (monotone_pass c e) hp hp'
  exact (hr.stop_unique hlast hr' hlast').2

/-- On a chart that was never started nothing happens. -/
lemma LastPass.eq_of_getData (h : LastPass c e w w₁ w₂)
    (hd : (w.data.getData c.root).isSome = false) : w₂ = w := by
  obtain ⟨_, w₀, j, hp, hr, hlast⟩ := h
  obtain ⟨-, rfl⟩ := (returned_pass_of_getData hd).mp hp
  cases j with
  | zero =>
      obtain rfl : w₁ = w₀ := hr
      exact ((returned_pass_of_getData hd).mp hlast).2
  | succ j =>
      obtain ⟨b, _, hp', rfl, -⟩ := hr
      exact absurd ((returned_pass_of_getData hd).mp hp').1 (by simp)

/-- A pass that reports nothing and offers nothing once more leaves a quiescent configuration, if
and only if its first entries have enabled nothing. -/
lemma Pass.quiescent_after (h : Pass c w false w') (ho : w.OffersOnce w')
    (hg : c.GentleBetween w w') : Quiescent c w' ↔ EnablesNothing c w w' := by
  cases hcur : w.data.current c.root with
  | none =>
      obtain ⟨n, hn⟩ := h
      rcases returns_pass.mp hn with ⟨-, -, rfl⟩ | ⟨q, hq, -⟩
      · refine iff_of_true (quiescent_of_pass ⟨n, hn⟩) fun q t u hq => ?_
        rw [hcur] at hq
        cases hq
      · rw [hcur] at hq
        cases hq
  | some q =>
      obtain ⟨k, hk⟩ := (returned_pass hcur).mp h
      obtain ⟨he, hwalk⟩ := walked_of_dispatch k hk ho
      have hcur' : w'.data.current c.root = some q := (hg.keeps he).2 c.root q hcur
      obtain ⟨hent, hoff⟩ := hwalk hg (Or.inl ⟨c.root, hcur⟩)
      constructor
      · intro hq q' t _ hq' ht _ _ _
        obtain rfl := Option.some.inj (hcur'.symm.trans hq')
        exact (hq.idle hcur').refused (Or.inl ⟨c.root, hcur'⟩) ht
      · refine fun hnot => quiescent_of_pass ((returned_pass hcur').mpr (hent.idle fun t ht => ?_))
        obtain ⟨u, hu, hu', href⟩ := hoff t ht
        exact hnot q t u hcur' ht hu hu' href

/-- **Run to completion.** A call of `start` or `dispatch` that returns, and whose last pass offers
no handled event once more, leaves a quiescent configuration if and only if no first entry of this
pass enables a transition on the way of the null event that was refused before. -/
theorem quiescent_iff {call : Call E P} {rc : Bool}
    (h : Returned (fun n => Statechart.call c n call) w (.returned rc) w')
    (hl : ∀ w₁ w₂, LastPass c call.event (call.prepare c w) w₁ w₂ →
      w₁.OffersOnce w₂ ∧ c.GentleBetween w₁ w₂) :
    Quiescent c w' ↔ ∀ w₁ w₂, LastPass c call.event (call.prepare c w) w₁ w₂ →
      EnablesNothing c w₁ w₂ := by
  rcases returned_dispatch.mp (returned_call.mp h) with
    ⟨hd, -, rfl⟩ | ⟨-, rc', w₀, hp, ⟨-, ho⟩ | ⟨⟨j, -, w₁, hr, hlast⟩, -⟩⟩
  · refine iff_of_true ?_ fun v₁ v₂ hv q t u hq => ?_
    · exact ⟨_, returned_dispatch.mpr (Or.inl ⟨hd, rfl, rfl⟩), rfl, fun _ => ⟨rfl, rfl⟩⟩
    · obtain rfl := hv.eq_of_getData hd
      have hnone : (call.prepare c w).data.getData c.root = none := by simpa using hd
      rw [Metadata.current, hnone] at hq
      cases hq
  · cases ho
  · have hpass : LastPass c call.event (call.prepare c w) w₁ w' := ⟨rc', w₀, j, hp, hr, hlast⟩
    obtain ⟨ho, hg⟩ := hl w₁ w' hpass
    rw [hlast.quiescent_after ho hg]
    refine ⟨fun hnot v₁ v₂ hv => ?_, fun hnot => hnot w₁ w' hpass⟩
    obtain ⟨rfl, rfl⟩ := hpass.unique hv
    exact hnot

end Statechart

/-! ### Clients that leave the metadata alone -/

/-- Where the actions leave the metadata alone and the current states are substates, a first entry
changes the current state of the state it enters only. -/
lemma Chart.FirstEntry.gentle (h : c.FirstEntry s w w') (hc : c.ActionsKeepData)
    (hp : c.Pointers w.data) : c.Gentle s w w' := by
  obtain ⟨-, ha, -, st, hst, rfl⟩ := h
  obtain ⟨hk, hctx⟩ := Chart.startState_eq_some hst
  have hd : (w.data.getData s).isSome = true := by
    cases hd : w.data.getData s <;> simp_all [Metadata.isActive]
  have hne : s ≠ st := (Forest.ne_of_parent (F := c.forest) hctx).symm
  -- a start state has no substates
  have hleaf : w.data.current st = none := by
    cases hcur : w.data.current st with
    | none => rfl
    | some q =>
        have := c.context_kind (hp st q hcur)
        simp [hk, StateKind.isContext] at this
  have hcur : ∀ r, (c.visit st (c.activateData st w)).data.current r
      = if r = s then some st else w.data.current r := by
    intro r
    rw [hc.data_visit, current_activateData hctx, current_activateData hctx]
    by_cases hr : r = st
    · subst hr
      simp [hne.symm, hleaf]
    · by_cases hrs : r = s
      · subst hrs
        simp [hne, hd]
      · simp [hr, hrs]
  refine ⟨hp, by simp [hcur], fun r hr => by rw [hcur, if_neg hr], fun q hq => ?_⟩
  have hqst : q ≠ st := fun h => hq (h ▸ hk)
  simp [hc.data_visit, hqst]

lemma Chart.Pointers.entries (h : c.Pointers w.data) (hc : c.ActionsKeepData)
    (he : c.Entries w w') : c.Pointers w'.data := by
  induction he with
  | refl => exact h
  | tail _ hstep ih =>
      obtain ⟨s, -, -, -, st, -, rfl⟩ := hstep
      rw [hc.data_visit]
      exact ih.activateData.activateData

lemma Chart.Pointers.gentleBetween (h : c.Pointers w.data) (hc : c.ActionsKeepData) :
    c.GentleBetween w w' :=
  fun _ _ _ hu he _ => he.gentle hc (h.entries hc hu)

/-! ### A first entry that enables nothing -/

namespace Stalled

/-- A hierarchical state `a` whose start state cannot be left while the parameter is false. -/
inductive St where
  | chart | s | a | sa | b
  deriving DecidableEq

instance : Fintype St := ⟨{.chart, .s, .a, .sa, .b}, fun x => by cases x <;> decide⟩

inductive Tr where
  | begin | beginA
  deriving DecidableEq

instance : Fintype Tr := ⟨{.begin, .beginA}, fun t => by cases t <;> decide⟩

/-- The last pass of `start` enters `a` for the first time. -/
def chart : Chart St Tr Event Bool where
  name := "stalled"
  root := .chart
  ownedStates := [.s, .a, .sa, .b]
  ownedTransitions := [.begin, .beginA]
  kind
    | .chart => .statechart
    | .s | .sa => .pseudoState .start
    | .a => .hierarchicalState
    | .b => .state
  context
    | .chart => none
    | .s | .a => some .chart
    | .sa | .b => some .a
  depth
    | .chart => 0
    | .s | .a => 1
    | .sa | .b => 2
  source
    | .begin => .s
    | .beginA => .sa
  target
    | .begin => .a
    | .beginA => .b
  guard
    | .beginA => some fun _ p => p
    | _ => none
  equals ev e _ _ := ev.equals e
  timeout := Event.timeout

lemma actionsKeepData : chart.ActionsKeepData :=
  ⟨by simp [chart], by simp [chart], by simp [chart], by simp [chart]⟩

set_option maxRecDepth 4000 in
/-- **A quiescent configuration behind a first entry.** `start` enters `a` and its start state in
the last pass, which enables nothing. -/
theorem quiescent_start : ∃ w,
    Returned (fun n => Statechart.call chart n (.start false)) (World.fresh false)
        (.returned true) w
      ∧ Statechart.Quiescent chart w := by
  have hpass : Statechart.LastPass chart (Call.event (.start false : Call Event Bool))
      (Call.prepare chart (World.fresh false) (.start false)) _ _ :=
    ⟨true, _, 0, ⟨20, rfl⟩, rfl, ⟨20, rfl⟩⟩
  refine ⟨_, ⟨20, rfl⟩, (Statechart.quiescent_iff (⟨20, rfl⟩ : Returned (fun n =>
    Statechart.call chart n (.start false)) (World.fresh false) (.returned true) _) ?_).mpr ?_⟩
  · intro w₁ w₂ h
    obtain ⟨rfl, rfl⟩ := hpass.unique h
    refine ⟨⟨[_, _], rfl, by simp⟩, Chart.Pointers.gentleBetween (fun p q hq => ?_) actionsKeepData⟩
    cases p <;> cases q <;> first | rfl | exact absurd hq (by decide)
  · intro w₁ w₂ h
    obtain ⟨rfl, rfl⟩ := hpass.unique h
    intro q t u hq ht _ _ _
    obtain rfl : St.a = q := Option.some.inj hq
    obtain ⟨-, ⟨q, hq, ht⟩ | ⟨hf, -⟩⟩ := ht.hierarchical rfl
    · obtain rfl : St.sa = q := Option.some.inj hq
      rcases ht.simple (by decide) (by decide) with ⟨_, hh, -⟩ | ⟨-, ht⟩
      · cases hh
      · obtain rfl : t = .beginA := List.mem_singleton.mp ht
        exact ⟨1, rfl⟩
    · cases hf

end Stalled

end CppStatecharts
