import CppStatecharts.Refinement.Branch

/-!
Taking a transition in a nested chart.

* `Branch.deactivate_shape`, `Branch.exits`: a state is left with all that is active inside it, from
  the inside out, and then the states up to the scope of the transition.
* `Branch.entries`: the states on the way down to the target are entered from the outside in.
* `Branch.fire_shape`: the code and the automaton take a transition alike.
-/

namespace CppStatecharts

variable {S T E P : Type} [DecidableEq S]

namespace Branch

open Reference

variable {c : Chart S T E P} {p q s x y m d : S} {l : List S} {t : T}

/-! ### Leaving -/

section Leaving

variable {w w₁ w' : World S T E P} {k : Config S T P} {u : PUnit} {b : Bool} {n : ℕ} {z : S}
variable {v : List S}

/-- The innermost state is left. -/
lemma state_deactivate (hn : c.Nested) (hc : c.ActionsKeepData) (hu : c.Unaware)
    (h : w.Shows (shape c x) k) (hd : Returns (State.deactivate c x) w u w') :
    w'.Shows (left c x) (exit c k x) := by
  have hact : w.data.isActive x = true := by
    rw [h.isActive, isActive_shape]
    exact decide_eq_true (Forest.below_refl x)
  rcases State.returns_deactivate.mp hd with ⟨hno, -⟩ | ⟨-, rfl⟩
  · rw [hact] at hno
    cases hno
  · have hleft : (c.leave x w).Shows (left c x) k :=
      h.cancelTimeouts.deactivateData (by simpa using hact) (hn.noHistory x)
    exact hleft.perform rfl hc.data_exit fun _ hf => hu.actions.exit hf

lemma clearCurrent_of_left (hd : c.context d = some p) (h : w.Shows (left c d) k) :
    (Chart.clearCurrent p w).Shows (shape c p) k := by
  refine ⟨?_, h.param, h.performed⟩
  rw [← clear_left hd, ← h.data]
  exact Metadata.mapTimeouts_modify fun _ => rfl

lemma clearCurrent_of_shape (h : w.Shows (shape c p) k) :
    (Chart.clearCurrent p w).Shows (shape c p) k := by
  refine ⟨?_, h.param, h.performed⟩
  have hself : (shape c p).modify p (fun r => { r with currentState := none }) = shape c p := by
    ext y : 1
    by_cases hy : y = p
    · subst hy
      have hcur := current_shape_self (c := c) (q := y)
      rw [Metadata.getData_modify_self]
      cases hd : (shape c y).getData y with
      | none => rfl
      | some r =>
          have hr : r.currentState = none := by simpa [Metadata.current, hd] using hcur
          cases r
          simp_all
    · rw [Metadata.getData_modify_of_ne hy]
  rw [← hself, ← h.data]
  exact Metadata.mapTimeouts_modify fun _ => rfl

omit [DecidableEq S] in
lemma kind_of_context (hn : c.Nested) (hx : c.context y = some x) (hr : x ≠ c.root) :
    c.kind x = .hierarchicalState := by
  have hctx := c.context_kind hx
  cases hk : c.kind x with
  | statechart => exact absurd ((c.kind_statechart x).mp hk) hr
  | hierarchicalState => rfl
  | concurrentState => exact absurd hk (hn.noConcurrent x)
  | state | finalState | pseudoState => rw [hk] at hctx; cases hctx

lemma saveHistory_eq (hn : c.Nested) {cur : Option S}
    (h : Returns (HierarchicalState.saveHistory c x cur) w u w') : w' = w := by
  rcases HierarchicalState.returns_saveHistory.mp h with ⟨rfl, -⟩ | ⟨y, hy, -⟩
  · rfl
  · have := (Chart.history_eq_some_iff.mp hy).1
    rw [hn.noHistory y] at this
    cases this

/-- A state is left with all that is active inside it, from the inside out. -/
lemma deactivate_shape (hn : c.Nested) (hc : c.ActionsKeepData) (hu : c.Unaware) (hx : x ≠ c.root)
    (h : w.Shows (shape c q) k) (hl : c.forest.Descends x l q)
    (hd : Returns ((c.methods n).deactivate x) w u w') :
    w'.Shows (left c x) ((x :: l).reverse.foldl (exit c) k) := by
  induction n generalizing x l w' with
  | zero => exact absurd hd (by simp [Chart.methods])
  | succ n ih =>
      have hact : w.data.isActive x = true := by
        rw [h.isActive, isActive_shape]
        exact decide_eq_true hl.below
      by_cases hk : c.kind x = .hierarchicalState
      · simp only [Chart.methods, Chart.step, hk] at hd
        rcases HierarchicalState.returns_deactivate.mp hd with ⟨hno, -⟩ | ⟨-, w₁, w₂, h₁, h₂, h₃⟩
        · rw [hact] at hno
          cases hno
        obtain rfl := saveHistory_eq hn h₁
        rw [h.current] at h₂
        cases l with
        | nil =>
            obtain rfl : q = x := hl
            rw [current_shape_self] at h₂
            obtain ⟨-, rfl⟩ := returns_pure.mp h₂
            exact state_deactivate hn hc hu (clearCurrent_of_shape h) h₃
        | cons y l =>
            rw [current_shape hl.2.below hl.1] at h₂
            have hy := ih (Chart.ne_root_of_context hl.1) hl.2 h₂
            rw [List.reverse_cons, List.foldl_append]
            exact state_deactivate hn hc hu (clearCurrent_of_left hl.1 hy) h₃
      · have hctx : (c.kind x).isContext = false := by
          have := hn.noConcurrent x
          have := fun h => hx ((c.kind_statechart x).mp h)
          cases hkx : c.kind x <;> simp_all [StateKind.isContext]
        obtain rfl := Chart.eq_of_below_of_not_isContext hctx hl.below
        obtain rfl : l = [] := hl.unique (show c.forest.Descends q [] q from rfl)
        have hd' : Returns (State.deactivate c q) w u w' := by
          have := hn.noConcurrent q
          cases hkq : c.kind q <;> simp_all [Chart.methods, Chart.step]
        exact state_deactivate hn hc hu h hd'

/-- Nothing happens to a state that is not active. -/
lemma deactivate_inactive (hn : c.Nested) (hx : w.data.isActive x = false)
    (hd : Returns ((c.methods n).deactivate x) w u w') : w' = w := by
  cases n with
  | zero => exact absurd hd (by simp [Chart.methods])
  | succ n =>
      by_cases hk : c.kind x = .hierarchicalState
      · simp only [Chart.methods, Chart.step, hk] at hd
        rcases HierarchicalState.returns_deactivate.mp hd with ⟨-, rfl⟩ | ⟨ha, -⟩
        · rfl
        · rw [hx] at ha
          cases ha
      · have hd' : Returns (State.deactivate c x) w u w' := by
          have := hn.noConcurrent x
          cases hkx : c.kind x <;> simp_all [Chart.methods, Chart.step]
        rcases State.returns_deactivate.mp hd' with ⟨-, rfl⟩ | ⟨ha, -⟩
        · rfl
        · rw [hx] at ha
          cases ha

/-- After a state its context is left. -/
lemma deactivate_left (hn : c.Nested) (hc : c.ActionsKeepData) (hu : c.Unaware) (hx : x ≠ c.root)
    (hd : c.context d = some x) (h : w.Shows (left c d) k)
    (hx' : Returns ((c.methods n).deactivate x) w u w') : w'.Shows (left c x) (exit c k x) := by
  cases n with
  | zero => exact absurd hx' (by simp [Chart.methods])
  | succ n =>
      have hdx := Forest.ne_of_parent (F := c.forest) hd
      have hbelow := Forest.below_of_parent (F := c.forest) hd
      simp only [Chart.methods, Chart.step, kind_of_context hn hd hx] at hx'
      have hcur : w.data.current x = some d := by
        rw [h.current, left, Metadata.current_congr (Metadata.getData_deactivate_of_ne hdx.symm),
          current_shape (Forest.below_refl d) hd]
      have hact : w.data.isActive x = true := by
        rw [h.isActive, left, Metadata.isActive_congr (Metadata.getData_deactivate_of_ne hdx.symm),
          isActive_shape]
        exact decide_eq_true hbelow
      have hinact : w.data.isActive d = false := by
        rw [h.isActive, left, Metadata.isActive, Metadata.getData_deactivate_self]
        rfl
      rcases HierarchicalState.returns_deactivate.mp hx' with ⟨hno, -⟩ | ⟨-, w₁, w₂, h₁, h₂, h₃⟩
      · rw [hact] at hno
        cases hno
      obtain rfl := saveHistory_eq hn h₁
      rw [hcur] at h₂
      obtain rfl := deactivate_inactive hn hinact h₂
      exact state_deactivate hn hc hu (clearCurrent_of_left hd h) h₃

lemma forM_left (hn : c.Nested) (hc : c.ActionsKeepData) (hu : c.Unaware)
    (h : w.Shows (left c z) k) (hz : c.context z = some y) (hl : c.forest.Descends m l y)
    (hd : Returns (l.reverse.forM (c.methods n).deactivate) w u w') :
    w'.Shows (left c (l.head?.getD z)) (l.reverse.foldl (exit c) k) := by
  induction l using List.reverseRecOn generalizing w k y z with
  | nil =>
      obtain rfl := returns_forM_nil.mp hd
      exact h
  | append_singleton l a ih =>
      obtain ⟨q, hl', ha, rfl⟩ := Forest.descends_append.mp hl
      rw [List.reverse_append, List.reverse_singleton, List.singleton_append] at hd ⊢
      obtain ⟨w₁, h₁, h₂⟩ := returns_forM_cons.mp hd
      have hleft := deactivate_left hn hc hu (Chart.ne_root_of_context ha) hz h h₁
      have hrest := ih hleft ha hl' h₂
      cases l <;> exact hrest

/-- The states on the way from the innermost active one to the outermost one that is left. -/
lemma exits (hn : c.Nested) (hc : c.ActionsKeepData) (hu : c.Unaware)
    (h : w.Shows (shape c q) k) (hd : c.forest.Descends m (d :: v) s)
    (hl : c.forest.Descends s l q)
    (he : Returns ((d :: v).reverse.forM (c.methods n).deactivate) w u w') :
    w'.Shows (left c d) ((d :: v ++ l).reverse.foldl (exit c) k) := by
  obtain ⟨v', hv⟩ : ∃ v', d :: v = v' ++ [s] :=
    ⟨_, (List.dropLast_append_getLast? _ (Forest.Descends.getLast? hd)).symm⟩
  rw [hv] at hd he ⊢
  obtain ⟨p, hd, hs, -⟩ := Forest.descends_append.mp hd
  rw [List.reverse_append, List.reverse_singleton, List.singleton_append] at he
  obtain ⟨w₁, h₁, h₂⟩ := returns_forM_cons.mp he
  have hleft := deactivate_shape hn hc hu (Chart.ne_root_of_context hs) h hl h₁
  have hrest := forM_left hn hc hu hleft hs hd h₂
  have hhead : v'.head?.getD s = d := by
    cases v' <;> simp_all
  rw [hhead] at hrest
  simpa [List.foldl_append] using hrest

end Leaving

/-! ### Entering -/

section Entering

variable {w w₁ w' : World S T E P} {k : Config S T P} {u : PUnit} {b : Bool} {n : ℕ} {e : S}
variable {v : List S} {μ : Metadata S}

/-- A state is entered from where its activation makes it the innermost one. -/
lemma activate_shape (hn : c.Nested) (hc : c.ActionsKeepData) (hu : c.Unaware)
    (h : w.Shows μ k) (hx : μ.activate (c.context x) x = shape c x)
    (hin : (c.kind x).isPseudo = false → μ.isActive x = false)
    (ha : Returns ((c.methods n).activate x) w b w') : w'.Shows (shape c x) (enter c k x) := by
  have hshape : (c.activateData x w).Shows (shape c x) k := hx ▸ h.activateData
  cases n with
  | zero => exact absurd ha (by simp [Chart.methods])
  | succ n =>
      unfold enter
      cases hp : (c.kind x).isPseudo with
      | true =>
          have ha' : Returns (PseudoState.activate c (c.methods n) x) w b w' := by
            cases hk : c.kind x <;> simp_all [Chart.methods, Chart.step, StateKind.isPseudo]
          obtain ⟨-, ⟨hh, -⟩ | ⟨-, hfork, -⟩ | ⟨-, -, rfl⟩⟩ := PseudoState.returns_activate.mp ha'
          · rw [hn.noHistory x] at hh
            cases hh
          · exact absurd hfork (hn.noFork x)
          · exact hshape.perform rfl hc.data_entry fun _ hf => hu.actions.entry hf
      | false =>
          have ha' : Returns (State.activate c x) w b w' := by
            have := hn.noConcurrent x
            cases hk : c.kind x <;> simp_all [Chart.methods, Chart.step, StateKind.isPseudo]
          rcases State.returns_activate.mp ha' with ⟨hact, -⟩ | ⟨-, -, rfl⟩
          · rw [h.isActive, hin hp] at hact
            cases hact
          · have harr : (c.arrive x w).Shows (shape c x) k := hshape.scheduleTimeouts
            have hent := harr.perform (o := .entry x) (a := c.entryAction x) rfl hc.data_entry
              fun _ hf => hu.actions.entry hf
            exact hent.perform rfl hc.data_doing fun _ hf => hu.actions.doing hf

/-- The states on the way down are entered one after the other. -/
lemma entries (hn : c.Nested) (hc : c.ActionsKeepData) (hu : c.Unaware)
    (h : w.Shows (shape c m) k) (hl : c.forest.Descends m l y)
    (ha : Returns (Statechart.activateAll c n l) w u w') :
    w'.Shows (shape c y) (l.foldl (enter c) k) := by
  induction l generalizing m w k with
  | nil =>
      obtain rfl : y = m := hl
      obtain rfl := returns_forM_nil.mp ha
      exact h
  | cons x l ih =>
      obtain ⟨b, w₁, h₁, h₂⟩ := Statechart.returns_activateAll_cons.mp ha
      have hx : c.context x = some m := hl.1
      have hact : (shape c m).isActive x = false := by
        rw [isActive_shape]
        exact decide_eq_false (Forest.not_below_of_parent (F := c.forest) hx)
      have hshape : (shape c m).activate (c.context x) x = shape c x := by
        rw [hx, shape_of_context hx]
      exact ih (activate_shape hn hc hu h hshape (fun _ => hact) h₁) hl.2 h₂

/-- Without concurrent states the entry list is just a list. -/
lemma returns_activateAll (hn : c.Nested)
    (ha : Returns (Transition.activateAll c (c.methods n) l) w u w') :
    Returns (Statechart.activateAll c n l) w u w' := by
  induction l generalizing w with
  | nil => exact returns_forM_nil.mpr (returns_pure.mp ha).2
  | cons x l ih =>
      rw [Statechart.returns_activateAll_cons]
      cases l with
      | nil =>
          obtain ⟨b, w₁, h₁, h₂⟩ := returns_bind.mp ha
          exact ⟨b, w₁, h₁, returns_forM_nil.mpr (returns_pure.mp h₂).2⟩
      | cons r l =>
          obtain ⟨b, w₁, h₁, h₂⟩ := Transition.returns_activateAll_cons.mp ha
          rw [Chart.announce, if_neg (hn.noConcurrent x)] at h₁
          exact ⟨b, w₁, h₁, ih h₂⟩

/-- Both take the transition. -/
lemma fire_shape (hn : c.Nested) (hc : c.ActionsKeepData) (hu : c.Unaware)
    (h : w.Shows (shape c q) k) (ht : t ∈ c.ownedTransitions) (hq : c.Below q (c.source t))
    (hf : Returns (Transition.fire c (c.methods n) t) w u w') :
    ∃ q', w'.Shows (shape c q') (fire c q t k)
      ∧ (k.current = some q → (fire c q t k).current = some q') := by
  obtain ⟨w₁, w₂, h₁, h₂, rfl⟩ := Transition.returns_fire.mp hf
  have hs := h.log (o := .fire t w.data) rfl
  have heffect : ∀ {m : Metadata S} {k}, w₁.Shows m k →
      (w₁.perform (.effect t) (c.action t)).Shows m (act (.effect t) (c.action t) m k) :=
    fun h => h.perform rfl hc.data_effect fun _ hf => hu.actions.effect hf
  cases hi : c.internal t with
  | true =>
      simp only [Chart.deactivates, Chart.activates, hi, ↓reduceIte, returns_forM_nil,
        Transition.activateAll, returns_pure, true_and] at h₁ h₂
      rw [← h₁] at hs
      rw [h₂, fire, if_pos hi]
      exact ⟨q, (heffect hs).log rfl, current_act.trans⟩
  | false =>
      obtain ⟨m, d, e, u', v, hd, ha, hdd, hed, hm⟩ := exists_scope hn ht hi
      obtain ⟨l, hl⟩ := Forest.exists_descends hq
      rw [hd] at h₁
      rw [ha] at h₂
      have hql : c.forest.Descends m (d :: u' ++ l) q := Forest.descends_append.mpr ⟨_, hdd, hl⟩
      have hleft := heffect (exits hn hc hu hs hdd hl h₁)
      obtain ⟨b, w₃, h₃, h₄⟩ := Statechart.returns_activateAll_cons.mp (returns_activateAll hn h₂)
      have hde : (left c d).isActive e = false := by
        rw [left, Metadata.isActive_deactivate]
        by_cases hed' : e = d
        · simp [hed']
        · have hno : ¬ c.Below d e := fun h =>
            hed' (Forest.eq_of_below_children hed.1 hdd.1 h (Forest.below_refl d))
          simp [isActive_shape, hno]
      have hee : (left c d).activate (c.context e) e = shape c e := by
        rw [show c.context e = some m from hed.1]
        exact activate_left hdd.1 hed.1
      have hent := entries hn hc hu (activate_shape hn hc hu hleft hee (fun _ => hde) h₃) hed.2 h₄
      have hout : outermost c t q = d := by
        rw [outermost, upTo_eq hm hql, List.getLast?_reverse]
        rfl
      refine ⟨c.target t, ?_, fun _ => by rw [fire, if_neg (by simp [hi])]⟩
      rw [fire, if_neg (by simp [hi]), hout, upTo_eq hm hql, upTo_eq hm hed, List.reverse_reverse]
      exact ⟨hent.data, hent.param, hent.performed⟩

end Entering

end Branch

end CppStatecharts
