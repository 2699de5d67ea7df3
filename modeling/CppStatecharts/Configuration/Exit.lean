import CppStatecharts.Configuration.Marks

/-!
Leaving states.

* `Chart.Coherent`: what holds of a configuration even while states are being left: an active state
  has an active context, and is its current state unless the context is concurrent.
* `Chart.Fades`: a change that only leaves states inside `s`.
* `deactivate_fades`: `deactivate` of a state leaves everything inside it, in a coherent
  configuration; so does the loop of `Transition::execute` over the exit list (`exits_fades`).
-/

namespace CppStatecharts

variable {S T E P : Type} [DecidableEq S] {c : Chart S T E P}
variable {w w₁ w₂ w' : World S T E P} {s x p q d n m : S} {k : ℕ} {u : PUnit}

omit [DecidableEq S] in
lemma isHistory_of_context (h : c.context x = some p) : (c.kind p).isHistory = false :=
  StateKind.isHistory_eq_false_of_isContext (c.context_kind h)

omit [DecidableEq S] in
/-- No history contains anything. -/
lemma isHistory_of_below (hx : (c.kind x).isHistory = false) (h : c.Below x s) :
    (c.kind s).isHistory = false := by
  by_cases hxs : x = s
  · exact hxs ▸ hx
  · obtain ⟨z, hz, -⟩ := Forest.exists_child_of_below h hxs
    exact isHistory_of_context hz

omit [DecidableEq S] in
/-- The states on the way down to a state that is no pseudo-state are none either. -/
lemma isPseudo_of_descends {l : List S} (hl : c.forest.Descends p l s)
    (hs : (c.kind s).isPseudo = false) : ∀ x ∈ l, (c.kind x).isPseudo = false := by
  intro x hx
  cases l with
  | nil => cases hx
  | cons y l =>
      by_cases hxs : s = x
      · exact hxs ▸ hs
      · obtain ⟨z, hz, -⟩ :=
          Forest.exists_child_of_below (Forest.Descends.below_head hl x hx).2 hxs
        exact Chart.isPseudo_of_context hz

/-- Every active state has an active context, and is the current state of a context that is not
concurrent; histories, which keep their flag, do not count, but their contexts were active before.
The marks agree. -/
structure Chart.Coherent (c : Chart S T E P) (w : World S T E P) : Prop
    extends Chart.Recorded c w where
  links : c.Links w.data
  upward : ∀ {x p}, (c.kind x).isHistory = false → w.data.isActive x = true →
    c.context x = some p → w.data.isActive p = true
  single : ∀ {x p}, (c.kind x).isHistory = false → w.data.isActive x = true →
    c.context x = some p → c.kind p ≠ .concurrentState → w.data.current p = some x
  rooted : ∀ {q}, w.data.current c.root = some q → w.data.isActive c.root = true
  anchored : ∀ {x p}, (c.kind x).isHistory = true → w.data.isActive x = true →
    c.context x = some p → w.data.isActive p = true ∨ .deactivated p ∈ w.trace

/-- The change leaves states inside `s` and does nothing else. -/
structure Chart.Fades (c : Chart S T E P) (s : S) (w w' : World S T E P) : Prop where
  coherent : c.Coherent w'
  frame : ∀ {x}, ¬ c.Below x s → w'.data.isActive x = w.data.isActive x
    ∧ w'.data.current x = w.data.current x ∧ w'.data.stateset x = w.data.stateset x
  lower : ∀ {x}, w'.data.isActive x = true → w.data.isActive x = true
  clear : ∀ {n}, c.kind n = .concurrentState →
    (w.data.isActive n = false → w.data.hasData n = false) →
    w'.data.isActive n = false → w'.data.hasData n = false
  plain : w.Adds (fun o => o.isPlain = true) w'

namespace Chart

lemma Coherent.active_of_below (h : c.Coherent w) (hx : (c.kind x).isHistory = false)
    (ha : w.data.isActive x = true) (hb : c.Below x s) : w.data.isActive s = true := by
  induction hb using Relation.ReflTransGen.head_induction_on with
  | refl => exact ha
  | head hp _ ih => exact ih (isHistory_of_context hp) (h.upward hx ha hp)

/-- Nothing inside an inactive state is active. -/
lemma Coherent.inactive_of_below (h : c.Coherent w) (hs : w.data.isActive s = false)
    (hx : (c.kind x).isHistory = false) (hb : c.Below x s) : w.data.isActive x = false := by
  by_contra ha
  rw [h.active_of_below hx (by simpa using ha) hb] at hs
  cases hs

omit [DecidableEq S] in
/-- A state inside `s` is inside a child of `s`, which is no history if the state is none. -/
lemma exists_child (hx : (c.kind x).isHistory = false) (hb : c.Below x s) (hne : x ≠ s) :
    ∃ y, c.context y = some s ∧ c.Below x y ∧ (c.kind y).isHistory = false := by
  obtain ⟨y, hy, hxy⟩ := Forest.exists_child_of_below hb hne
  exact ⟨y, hy, hxy, isHistory_of_below hx hxy⟩

/-- Without an active child, there is nothing active inside. -/
lemma Coherent.inactive_of_children (h : c.Coherent w)
    (hin : ∀ y, (c.kind y).isHistory = false → c.context y = some s → w.data.isActive y = false)
    (hx : (c.kind x).isHistory = false) (hb : c.Below x s) (hne : x ≠ s) :
    w.data.isActive x = false := by
  obtain ⟨y, hy, hxy, hyk⟩ := exists_child hx hb hne
  exact h.inactive_of_below (hin y hyk hy) hx hxy

lemma Fades.refl (h : c.Coherent w) (s : S) : c.Fades s w w :=
  ⟨h, fun _ => ⟨rfl, rfl, rfl⟩, id, fun _ h => h, World.Adds.refl w⟩

lemma Fades.trans (h : c.Fades s w w₁) (h' : c.Fades s w₁ w') : c.Fades s w w' where
  coherent := h'.coherent
  frame hx := ⟨(h'.frame hx).1.trans (h.frame hx).1, (h'.frame hx).2.1.trans (h.frame hx).2.1,
    (h'.frame hx).2.2.trans (h.frame hx).2.2⟩
  lower hx := h.lower (h'.lower hx)
  clear hn hw := h'.clear hn (h.clear hn hw)
  plain := h.plain.trans h'.plain

lemma Fades.mono (h : c.Fades q w w') (hq : c.Below q s) : c.Fades s w w' where
  coherent := h.coherent
  frame hx := h.frame fun hb => hx (Forest.below_trans hb hq)
  lower := h.lower
  clear := h.clear
  plain := h.plain

/-- What is inactive stays so. -/
lemma Fades.inactive (h : c.Fades s w w') (hx : w.data.isActive x = false) :
    w'.data.isActive x = false := by
  by_contra ha
  rw [h.lower (by simpa using ha)] at hx
  cases hx

end Chart

/-- Leaving a state with nothing active inside. -/
lemma State.deactivate_fades (hc : c.ActionsKeepData) (h : c.Coherent w) (hs : s ≠ c.root)
    (hin : ∀ x, c.Below x s → x ≠ s → (c.kind x).isHistory = false → w.data.isActive x = false)
    (hd : Returns (State.deactivate c s) w u w') :
    c.Fades s w w' ∧ w'.data.isActive s = false := by
  rcases State.returns_deactivate.mp hd with ⟨hi, rfl⟩ | ⟨ha, rfl⟩
  · exact ⟨Chart.Fades.refl h s, hi⟩
  obtain ⟨l, hl, hmarks, hleft⟩ := trace_leave (c := c) (s := s) (w := w)
  have hchild : ∀ {x p}, (c.kind x).isHistory = false → w.data.isActive x = true →
      c.context x = some p → p ≠ s := by
    rintro x p hx hax hp rfl
    rw [hin x (Forest.below_of_parent hp) (Forest.ne_of_parent (F := c.forest) hp) hx] at hax
    cases hax
  have hactive : ∀ {x}, (c.leave s w).data.isActive x = true → x ≠ s ∧ w.data.isActive x = true :=
    fun hx => by simpa using hx
  refine ⟨⟨⟨h.depart hc ha hs hin, ?_, ?_, ?_, ?_, ?_⟩, ?_, ?_, ?_, ?_⟩, ?_⟩
  · rw [hc.data_exit]
    exact (compatible_links hc).leave s w ha h.links
  · intro x p hx hax hp
    rw [hc.data_exit] at hax ⊢
    have hne := hchild hx (hactive hax).2 hp
    simp [hne, h.upward hx (hactive hax).2 hp]
  · intro x p hx hax hp hk
    rw [hc.data_exit] at hax ⊢
    rw [current_leave, if_neg fun hps => hchild hx (hactive hax).2 hp hps.1]
    exact h.single hx (hactive hax).2 hp hk
  · intro q hq
    rw [hc.data_exit] at hq ⊢
    rw [current_leave, if_neg fun hrs => hs hrs.1.symm] at hq
    simp [hs.symm, h.rooted hq]
  · intro x p hx hax hp
    rw [hc.data_exit] at hax ⊢
    have hext : (c.leave s w).Extends ((c.leave s w).perform (.exit s) (c.exitAction s)) :=
      World.adds_perform trivial
    by_cases hps : p = s
    · subst hps
      refine Or.inr (hext.mem (hl ▸ List.mem_append_left _ (hleft (isHistory_of_context hp) ?_)))
      obtain ⟨d, hd, -⟩ := w.data.exists_of_isActive ha
      simp [hd]
    · refine (h.anchored hx (hactive hax).2 hp).imp (fun hpa => by simp [hps, hpa]) fun hm => ?_
      exact hext.mem (hl ▸ List.mem_append_right _ hm)
  · intro x hx
    have hne : x ≠ s := fun h => hx (h ▸ Forest.below_refl _)
    rw [hc.data_exit, isActive_leave, current_leave, stateset_leave]
    simp [hne]
  · intro x hx
    rw [hc.data_exit] at hx
    exact (hactive hx).2
  · intro n hn hclear hni
    rw [hc.data_exit] at hni ⊢
    rw [hasData_leave]
    by_cases hns : n = s
    · simp [← hns, hn, StateKind.isHistory]
    · simpa [hns] using hclear (by simpa [hns] using hni)
  · refine World.Adds.trans ⟨l, hl, fun o ho => ?_⟩ (World.adds_perform rfl)
    rcases hmarks o ho with rfl | ⟨_, _, rfl⟩ <;> rfl
  · rw [hc.data_exit]
    simp

/-- A write that keeps the active and the current states, the records, and all sets but those of
histories inside `s` and the one of `s`. -/
lemma Chart.Coherent.fades_of_eq (h : c.Coherent w) (hl : c.Links w'.data)
    (ha : ∀ x, w'.data.isActive x = w.data.isActive x)
    (hcur : ∀ x, w'.data.current x = w.data.current x)
    (hset : ∀ x, ¬ c.Below x s → w'.data.stateset x = w.data.stateset x)
    (hdata : ∀ n, w'.data.hasData n = w.data.hasData n)
    (ht : w'.trace = w.trace) : c.Fades s w w' := by
  refine ⟨⟨h.toRecorded.of_eq ha ht, hl, ?_, ?_, ?_, ?_⟩, fun hx =>
    ⟨ha _, hcur _, hset _ hx⟩, ?_, ?_, ?_⟩
  · intro x p
    rw [ha, ha]
    exact h.upward
  · intro x p
    rw [ha, hcur]
    exact h.single
  · intro q
    rw [ha, hcur]
    exact h.rooted
  · intro x p
    rw [ha, ha, ht]
    exact h.anchored
  · intro x
    rw [ha]
    exact id
  · intro n hn hw hi
    exact (hdata n).trans (hw (by rwa [ha] at hi))
  · exact World.Adds.of_eq ht

lemma HierarchicalState.saveHistory_fades (h : c.Coherent w)
    (hd : Returns (HierarchicalState.saveHistory c s (w.data.current s)) w u w') :
    c.Fades s w w' ∧ w'.data.current s = w.data.current s := by
  rcases HierarchicalState.returns_saveHistory.mp hd with ⟨rfl, -⟩ | ⟨y, hy, hst, hd⟩
  · exact ⟨Chart.Fades.refl h s, rfl⟩
  obtain ⟨hyk, hys⟩ := Chart.history_eq_some_iff.mp hy
  refine ⟨h.fades_of_eq (h.links.storeHistory hy hst hd) (fun _ => isActive_storeHistory hd)
    (fun _ => current_storeHistory hd) (fun x hx => stateset_storeHistory hd ?_)
    (fun _ => hasData_storeHistory hd) ?_, current_storeHistory hd⟩
  · rintro rfl
    exact hx (Forest.below_of_parent hys)
  · rcases Chart.returns_storeHistory hd with rfl | ⟨_, _, _, -, -, -, -, rfl⟩ <;> rfl

/-- A hierarchical state without an active child forgets its current state. -/
lemma clearCurrent_fades (hc : c.ActionsKeepData) (hk : c.kind s = .hierarchicalState)
    (h : c.Coherent w) (hs : s ≠ c.root)
    (hin : ∀ x, (c.kind x).isHistory = false → c.context x = some s → w.data.isActive x = false) :
    c.Fades s w (Chart.clearCurrent s w) := by
  have hcur : ∀ x, x ≠ s → (Chart.clearCurrent s w).data.current x = w.data.current x := by
    intro x hx
    rw [current_clearCurrent, if_neg hx]
  refine ⟨⟨h.toRecorded.of_eq (fun _ => isActive_clearCurrent) rfl,
    (compatible_links hc).clearCurrent s w hk h.links, ?_, ?_, ?_, ?_⟩, ?_, ?_, ?_,
    World.Adds.of_eq rfl⟩
  · intro x p hx ha hp
    rw [isActive_clearCurrent] at ha ⊢
    exact h.upward hx ha hp
  · intro x p hx ha hp hkp
    rw [isActive_clearCurrent] at ha
    have hne : p ≠ s := by
      rintro rfl
      rw [hin x hx hp] at ha
      cases ha
    rw [hcur p hne]
    exact h.single hx ha hp hkp
  · intro q hq
    rw [hcur _ hs.symm] at hq
    rw [isActive_clearCurrent]
    exact h.rooted hq
  · intro x p hx ha hp
    rw [isActive_clearCurrent] at ha ⊢
    exact h.anchored hx ha hp
  · intro x hx
    exact ⟨isActive_clearCurrent, hcur x fun hxs => hx (hxs ▸ Forest.below_refl _),
      stateset_clearCurrent⟩
  · intro x hx
    rwa [isActive_clearCurrent] at hx
  · intro n _ hw hi
    rw [hasData_clearCurrent]
    exact hw (by rwa [isActive_clearCurrent] at hi)

lemma clearStateset_fades (hc : c.ActionsKeepData) (hk : c.kind n = .concurrentState)
    (h : c.Coherent w) : c.Fades n w (Chart.clearStateset n w) := by
  refine h.fades_of_eq ((compatible_links hc).clearStateset n w hk h.links)
    (fun _ => isActive_clearStateset) (fun _ => current_clearStateset) (fun x hx => ?_)
    (fun _ => hasData_clearStateset) rfl
  rw [stateset_clearStateset, if_neg]
  rintro rfl
  exact hx (Forest.below_refl _)

variable (hc : c.ActionsKeepData)
variable (hreg : ∀ {s n}, c.context s = some n → c.kind n = .concurrentState →
  c.kind s = .hierarchicalState)

include hc in
lemma HierarchicalState.deactivate_fades (hk : c.kind s = .hierarchicalState) (h : c.Coherent w)
    (hs : s ≠ c.root)
    (ih : ∀ q w w', c.Coherent w → q ≠ c.root → Returns ((c.methods k).deactivate q) w ⟨⟩ w' →
      c.Fades q w w' ∧ ∀ x, c.Below x q → (c.kind x).isHistory = false →
        w'.data.isActive x = false)
    (hd : Returns (HierarchicalState.deactivate c (c.methods k) s) w u w') :
    c.Fades s w w' ∧ w'.data.isActive s = false := by
  rcases HierarchicalState.returns_deactivate.mp hd with ⟨hi, rfl⟩ | ⟨ha, w₁, w₂, h₁, h₂, h₃⟩
  · exact ⟨Chart.Fades.refl h s, hi⟩
  obtain ⟨hf₁, hcur₁⟩ := HierarchicalState.saveHistory_fades h h₁
  -- the current substate, the only one, is left
  have hsub : c.Fades s w₁ w₂ ∧ ∀ x, (c.kind x).isHistory = false → c.context x = some s →
      w₂.data.isActive x = false := by
    have hsingle : ∀ x, (c.kind x).isHistory = false → w₁.data.isActive x = true →
        c.context x = some s → w.data.current s = some x := fun x hx hax hp =>
      hcur₁ ▸ hf₁.coherent.single hx hax hp (by rw [hk]; decide)
    cases hq : w.data.current s with
    | none =>
        rw [hq] at h₂
        obtain ⟨-, rfl⟩ := returns_pure.mp h₂
        refine ⟨Chart.Fades.refl hf₁.coherent s, fun x hx hp => ?_⟩
        by_contra hax
        rw [hsingle x hx (by simpa using hax) hp] at hq
        cases hq
    | some q =>
        rw [hq] at h₂
        have hqs : c.context q = some s := h.links.pointers s q hq
        obtain ⟨hf₂, hout⟩ := ih q w₁ w₂ hf₁.coherent (Chart.ne_root_of_context hqs) h₂
        refine ⟨hf₂.mono (Forest.below_of_parent hqs), fun x hx hp => ?_⟩
        by_contra hax
        have hxq := hsingle x hx (hf₂.lower (by simpa using hax)) hp
        rw [hq] at hxq
        obtain rfl := Option.some.inj hxq
        exact hax (hout q (Forest.below_refl _) hx)
  obtain ⟨hf₂, hnone⟩ := hsub
  have hf₃ := clearCurrent_fades hc hk hf₂.coherent hs hnone
  have hnone₃ : ∀ x, (c.kind x).isHistory = false → c.context x = some s →
      (Chart.clearCurrent s w₂).data.isActive x = false := fun x hx hp =>
    isActive_clearCurrent.trans (hnone x hx hp)
  obtain ⟨hf₄, hout⟩ := State.deactivate_fades hc hf₃.coherent hs
    (fun x hx hne hxh => hf₃.coherent.inactive_of_children hnone₃ hxh hx hne) h₃
  exact ⟨((hf₁.trans hf₂).trans hf₃).trans hf₄, hout⟩

include hc hreg in
lemma ConcurrentState.deactivate_fades (hk : c.kind n = .concurrentState) (h : c.Coherent w)
    (hn : n ≠ c.root)
    (ih : ∀ q w w', c.Coherent w → q ≠ c.root → Returns ((c.methods k).deactivate q) w ⟨⟩ w' →
      c.Fades q w w' ∧ ∀ x, c.Below x q → (c.kind x).isHistory = false →
        w'.data.isActive x = false)
    (hd : Returns (ConcurrentState.deactivate c (c.methods k) n) w u w') :
    c.Fades n w w' ∧ w'.data.isActive n = false := by
  obtain ⟨w₁, h₁, h₂⟩ := ConcurrentState.returns_deactivate.mp hd
  have hf₀ := clearStateset_fades hc hk h
  -- region after region is left
  have hloop : c.Fades n w w₁ ∧ ∀ r ∈ c.regions n, w₁.data.isActive r = false := by
    refine forM_induction (fun done w₁ => c.Fades n w w₁ ∧ ∀ r ∈ done, w₁.data.isActive r = false)
      (fun done r rest hl w₁ w₂ hw hr => ?_) h₁ ⟨hf₀, by simp⟩
    have hrn := (Chart.mem_regions.mp (hl ▸ by simp : r ∈ c.regions n))
    obtain ⟨hf, hout⟩ := ih r w₁ w₂ hw.1.coherent (Chart.ne_root_of_context hrn.2) hr
    refine ⟨hw.1.trans (hf.mono (Forest.below_of_parent hrn.2)), fun y hy => ?_⟩
    rcases List.mem_append.mp hy with hy | hy
    · exact hf.inactive (hw.2 y hy)
    · rw [List.mem_singleton.mp hy]
      exact hout r (Forest.below_refl _) (by rw [hrn.1]; rfl)
  obtain ⟨hf₁, hnone⟩ := hloop
  have hin : ∀ y, (c.kind y).isHistory = false → c.context y = some n →
    w₁.data.isActive y = false :=
    fun y _ hy => hnone y (Chart.mem_regions.mpr ⟨hreg hy hk, hy⟩)
  obtain ⟨hf₂, hout⟩ := State.deactivate_fades hc hf₁.coherent hn
    (fun x hx hne hxh => hf₁.coherent.inactive_of_children hin hxh hx hne) h₂
  exact ⟨hf₁.trans hf₂, hout⟩

include hc hreg in
/-- **Leaving.** In a coherent configuration, `deactivate` leaves everything inside its state, and
nothing else. -/
theorem deactivate_fades : ∀ (k : ℕ) (s : S) (w w' : World S T E P), c.Coherent w → s ≠ c.root →
    Returns ((c.methods k).deactivate s) w ⟨⟩ w' →
    c.Fades s w w' ∧ ∀ x, c.Below x s → (c.kind x).isHistory = false → w'.data.isActive x = false
  | 0, _, _, _, _, _, hd => absurd hd (by simp [Chart.methods])
  | k + 1, s, w, w', h, hs, hd => by
      have hself : c.Fades s w w' ∧ w'.data.isActive s = false := by
        have ih := deactivate_fades k
        have hleaf : (c.kind s).isContext = false → Returns (State.deactivate c s) w ⟨⟩ w' →
            c.Fades s w w' ∧ w'.data.isActive s = false := fun hk hd =>
          State.deactivate_fades hc h hs (fun x hx hne =>
            absurd (Chart.eq_of_below_of_not_isContext hk hx) hne) hd
        cases hk : c.kind s <;> simp only [Chart.methods, Chart.step, hk] at hd
        case statechart => exact absurd ((c.kind_statechart s).mp hk) hs
        case hierarchicalState => exact HierarchicalState.deactivate_fades hc hk h hs ih hd
        case concurrentState => exact ConcurrentState.deactivate_fades hc hreg hk h hs ih hd
        all_goals exact hleaf (by rw [hk]; rfl) hd
      exact ⟨hself.1, fun x hx hxh => hself.1.coherent.inactive_of_below hself.2 hxh hx⟩

include hc hreg in
/-- The loop over an exit list, which leads up to `d`, leaves everything inside `d`. -/
lemma exits_fades {l : List S} (h : c.Coherent w) (hd : c.context d = some m)
    (hl : ∀ y ∈ l, c.Below y d) (hmem : d ∈ l)
    (hr : Returns (l.forM (c.methods k).deactivate) w ⟨⟩ w') :
    c.Fades d w w' ∧ ∀ x, c.Below x d → (c.kind x).isHistory = false → w'.data.isActive x =
      false := by
  have hloop : c.Fades d w w' ∧ (d ∈ l → ∀ x, c.Below x d → (c.kind x).isHistory = false →
      w'.data.isActive x = false) := by
    refine forM_induction (fun done w' => c.Fades d w w' ∧ (d ∈ done → ∀ x, c.Below x d →
      (c.kind x).isHistory = false → w'.data.isActive x = false))
      (fun done y rest hsplit w₁ w₂ hw hy => ?_) hr ⟨Chart.Fades.refl h d, by simp⟩
    have hyd := hl y (hsplit ▸ by simp)
    have hyr : y ≠ c.root := by
      rintro rfl
      exact Chart.ne_root_of_context hd (Forest.below_antisymm (Chart.below_root d) hyd)
    obtain ⟨hf, hout⟩ := deactivate_fades hc hreg k y w₁ w₂ hw.1.coherent hyr hy
    refine ⟨hw.1.trans (hf.mono hyd), fun hd x hx hxh => ?_⟩
    rcases List.mem_append.mp hd with hd | hd
    · exact hf.inactive (hw.2 hd x hx hxh)
    · exact hout x (List.mem_singleton.mp hd ▸ hx) hxh
  exact ⟨hloop.1, hloop.2 hmem⟩

end CppStatecharts
