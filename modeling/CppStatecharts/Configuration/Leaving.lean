import CppStatecharts.Semantics.Links
import CppStatecharts.Semantics.Records
import CppStatecharts.Timers.Frame

/-!
Leaving states, whatever the configuration.

* `Chart.Parting`: the marks made while a state is left.
* `Chart.Recedes`: what leaving a state may change, all of it inside the state.
* `Chart.Spent`: there is nothing left to leave; `deactivate_spent`: leaving once more does nothing.
* `deactivate_recedes`: what `deactivate` does to any configuration in which current states are
  children.
-/

namespace CppStatecharts

variable {S T E P : Type} [DecidableEq S] {c : Chart S T E P}
variable {w w₁ w' : World S T E P} {s x p q r n h : S} {k : ℕ} {u : PUnit} {o : Obs S T}

/-- The marks made while `s` is left. -/
def Chart.Parting (c : Chart S T E P) (s : S) (o : Obs S T) : Prop :=
  (∃ x, c.Below x s ∧ o = .deactivated x) ∨ (∃ id, o = .invalidated id) ∨ ∃ x, o = .exit x

/-- Only states inside `s` change, which are left; no history loses its record, only those of the
states inside `s` change what they have stored, and none that is the current state does so. -/
structure Chart.Recedes (c : Chart S T E P) (s : S) (w w' : World S T E P) : Prop where
  frame : ∀ {x}, ¬ c.Below x s → w'.data.isActive x = w.data.isActive x
    ∧ w'.data.current x = w.data.current x
  lower : ∀ {x}, w.data.isActive x = false → w'.data.isActive x = false
  hasData : ∀ {x}, (c.kind x).isHistory = true → w'.data.hasData x = w.data.hasData x
  stateset : ∀ {p h}, c.history p = some h → ¬ c.Below p s →
    w'.data.stateset h = w.data.stateset h
  resting : ∀ {p h}, c.history p = some h → w'.data.current p = some h →
    w.data.current p = some h ∧ w'.data.stateset h = w.data.stateset h
  adds : w.Adds (c.Parting s) w'

/-- Neither `s` nor a region of it is active. -/
structure Chart.Spent (c : Chart S T E P) (s : S) (w : World S T E P) : Prop where
  inactive : w.data.isActive s = false
  regions : c.kind s = .concurrentState → ∀ r ∈ c.regions s, w.data.isActive r = false

namespace Chart

lemma Recedes.refl (s : S) (w : World S T E P) : c.Recedes s w w :=
  ⟨fun _ => ⟨rfl, rfl⟩, id, fun _ => rfl, fun _ _ => rfl, fun _ h => ⟨h, rfl⟩, World.Adds.refl w⟩

lemma Recedes.trans (h : c.Recedes s w w₁) (h' : c.Recedes s w₁ w') : c.Recedes s w w' where
  frame hx := ⟨(h'.frame hx).1.trans (h.frame hx).1, (h'.frame hx).2.trans (h.frame hx).2⟩
  lower hx := h'.lower (h.lower hx)
  hasData hx := (h'.hasData hx).trans (h.hasData hx)
  stateset hp hs := (h'.stateset hp hs).trans (h.stateset hp hs)
  resting hp hcur :=
    have h₁ := h'.resting hp hcur
    have h₂ := h.resting hp h₁.1
    ⟨h₂.1, h₁.2.trans h₂.2⟩
  adds := h.adds.trans h'.adds

lemma Recedes.mono (h : c.Recedes q w w') (hq : c.Below q s) : c.Recedes s w w' where
  frame hx := h.frame fun hb => hx (Forest.below_trans hb hq)
  lower := h.lower
  hasData := h.hasData
  stateset hp hs := h.stateset hp fun hb => hs (Forest.below_trans hb hq)
  resting := h.resting
  adds := h.adds.mono fun _ ho => ho.imp (fun ⟨x, hx, h⟩ => ⟨x, Forest.below_trans hx hq, h⟩) id

lemma Spent.of_recedes (h : c.Spent x w) (hs : c.Recedes s w w') : c.Spent x w' :=
  ⟨hs.lower h.inactive, fun hk r hr => hs.lower (h.regions hk r hr)⟩

/-- A write that keeps what is active and current, the records, and all stored sets but those of the
histories inside `s`. -/
lemma Recedes.of_eq (ha : ∀ x, w'.data.isActive x = w.data.isActive x)
    (hcur : ∀ x, x ≠ s → w'.data.current x = w.data.current x)
    (hd : ∀ x, w'.data.hasData x = w.data.hasData x)
    (hset : ∀ {p h}, c.history p = some h → p ≠ s → w'.data.stateset h = w.data.stateset h)
    (hself : ∀ {h}, c.history s = some h → w'.data.current s = some h →
      w.data.current s = some h ∧ w'.data.stateset h = w.data.stateset h)
    (ht : w'.trace = w.trace) : c.Recedes s w w' where
  frame hx := ⟨ha _, hcur _ fun h => hx (h ▸ Forest.below_refl _)⟩
  lower hx := (ha _).trans hx
  hasData _ := hd _
  stateset hp hs := hset hp fun h => hs (h ▸ Forest.below_refl _)
  resting {p _} hp hc := by
    by_cases hps : p = s
    · subst hps
      exact hself hp hc
    · exact ⟨(hcur p hps).symm.trans hc, hset hp hps⟩
  adds := World.Adds.of_eq ht

end Chart

open Chart

/-! ### One change after the other -/

lemma State.deactivate_recedes (hc : c.ActionsKeepData)
    (hd : Returns (State.deactivate c s) w u w') :
    c.Recedes s w w' ∧ w'.data.isActive s = false := by
  rcases State.returns_deactivate.mp hd with ⟨hi, rfl⟩ | ⟨ha, rfl⟩
  · exact ⟨Recedes.refl s _, hi⟩
  obtain ⟨l, hl, hmarks, -⟩ := trace_leave (c := c) (s := s) (w := w)
  have hset : ∀ {p h}, c.history p = some h → ((c.leave s w).perform (.exit s)
      (c.exitAction s)).data.stateset h = w.data.stateset h := by
    intro p h hp
    rw [hc.data_exit, stateset_leave, if_neg]
    rintro ⟨rfl, hh⟩
    rw [(history_eq_some_iff.mp hp).1] at hh
    cases hh
  refine ⟨⟨fun {x} hx => ?_, fun {x} hx => ?_, fun {x} hx => ?_, fun hp _ => hset hp,
    fun {p h} hp hcur => ⟨?_, hset hp⟩, ?_⟩, ?_⟩
  · have hne : x ≠ s := fun h => hx (h ▸ Forest.below_refl _)
    rw [hc.data_exit, isActive_leave, current_leave]
    simp [hne]
  · rw [hc.data_exit, isActive_leave, hx, Bool.and_false]
  · rw [hc.data_exit, hasData_leave]
    by_cases hxs : x = s
    · rw [if_pos (hxs ▸ hx)]
    · simp [hxs]
  · rw [hc.data_exit, current_leave] at hcur
    split at hcur
    · cases hcur
    · exact hcur
  · refine World.Adds.trans ⟨l, hl, fun o ho => ?_⟩ (World.adds_perform (Or.inr (Or.inr ⟨s, rfl⟩)))
    rcases hmarks o ho with rfl | ⟨id, -, rfl⟩
    · exact Or.inl ⟨s, Forest.below_refl _, rfl⟩
    · exact Or.inr (Or.inl ⟨id, rfl⟩)
  · rw [hc.data_exit]
    simp

lemma HierarchicalState.saveHistory_recedes
    (hd : Returns (HierarchicalState.saveHistory c s (w.data.current s)) w u w') :
    c.Recedes s w w' ∧ w'.data.current s = w.data.current s := by
  rcases HierarchicalState.returns_saveHistory.mp hd with ⟨rfl, -⟩ | ⟨y, hy, hstore, hst⟩
  · exact ⟨Recedes.refl s _, rfl⟩
  refine ⟨.of_eq (fun _ => isActive_storeHistory hst) (fun _ _ => current_storeHistory hst)
    (fun _ => hasData_storeHistory hst) (fun {p h} hp hps => stateset_storeHistory hst ?_)
    (fun {h} hh hcur => ?_) ?_, current_storeHistory hst⟩
  · rintro rfl
    exact hps <| Option.some.inj <|
      (history_eq_some_iff.mp hp).2.symm.trans (history_eq_some_iff.mp hy).2
  · -- nothing is stored where the history is the current state
    rw [current_storeHistory hst, ← hh, hy] at hcur
    simp [HierarchicalState.storesHistory, hcur] at hstore
  · rcases Chart.returns_storeHistory hst with rfl | ⟨_, _, _, -, -, -, -, rfl⟩ <;> rfl

lemma clearCurrent_recedes (s : S) (w : World S T E P) :
    c.Recedes s w (Chart.clearCurrent s w) :=
  .of_eq (fun _ => isActive_clearCurrent)
    (fun x hx => by rw [current_clearCurrent, if_neg hx])
    (fun _ => hasData_clearCurrent) (fun _ _ => stateset_clearCurrent)
    (fun _ hcur => by rw [current_clearCurrent, if_pos rfl] at hcur; cases hcur) rfl

lemma clearStateset_recedes (hk : c.kind n = .concurrentState) (w : World S T E P) :
    c.Recedes n w (Chart.clearStateset n w) := by
  have hset : ∀ {p h}, c.history p = some h →
      (Chart.clearStateset n w).data.stateset h = w.data.stateset h := by
    intro p h hp
    rw [stateset_clearStateset, if_neg]
    rintro rfl
    have hh := (history_eq_some_iff.mp hp).1
    rw [hk] at hh
    cases hh
  exact .of_eq (fun _ => isActive_clearStateset) (fun _ _ => current_clearStateset)
    (fun _ => hasData_clearStateset) (fun hp _ => hset hp)
    (fun hp hcur => ⟨current_clearStateset.symm.trans hcur, hset hp⟩) rfl

/-! ### `deactivate` -/

section Deactivate

variable (hc : c.ActionsKeepData)

include hc

lemma HierarchicalState.deactivate_recedes (hm : c.Pointers w.data)
    (ih : ∀ q w w', c.Pointers w.data → Returns ((c.methods k).deactivate q) w ⟨⟩ w' →
      c.Recedes q w w')
    (hd : Returns (HierarchicalState.deactivate c (c.methods k) s) w u w') :
    c.Recedes s w w' ∧ w'.data.isActive s = false := by
  rcases HierarchicalState.returns_deactivate.mp hd with ⟨hi, rfl⟩ | ⟨ha, w₁, w₂, h₁, h₂, h₃⟩
  · exact ⟨Recedes.refl s _, hi⟩
  obtain ⟨hr₁, -⟩ := HierarchicalState.saveHistory_recedes h₁
  have hm₁ : c.Pointers w₁.data := by
    rcases HierarchicalState.returns_saveHistory.mp h₁ with ⟨rfl, -⟩ | ⟨y, hy, hst, hs⟩
    · exact hm
    · exact (compatible_pointers hc).storeHistory s y _ _ hy hst hs hm
  have hr₂ : c.Recedes s w₁ w₂ := by
    cases hq : w.data.current s with
    | none =>
        rw [hq] at h₂
        rw [(returns_pure.mp h₂).2]
        exact Recedes.refl s _
    | some q =>
        rw [hq] at h₂
        exact (ih q w₁ w₂ hm₁ h₂).mono (Forest.below_of_parent (F := c.forest) (hm s q hq))
  obtain ⟨hr₃, hi⟩ := State.deactivate_recedes hc h₃
  exact ⟨((hr₁.trans hr₂).trans (clearCurrent_recedes s w₂)).trans hr₃, hi⟩

lemma ConcurrentState.deactivate_recedes (hk : c.kind n = .concurrentState)
    (hm : c.Pointers w.data)
    (ih : ∀ q w w', c.Pointers w.data → Returns ((c.methods k).deactivate q) w ⟨⟩ w' →
      c.Recedes q w w' ∧ w'.data.isActive q = false)
    (hd : Returns (ConcurrentState.deactivate c (c.methods k) n) w u w') :
    c.Recedes n w w' ∧ c.Spent n w' := by
  obtain ⟨w₁, h₁, h₂⟩ := ConcurrentState.returns_deactivate.mp hd
  have hm₀ := (compatible_pointers hc).clearStateset n w hk hm
  have hloop : c.Pointers w₁.data ∧ c.Recedes n (Chart.clearStateset n w) w₁
      ∧ ∀ r ∈ c.regions n, w₁.data.isActive r = false := by
    refine forM_induction (fun done w₁ => c.Pointers w₁.data
      ∧ c.Recedes n (Chart.clearStateset n w) w₁ ∧ ∀ r ∈ done, w₁.data.isActive r = false)
      (fun done r rest hl w₁ w₂ ⟨hm₁, hr₁, hi₁⟩ hr => ?_) h₁ ⟨hm₀, Recedes.refl n _, by simp⟩
    have hrn := (mem_regions.mp (hl ▸ by simp : r ∈ c.regions n)).2
    obtain ⟨hr₂, hi₂⟩ := ih r w₁ w₂ hm₁ hr
    refine ⟨(compatible_pointers hc).deactivate k r _ _ _ hr hm₁,
      hr₁.trans (hr₂.mono (Forest.below_of_parent (F := c.forest) hrn)), fun y hy => ?_⟩
    rcases List.mem_append.mp hy with hy | hy
    · exact hr₂.lower (hi₁ y hy)
    · rw [List.mem_singleton.mp hy]
      exact hi₂
  obtain ⟨-, hr₁, hi₁⟩ := hloop
  obtain ⟨hr₂, hi₂⟩ := State.deactivate_recedes hc h₂
  exact ⟨((clearStateset_recedes hk w).trans hr₁).trans hr₂, hi₂,
    fun _ r hr => hr₂.lower (hi₁ r hr)⟩

/-- **Leaving, in any configuration.** As long as current states are children, `deactivate` changes
only what is inside its state, and leaves neither this nor its regions active. -/
theorem deactivate_recedes : ∀ (k : ℕ) (s : S) (w w' : World S T E P), c.Pointers w.data →
    Returns ((c.methods k).deactivate s) w ⟨⟩ w' → c.Recedes s w w' ∧ c.Spent s w'
  | 0, _, _, _, _, hd => absurd hd (by simp [Chart.methods])
  | k + 1, s, w, w', hm, hd => by
      have ih := deactivate_recedes k
      have hplain : c.kind s ≠ .concurrentState → c.Recedes s w w' ∧ w'.data.isActive s = false →
          c.Recedes s w w' ∧ c.Spent s w' := fun hk h => ⟨h.1, h.2, fun hk' => absurd hk' hk⟩
      cases hk : c.kind s <;> simp only [Chart.methods, Chart.step, hk] at hd
      case hierarchicalState =>
        refine hplain (by simp [hk]) (HierarchicalState.deactivate_recedes hc hm ?_ hd)
        exact fun q w w' hm hd => (ih q w w' hm hd).1
      case concurrentState =>
        refine ConcurrentState.deactivate_recedes hc hk hm (fun q w w' hm hd => ?_) hd
        exact ⟨(ih q w w' hm hd).1, (ih q w w' hm hd).2.inactive⟩
      all_goals exact hplain (by simp [hk]) (State.deactivate_recedes hc hd)

/-- The states of a list are left one after the other. -/
lemma exits_recedes {l : List S} (hm : c.Pointers w.data)
    (hd : Returns (l.forM (c.methods k).deactivate) w u w') : c.Recedes c.root w w' := by
  refine (forM_induction (fun _ w' => c.Pointers w'.data ∧ c.Recedes c.root w w')
    (fun done s rest hl w₁ w₂ ⟨hm₁, hrec⟩ hd => ?_) hd ⟨hm, Recedes.refl _ _⟩).2
  exact ⟨(compatible_pointers hc).deactivate k s _ _ _ hd hm₁,
    hrec.trans ((deactivate_recedes hc k s w₁ w₂ hm₁ hd).1.mono (below_root s))⟩

end Deactivate

/-! ### Leaving twice -/

/-- An inactive state that is not concurrent is not left again. -/
lemma eq_of_deactivate_inactive (hk : c.kind s ≠ .concurrentState)
    (hi : w.data.isActive s = false) (hd : Returns ((c.methods k).deactivate s) w u w') :
    w' = w := by
  have hstate : Returns (State.deactivate c s) w u w' → w' = w := fun hd => by
    rcases State.returns_deactivate.mp hd with ⟨-, hw⟩ | ⟨ha, -⟩
    · exact hw
    · rw [hi] at ha
      cases ha
  cases k with
  | zero => exact absurd hd (by simp [Chart.methods])
  | succ k =>
      cases hks : c.kind s <;> simp only [Chart.methods, Chart.step, hks] at hd
      case hierarchicalState =>
        rcases HierarchicalState.returns_deactivate.mp hd with ⟨-, hw⟩ | ⟨ha, -⟩
        · exact hw
        · rw [hi] at ha
          cases ha
      case concurrentState => exact absurd hks hk
      all_goals exact hstate hd

/-- Where nothing is left to leave, at most the set of a concurrent state is cleared. -/
lemma deactivate_spent (hs : c.Spent s w) (hd : Returns ((c.methods k).deactivate s) w u w') :
    w' = w ∨ c.kind s = .concurrentState ∧ w' = Chart.clearStateset s w := by
  by_cases hk : c.kind s = .concurrentState
  · refine Or.inr ⟨hk, ?_⟩
    cases k with
    | zero => exact absurd hd (by simp [Chart.methods])
    | succ k =>
        simp only [Chart.methods, Chart.step, hk] at hd
        obtain ⟨w₁, h₁, h₂⟩ := ConcurrentState.returns_deactivate.mp hd
        have hloop : w₁ = Chart.clearStateset s w := by
          refine forM_induction (fun _ w₁ => w₁ = Chart.clearStateset s w)
            (fun done r rest hl w₁ w₂ hw hr => ?_) h₁ rfl
          subst hw
          have hmem : r ∈ c.regions s := hl ▸ by simp
          refine eq_of_deactivate_inactive ?_ ?_ hr
          · rw [(mem_regions.mp hmem).1]
            decide
          · rw [isActive_clearStateset]
            exact hs.regions hk r hmem
        subst hloop
        rcases State.returns_deactivate.mp h₂ with ⟨-, hw⟩ | ⟨ha, -⟩
        · exact hw
        · rw [isActive_clearStateset, hs.inactive] at ha
          cases ha
  · exact Or.inl (eq_of_deactivate_inactive hk hs.inactive hd)

end CppStatecharts
