import CppStatecharts.Configuration.Observers
import CppStatecharts.Termination.Convergence

/-!
What a history stores when its context is left, and restores later.

* `Chart.Discreet`: actions that leave what a configuration consists of alone.
* `Chart.Chain`: the current states on the way down from a state.
* `deactivate_chain`: leaving such a way; `restore_chain`: entering it state by state.
* `HierarchicalState.Occupied`: a configuration whose history is worth storing; `Occupied.leaves`:
  it is stored.
* `HierarchicalState.roundTrip`: what was active inside is active again.
* `Oblivious`: an exit action that clears the history.
-/

namespace CppStatecharts

variable {S T E P : Type} [DecidableEq S] {c : Chart S T E P}
variable {w w₁ w₂ w' : World S T E P} {m m' : Metadata S} {s x p q h : S} {l : List S}

/-! ### Actions -/

/-- The actions of `s` and of the states inside leave all but the timeout entries of the metadata
alone. -/
structure Chart.Discreet (c : Chart S T E P) (s : S) : Prop where
  entry : ∀ {x f}, c.Below x s → c.entryAction x = some f → ∀ m a, Metadata.Agree m (f m a).1
  doing : ∀ {x f}, c.Below x s → c.doAction x = some f → ∀ m a, Metadata.Agree m (f m a).1
  exit : ∀ {x f}, c.Below x s → c.exitAction x = some f → ∀ m a, Metadata.Agree m (f m a).1

namespace Chart.Discreet

omit [DecidableEq S] in
lemma agree_perform {o : Obs S T} {a : Option (Action S P)}
    (ha : ∀ f, a = some f → ∀ m p, Metadata.Agree m (f m p).1) : w.data.Agree
      (w.perform o a).data := by
  cases a with
  | none => exact Metadata.agree_refl _
  | some f => exact ha f rfl _ _

variable (hd : c.Discreet s) (hx : c.Below x s)

include hd hx

omit [DecidableEq S] in
lemma agree_entry : w.data.Agree (w.perform (.entry x) (c.entryAction x)).data :=
  agree_perform fun _ => hd.entry hx

omit [DecidableEq S] in
lemma agree_greet : w.data.Agree (c.greet x w).data :=
  (hd.agree_entry hx).trans (agree_perform fun _ => hd.doing hx)

omit [DecidableEq S] in
lemma agree_exit : w.data.Agree (w.perform (.exit x) (c.exitAction x)).data :=
  agree_perform fun _ => hd.exit hx

end Chart.Discreet

/-! ### The way down -/

/-- The states `l` are what the current states lead to from `p` on. -/
def Chart.Chain (m : Metadata S) : S → List S → Prop
  | p, [] => m.current p = none
  | p, q :: l => m.current p = some q ∧ Chart.Chain m q l

namespace Chart.Chain

omit [DecidableEq S] in
lemma descends (hm : c.Pointers m) (hl : Chart.Chain m p l) : ∃ z, c.forest.Descends p l z := by
  induction l generalizing p with
  | nil => exact ⟨p, rfl⟩
  | cons q l ih =>
      obtain ⟨z, hz⟩ := ih hl.2
      exact ⟨z, hm p q hl.1, hz⟩

omit [DecidableEq S] in
lemma congr (hl : Chart.Chain m p l) (h : ∀ x ∈ p :: l, m'.current x = m.current x) :
    Chart.Chain m' p l := by
  induction l generalizing p with
  | nil => exact (h p List.mem_cons_self).trans hl
  | cons q l ih =>
      exact ⟨(h p List.mem_cons_self).trans hl.1, ih hl.2
        fun x hx => h x (List.mem_cons_of_mem p hx)⟩

omit [DecidableEq S] in
/-- The list determines the pointers. -/
lemma current_eq (hl : Chart.Chain m p l) (hl' : Chart.Chain m' p l) :
    ∀ x ∈ p :: l, m'.current x = m.current x := by
  induction l generalizing p with
  | nil =>
      intro x hx
      rw [List.mem_singleton.mp hx, hl, hl']
  | cons q l ih =>
      intro x hx
      rcases List.mem_cons.mp hx with rfl | hx
      · exact hl'.1.trans hl.1.symm
      · exact ih hl.2 hl'.2 x hx

end Chart.Chain

omit [DecidableEq S] in
/-- The tree ends, and with it the way. -/
lemma exists_chain (hm : c.Pointers m) (p : S) : ∃ l, Chart.Chain m p l := by
  induction hd : c.height p using Nat.strong_induction_on generalizing p with
  | _ d ih =>
      subst hd
      cases hq : m.current p with
      | none => exact ⟨[], hq⟩
      | some q =>
          obtain ⟨l, hl⟩ := ih _ (height_lt (hm p q hq)) q rfl
          exact ⟨q :: l, hq, hl⟩

omit [DecidableEq S] in
/-- Without concurrent states, a deep history finds the whole way. -/
lemma calculateHistoryChain_deep (hm : c.Pointers m) (hl : Chart.Chain m p l)
    (hk : ∀ x ∈ l, c.kind x ≠ .concurrentState) {n : ℕ} {l' : List S}
    (h : c.calculateHistoryChain m .deepHistory n (m.current p) = some l') : l' = l := by
  induction l generalizing n p l' with
  | nil =>
      rw [show m.current p = none from hl] at h
      cases n <;> exact (Option.some.inj h).symm
  | cons q l ih =>
      rw [hl.1] at h
      cases n with
      | zero => cases h
      | succ n =>
          rw [Chart.calculateHistoryChain, if_neg (by decide)] at h
          split at h
          · obtain ⟨l₁, h₁, rfl⟩ := Option.map_eq_some_iff.mp h
            rw [ih hl.2 (fun x hx => hk x (List.mem_cons_of_mem q hx)) h₁]
          · rename_i hq
            obtain rfl := Option.some.inj h
            cases l with
            | nil => rfl
            | cons r l =>
                -- a state with a substate is a context
                have hctx := c.context_kind (hm q r hl.2.1)
                have hroot : c.kind q ≠ .statechart := fun hroot =>
                  Chart.ne_root_of_context (hm p q hl.1) ((c.kind_statechart q).mp hroot)
                have hconc := hk q List.mem_cons_self
                cases hkq : c.kind q <;> simp_all [StateKind.isContext]

/-! ### Leaving -/

lemma State.exists_deactivate (hd : c.Discreet s) (hx : c.Below x s)
    (ha : w.data.isActive x = true) :
    ∃ w', Returns (State.deactivate c x) w ⟨⟩ w'
      ∧ (∀ y, w'.data.isActive y = (!decide (y = x) && w.data.isActive y))
      ∧ ∀ y, y ≠ x → w'.data.stateset y = w.data.stateset y := by
  refine ⟨_, State.returns_deactivate.mpr (Or.inr ⟨ha, rfl⟩), fun y => ?_, fun y hy => ?_⟩
  · rw [(hd.agree_exit hx).isActive, isActive_leave]
  · rw [(hd.agree_exit hx).stateset, stateset_leave, if_neg fun h => hy h.1]

/-- A hierarchical state is left when its substate can be. -/
lemma HierarchicalState.exists_deactivate (hk : c.kind s = .hierarchicalState)
    (hd : c.Discreet x) (hx : c.Below s x) (ha : w.data.isActive s = true)
    (hs : Returns (HierarchicalState.saveHistory c s (w.data.current s)) w ⟨⟩ w₁)
    (hq : Returned (fun k => HierarchicalState.deactivateCurrent (c.methods k) (w.data.current s))
      w₁ ⟨⟩ w₂) (ha₂ : w₂.data.isActive s = true) :
    ∃ w', Returned (fun k => (c.methods k).deactivate s) w ⟨⟩ w'
      ∧ (∀ y, w'.data.isActive y = (!decide (y = s) && w₂.data.isActive y))
      ∧ ∀ y, y ≠ s → w'.data.stateset y = w₂.data.stateset y := by
  obtain ⟨k, hq⟩ := hq
  obtain ⟨w', h', hact, hset⟩ := State.exists_deactivate (w := Chart.clearCurrent s w₂) hd hx
    (by rw [isActive_clearCurrent]; exact ha₂)
  refine ⟨w', ⟨k + 1, ?_⟩, fun y => ?_, fun y hy => ?_⟩
  · simp only [Chart.methods, Chart.step, hk]
    exact HierarchicalState.returns_deactivate.mpr (Or.inr ⟨ha, w₁, w₂, hs, hq, h'⟩)
  · rw [hact, isActive_clearCurrent]
  · rw [hset y hy, stateset_clearCurrent]

/-- Saving a history changes nothing but its set. -/
lemma HierarchicalState.exists_saveHistory (s : S) (hm : c.Pointers w.data) :
    ∃ w', Returns (HierarchicalState.saveHistory c s (w.data.current s)) w ⟨⟩ w'
      ∧ (∀ y, w'.data.isActive y = w.data.isActive y) ∧ (∀ y, w'.data.current y = w.data.current y)
      ∧ ∀ y, c.history s ≠ some y → w'.data.stateset y = w.data.stateset y := by
  obtain ⟨w', h⟩ := converges_saveHistory s hm
  refine ⟨w', h, ?_⟩
  rcases HierarchicalState.returns_saveHistory.mp h with ⟨rfl, -⟩ | ⟨q, hq, -, hst⟩
  · exact ⟨fun _ => rfl, fun _ => rfl, fun _ _ => rfl⟩
  · refine ⟨fun _ => isActive_storeHistory hst, fun _ => current_storeHistory hst, fun y hy => ?_⟩
    exact stateset_storeHistory hst fun heq => hy (heq ▸ hq)

/-- The way down is left from its end on. Of the histories inside only those of its states
change. -/
lemma deactivate_chain (hd : c.Discreet x) (hm : c.Pointers w.data) (hx : c.Below s x)
    (hl : Chart.Chain w.data s l) (ha : ∀ y ∈ s :: l, w.data.isActive y = true)
    (hk : ∀ y ∈ s :: l, c.kind y = .state ∨ c.kind y = .hierarchicalState) :
    ∃ w', Returned (fun k => (c.methods k).deactivate s) w ⟨⟩ w'
      ∧ (∀ y, w'.data.isActive y = (decide (y ∉ s :: l) && w.data.isActive y))
      ∧ ∀ y, y ∉ s :: l → (∀ p ∈ s :: l, c.history p ≠ some y) →
        w'.data.stateset y = w.data.stateset y := by
  induction l generalizing s w with
  | nil =>
      have has := ha s List.mem_cons_self
      rcases hk s List.mem_cons_self with hks | hks
      · obtain ⟨w', h', hact, hset⟩ := State.exists_deactivate hd hx has
        refine ⟨w', ⟨1, ?_⟩, fun y => ?_, fun y hy _ => hset y (by simpa using hy)⟩
        · simpa only [Chart.methods, Chart.step, hks] using h'
        · simp [hact]
      · obtain ⟨w₁, h₁, hact₁, -, hset₁⟩ := HierarchicalState.exists_saveHistory s hm
        have h₂ : Returned (fun k => HierarchicalState.deactivateCurrent (c.methods k)
            (w.data.current s)) w₁ ⟨⟩ w₁ := by
          rw [show w.data.current s = none from hl]
          exact ⟨0, returns_pure.mpr ⟨rfl, rfl⟩⟩
        obtain ⟨w', h', hact, hset⟩ := HierarchicalState.exists_deactivate hks hd hx has h₁ h₂
          ((hact₁ s).trans has)
        refine ⟨w', h', fun y => ?_, fun y hy hh => ?_⟩
        · simp [hact, hact₁]
        · rw [hset y (by simpa using hy), hset₁ y (hh s List.mem_cons_self)]
  | cons q l ih =>
      have has := ha s List.mem_cons_self
      have hqs : c.context q = some s := hm s q hl.1
      have hks : c.kind s = .hierarchicalState := by
        rcases hk s List.mem_cons_self with hks | hks
        · have := c.context_kind hqs
          rw [hks] at this
          cases this
        · exact hks
      obtain ⟨w₁, h₁, hact₁, hcur₁, hset₁⟩ := HierarchicalState.exists_saveHistory s hm
      obtain ⟨w₂, ⟨k, h₂⟩, hact₂, hset₂⟩ := ih (w := w₁) (fun p r hr => hm p r (hcur₁ p ▸ hr))
        (Forest.below_trans (Forest.below_of_parent (F := c.forest) hqs) hx)
        (hl.2.congr fun y _ => hcur₁ y)
        (fun y hy => (hact₁ y).trans (ha y (List.mem_cons_of_mem s hy)))
        (fun y hy => hk y (List.mem_cons_of_mem s hy))
      have hs : s ∉ q :: l := by
        obtain ⟨z, hz⟩ := hl.descends hm
        exact fun hmem => (hz.mem_iff.mp hmem).2.2 rfl
      have hq : Returned (fun k => HierarchicalState.deactivateCurrent (c.methods k)
          (w.data.current s)) w₁ ⟨⟩ w₂ := ⟨k, by rw [hl.1]; exact h₂⟩
      obtain ⟨w', h', hact, hset⟩ := HierarchicalState.exists_deactivate hks hd hx has h₁ hq
        (by simp [hact₂, hs, hact₁, has])
      refine ⟨w', h', fun y => ?_, fun y hy hh => ?_⟩
      · rw [hact, hact₂, hact₁, ← Bool.and_assoc]
        simp
      · obtain ⟨hys, hyl⟩ : y ≠ s ∧ y ∉ q :: l := by simpa only [List.mem_cons, not_or] using hy
        rw [hset y hys, hset₂ y hyl fun p hp => hh p (List.mem_cons_of_mem s hp),
          hset₁ y (hh s List.mem_cons_self)]

/-! ### Entering -/

/-- A plain or hierarchical state is entered by `State::activate`. -/
lemma returns_activate_ordinary (hk : c.kind x = .state ∨ c.kind x = .hierarchicalState)
    (ha : w.data.isActive x = false) (k : ℕ) :
    Returns ((c.methods (k + 1)).activate x) w true (c.greet x (c.arrive x w)) := by
  rcases hk with hk | hk <;> simp only [Chart.methods, Chart.step, hk] <;>
    exact State.returns_activate.mpr (Or.inr ⟨ha, rfl, rfl⟩)

/-- The states of the way are entered from its beginning on, each as the current state of the one
before. -/
lemma restore_chain (hd : c.Discreet s) {z : S} (hl : c.forest.Descends p l z) (hp : c.Below p s)
    (hk : ∀ y ∈ l, c.kind y = .state ∨ c.kind y = .hierarchicalState)
    (ha : ∀ y ∈ l, w.data.isActive y = false) (hpa : w.data.isActive p = true)
    (hcur : l = [] → w.data.current p = none) (k : ℕ) :
    ∃ w', Returns (l.forM fun y => do let _ ← (c.methods (k + 1)).activate y) w ⟨⟩ w'
      ∧ (∀ y, w'.data.isActive y = (decide (y ∈ l) || w.data.isActive y))
      ∧ Chart.Chain w'.data p l ∧ ∀ y, y ∉ p :: l → w'.data.current y = w.data.current y := by
  induction l generalizing p w with
  | nil => exact ⟨w, returns_forM_nil.mpr rfl, fun y => by simp, hcur rfl, fun y _ => rfl⟩
  | cons q l ih =>
      have hq := List.mem_cons_self (a := q) (l := l)
      have hqp : c.context q = some p := hl.1
      have hqs : c.Below q s := Forest.below_trans (Forest.below_of_parent (F := c.forest) hqp) hp
      have hqn : q ≠ p := Forest.ne_of_parent (F := c.forest) hqp
      have h₁ := returns_activate_ordinary (hk q hq) (ha q hq) k
      generalize hw₁ : c.greet q (c.arrive q w) = w₁ at h₁
      have hagree : (c.arrive q w).data.Agree w₁.data := hw₁ ▸ hd.agree_greet hqs
      have hact₁ : ∀ y, w₁.data.isActive y = (decide (y = q) || w.data.isActive y) := fun y => by
        rw [hagree.isActive, isActive_arrive]
      have hcur₁ : ∀ y, w₁.data.current y = if y = q then none else if y = p then some q
          else w.data.current y := fun y => by
        obtain ⟨d, hdp, -⟩ := Metadata.exists_of_isActive hpa
        rw [hagree.current, current_arrive, current_activateData hqp]
        simp [hdp]
      have hnot : ∀ y ∈ l, y ≠ q := fun y hy => (hl.2.mem_iff.mp hy).2.2
      obtain ⟨w', h', hact, hchain, hframe⟩ := ih (p := q) (w := w₁) hl.2 hqs
        (fun y hy => hk y (List.mem_cons_of_mem q hy))
        (fun y hy => by simp [hact₁, hnot y hy, ha y (List.mem_cons_of_mem q hy)])
        (by simp [hact₁]) (fun _ => by simp [hcur₁])
      have hpl : p ∉ q :: l := fun hmem => (hl.mem_iff.mp hmem).2.2 rfl
      refine ⟨w', ?_, fun y => ?_, ⟨?_, hchain⟩, fun y hy => ?_⟩
      · refine returns_forM_cons.mpr
          ⟨w₁, returns_bind.mpr ⟨true, w₁, h₁, returns_pure.mpr ⟨rfl, rfl⟩⟩, h'⟩
      · rw [hact, hact₁]
        by_cases hyq : y = q <;> simp [hyq]
      · rw [hframe p hpl, hcur₁, if_neg hqn.symm, if_pos rfl]
      · obtain ⟨hyp, hyl⟩ : y ≠ p ∧ y ∉ q :: l := by simpa only [List.mem_cons, not_or] using hy
        have hyq : y ≠ q := fun h => hyl (h ▸ hq)
        rw [hframe y hyl, hcur₁, if_neg hyq, if_neg hyp]

/-! ### The configuration -/

/-- How much of the way down the history `h` stores. -/
def Chart.kept (c : Chart S T E P) (h : S) (l : List S) : List S :=
  if c.kind h = .pseudoState .deepHistory then l else l.take 1

namespace HierarchicalState

/-- A legal configuration in which `s` is active, with the history `h`, which has a record, and
without concurrent states inside; the current state of `s` and the active states inside it are
ordinary. -/
structure Occupied (c : Chart S T E P) (s h : S) (w : World S T E P) : Prop where
  kind : c.kind s = .hierarchicalState
  history : c.history s = some h
  hasData : (w.data.getData h).isSome = true
  sequential : ∀ {x}, c.Below x s → c.kind x ≠ .concurrentState
  legal : c.LegalConfiguration w.data
  pointers : c.Pointers w.data
  active : w.data.isActive s = true
  ordinary : ∃ q, w.data.current s = some q
    ∧ ∀ x, c.Below x q → w.data.isActive x = true → (c.kind x).isOrdinary = true

omit [DecidableEq S] in
/-- A context inside a hierarchical state without concurrent states is hierarchical. -/
lemma kind_of_context (hs : c.kind s = .hierarchicalState)
    (hseq : ∀ {x}, c.Below x s → c.kind x ≠ .concurrentState) (hx : c.Below x s)
    (hq : c.context q = some x) : c.kind x = .hierarchicalState := by
  have hroot : c.kind x ≠ .statechart := by
    intro hroot
    obtain rfl := (c.kind_statechart x).mp hroot
    obtain rfl := Forest.below_antisymm hx (Chart.below_root s)
    rw [hs] at hroot
    cases hroot
  have hctx := c.context_kind hq
  have hconc := hseq hx
  cases hk : c.kind x <;> simp_all [StateKind.isContext]

namespace Occupied

variable (ho : Occupied c s h w)

include ho

/-- The states of the way down are active. -/
lemma isActive_of_chain (hx : c.Below x s) (ha : w.data.isActive x = true)
    (hl : Chart.Chain w.data x l) : ∀ y ∈ l, w.data.isActive y = true := by
  induction l generalizing x with
  | nil => simp
  | cons q l ih =>
      have hq := ho.pointers x q hl.1
      have hqa := ho.legal.current
        (Or.inr ⟨kind_of_context ho.kind ho.sequential hx hq, ha⟩) hl.1
      intro y hy
      rcases List.mem_cons.mp hy with rfl | hy
      · exact hqa
      · exact ih (Forest.below_trans (Forest.below_of_parent (F := c.forest) hq) hx) hqa hl.2 y hy

/-- No other state inside is active. -/
lemma mem_chain (hx : c.Below x s) (hl : Chart.Chain w.data x l) (hp : c.Below p x) (hne : p ≠ x)
    (hk : (c.kind p).isHistory = false) (ha : w.data.isActive p = true) : p ∈ l := by
  obtain ⟨l', hl'⟩ := Forest.exists_descends hp
  induction l' generalizing x l with
  | nil => exact absurd hl' hne
  | cons q l' ih =>
      have hqx : c.context q = some x := hl'.1
      have hpq : c.Below p q := hl'.2.below
      have hqa := ho.legal.active_of_below hk ha hpq
      have hxa := ho.legal.upward (isHistory_of_below hk hpq) hqa hqx
      have hcur := ho.legal.child (Or.inr ⟨kind_of_context ho.kind ho.sequential hx hqx, hxa⟩)
        (isHistory_of_below hk hpq) hqa hqx
      cases l with
      | nil => exact absurd (hcur.symm.trans hl) (by simp)
      | cons r l =>
          obtain rfl : q = r := Option.some.inj (hcur.symm.trans hl.1)
          by_cases hpq' : p = q
          · exact hpq' ▸ List.mem_cons_self
          · exact List.mem_cons_of_mem q <| ih
              (Forest.below_trans (Forest.below_of_parent (F := c.forest) hqx) hx) hl.2 hpq
                hpq' hl'.2

/-- The way down, with its states plain or hierarchical. -/
lemma exists_chain : ∃ q l, Chart.Chain w.data s (q :: l)
    ∧ (∀ y ∈ q :: l, w.data.isActive y = true)
    ∧ ∀ y ∈ q :: l, c.kind y = .state ∨ c.kind y = .hierarchicalState := by
  obtain ⟨q, hq, hord⟩ := ho.ordinary
  obtain ⟨l, hl⟩ := CppStatecharts.exists_chain ho.pointers q
  have hchain : Chart.Chain w.data s (q :: l) := ⟨hq, hl⟩
  have hact := ho.isActive_of_chain (Forest.below_refl _) ho.active hchain
  refine ⟨q, l, hchain, hact, fun y hy => ?_⟩
  obtain ⟨z, hz⟩ := hchain.descends ho.pointers
  have hyq := (Forest.Descends.below_head hz y hy).1
  have hys := Forest.below_trans hyq (Forest.below_of_parent (F := c.forest) hz.1)
  have hordy := hord y hyq (hact y hy)
  have hconc := ho.sequential hys
  cases hk : c.kind y <;> simp_all [StateKind.isOrdinary]

/-- The history stores the way down, as far as its type wants. -/
lemma saves {q : S} (hl : Chart.Chain w.data s (q :: l))
    (hk : ∀ y ∈ q :: l, c.kind y = .state ∨ c.kind y = .hierarchicalState) : ∃ w',
    Returns (HierarchicalState.saveHistory c s (w.data.current s)) w ⟨⟩ w'
      ∧ (∀ y, w'.data.isActive y = w.data.isActive y) ∧ (∀ y, w'.data.current y = w.data.current y)
      ∧ w'.data.stateset h = c.kept h (q :: l) := by
  obtain ⟨hkh, hctx⟩ := Chart.history_eq_some_iff.mp ho.history
  obtain ⟨d, hd⟩ := Option.isSome_iff_exists.mp ho.hasData
  have hkq := hk q List.mem_cons_self
  have hstores : HierarchicalState.storesHistory c s h (some q) = true := by
    have hstart : some q ≠ c.startState s := fun heq => by
      rw [(Chart.startState_eq_some heq.symm).1] at hkq
      simp at hkq
    have hqh : q ≠ h := fun heq => by
      rw [← heq] at hkh
      rcases hkq with hkq | hkq <;> rw [hkq] at hkh <;> cases hkh
    have hfin : c.kind q ≠ .finalState := fun heq => by simp [heq] at hkq
    simp [HierarchicalState.storesHistory, Chart.isFinal, hstart, hqh, hfin]
  obtain ⟨type, htype⟩ : ∃ type, c.kind h = .pseudoState type := by
    cases hkind : c.kind h <;> simp_all [StateKind.isHistory]
  have hbound : c.maxDepth < c.chainBound + c.depth s := by
    unfold Chart.chainBound
    omega
  obtain ⟨chain, hchain⟩ : ∃ chain,
      c.calculateHistoryChain w.data type c.chainBound (w.data.current s) = some chain :=
    exists_calculateHistoryChain ho.pointers (fun r hr => ho.pointers s r hr) hbound
  have hst : Returns (c.storeHistory h) w ⟨⟩
      (w.onData fun m => m.modify h fun d => { d with stateset := chain }) := by
    simp [Returns, StateT.run, Chart.storeHistory, hd, hctx, htype, hchain]
  refine ⟨_, HierarchicalState.returns_saveHistory.mpr
    (Or.inr ⟨h, ho.history, hl.1 ▸ hstores, hst⟩),
    fun _ => isActive_storeHistory hst, fun _ => current_storeHistory hst, ?_⟩
  have hstored : (w.onData fun m => m.modify h fun d => { d with stateset := chain }).data.stateset
    h
      = chain := by
    refine Metadata.stateset_modify.trans ?_
    simp [hd]
  rw [hstored, Chart.kept]
  split
  · rename_i hdeep
    obtain rfl := StateKind.pseudoState.inj (htype.symm.trans hdeep)
    exact calculateHistoryChain_deep ho.pointers hl
      (fun x hx =>
        ho.sequential ((hl.descends ho.pointers).elim fun z hz => (hz.mem_iff.mp hx).2.1)) hchain
  · rename_i hdeep
    have hshallow : type = .history := by
      rw [htype] at hkh hdeep
      cases type <;> simp_all [StateKind.isHistory]
    rw [hl.1, hshallow] at hchain
    generalize c.chainBound = n at hchain
    cases n with
    | zero => cases hchain
    | succ n => exact (Option.some.inj hchain).symm

/-- What is stored is there when the state is left. -/
lemma leaves (hd : c.Discreet s) {q : S} (hl : Chart.Chain w.data s (q :: l))
    (ha : ∀ y ∈ q :: l, w.data.isActive y = true)
    (hk : ∀ y ∈ q :: l, c.kind y = .state ∨ c.kind y = .hierarchicalState) :
    ∃ w', Returned (fun k => (c.methods k).deactivate s) w ⟨⟩ w'
      ∧ w'.data.stateset h = c.kept h (q :: l) := by
  obtain ⟨hkh, hctx⟩ := Chart.history_eq_some_iff.mp ho.history
  have hqs := ho.pointers s q hl.1
  obtain ⟨z, hz⟩ := hl.descends ho.pointers
  have hsl : s ∉ q :: l := fun hmem => (hz.mem_iff.mp hmem).2.2 rfl
  obtain ⟨w₁, h₁, hact₁, hcur₁, hset₁⟩ := ho.saves hl hk
  obtain ⟨w₂, ⟨k, h₂⟩, hact₂, hset₂⟩ := deactivate_chain (w := w₁) hd
    (fun p r hr => ho.pointers p r (hcur₁ p ▸ hr)) (Forest.below_of_parent (F := c.forest) hqs)
    (hl.2.congr fun y _ => hcur₁ y) (fun y hy => (hact₁ y).trans (ha y hy)) hk
  have hq : Returned (fun k => HierarchicalState.deactivateCurrent (c.methods k)
      (w.data.current s)) w₁ ⟨⟩ w₂ := ⟨k, by rw [hl.1]; exact h₂⟩
  obtain ⟨w', h', -, hset⟩ := HierarchicalState.exists_deactivate ho.kind hd (Forest.below_refl _)
    ho.active h₁ hq (by simp [hact₂, hsl, hact₁, ho.active])
  have hhs : h ≠ s := Forest.ne_of_parent (F := c.forest) hctx
  have hhl : h ∉ q :: l := fun hmem => by
    rcases hk h hmem with hkind | hkind <;> rw [hkind] at hkh <;> cases hkh
  refine ⟨w', h', ?_⟩
  rw [hset h hhs, hset₂ h hhl, hset₁]
  intro p hp heq
  obtain rfl := Option.some.inj (hctx.symm.trans (Chart.history_eq_some_iff.mp heq).2)
  exact hsl hp

end Occupied

/-- The state is activated, and then its history, which has stored a way down. -/
lemma exists_activate_history (hd : c.Discreet s) (hs : c.kind s = .hierarchicalState)
    (hh : c.history s = some h) {q : S} {z : S} (hl : c.forest.Descends s (q :: l) z)
    (hk : ∀ y ∈ q :: l, c.kind y = .state ∨ c.kind y = .hierarchicalState)
    (hset : w.data.stateset h = q :: l) (ha : w.data.isActive s = false)
    (hin : ∀ y ∈ q :: l, w.data.isActive y = false) :
    ∃ w₁ w', Returned (fun k => (c.methods k).activate s) w true w₁
      ∧ Returned (fun k => (c.methods k).activate h) w₁ true w'
      ∧ (∀ y, w'.data.isActive y
          = (decide (y ∈ q :: l) || (decide (y = h) || (decide (y = s) || w.data.isActive y))))
      ∧ Chart.Chain w'.data s (q :: l) := by
  obtain ⟨hkh, hctx⟩ := Chart.history_eq_some_iff.mp hh
  have hhs : h ≠ s := Forest.ne_of_parent (F := c.forest) hctx
  have h₁ := returns_activate_ordinary (Or.inr hs) ha 0
  generalize hw₁ : c.greet s (c.arrive s w) = w₁ at h₁
  have hagree₁ : (c.arrive s w).data.Agree w₁.data := hw₁ ▸ hd.agree_greet (Forest.below_refl _)
  have hact₁ : ∀ y, w₁.data.isActive y = (decide (y = s) || w.data.isActive y) := fun y => by
    rw [hagree₁.isActive, isActive_arrive]
  generalize hw₂ : c.visit h w₁ = w₂
  have hagree₂ : (c.activateData h w₁).data.Agree w₂.data :=
    hw₂ ▸ hd.agree_entry (Forest.below_of_parent (F := c.forest) hctx)
  have hact₂ : ∀ y, w₂.data.isActive y = (decide (y = h) || w₁.data.isActive y) := fun y => by
    rw [hagree₂.isActive, data_activateData, Metadata.isActive_activate]
  have hset₂ : w₂.data.stateset h = q :: l := by
    rw [hagree₂.stateset, data_activateData, Metadata.stateset_activate, hagree₁.stateset,
      stateset_arrive, hset]
  have hnot : ∀ y ∈ q :: l, y ≠ h ∧ y ≠ s := fun y hy => by
    refine ⟨fun heq => ?_, (hl.mem_iff.mp hy).2.2⟩
    rw [← heq] at hkh
    rcases hk y hy with hkind | hkind <;> rw [hkind] at hkh <;> cases hkh
  obtain ⟨w', h', hact, hchain, -⟩ := restore_chain (w := w₂) hd hl (Forest.below_refl _) hk
    (fun y hy => by simp [hact₂, hact₁, hin y hy, hnot y hy]) (by simp [hact₂, hact₁]) (by simp) 0
  refine ⟨w₁, w', ⟨1, h₁⟩, ⟨2, ?_⟩, fun y => by rw [hact, hact₂, hact₁], hchain⟩
  obtain ⟨type, htype⟩ : ∃ type, c.kind h = .pseudoState type := by
    cases hkind : c.kind h <;> simp_all [StateKind.isHistory]
  change Returns ((c.step (c.methods 1)).activate h) w₁ true w'
  simp only [Chart.step, htype]
  refine PseudoState.returns_activate.mpr ⟨rfl, Or.inl ⟨hkh, ?_⟩⟩
  rw [hw₂, hset₂]
  exact h'

/-- What was active inside `s` in `m` is active in `m'`, with the same current states; for a shallow
history, this is said of the children of `s`. The history `h` itself is left out, and the others
keep the flag they have in `m₂`. -/
structure Revives (c : Chart S T E P) (s h : S) (m m₂ m' : Metadata S) : Prop where
  deep : c.kind h = .pseudoState .deepHistory → ∀ x, c.Below x s → x ≠ s → x ≠ h →
    ((c.kind x).isHistory = true → m₂.isActive x = m.isActive x) → m'.isActive x = m.isActive x
  deepCurrent : c.kind h = .pseudoState .deepHistory → ∀ x, c.Below x s →
    (c.kind x).isHistory = false →
    m.isActive x = true → m'.current x = m.current x
  shallow : c.kind h = .pseudoState .history → ∀ x, c.context x = some s → x ≠ h →
    m'.isActive x = m.isActive x
  shallowCurrent : c.kind h = .pseudoState .history → m'.current s = m.current s

/-- Active states have active contexts, as in the middle of a transition, too. Histories do not
count. -/
def Grounded (c : Chart S T E P) (m : Metadata S) : Prop := ∀ x p, (c.kind x).isHistory = false →
  m.isActive x = true → c.context x = some p → m.isActive p = true

omit [DecidableEq S] in
lemma Grounded.inactive_of_below (hg : Grounded c m) (hs : m.isActive s = false) (hx : c.Below x s)
    (hk : (c.kind x).isHistory = false) : m.isActive x = false := by
  induction hx using Relation.ReflTransGen.head_induction_on with
  | refl => exact hs
  | head hp _ ih =>
      by_contra ha
      have hpa := hg _ _ hk (Bool.eq_true_of_not_eq_false ha) hp
      rw [ih (isHistory_of_context hp)] at hpa
      cases hpa

/-- Leaving `s` ends, and later, from any configuration in which `s` is inactive and its context
active and the set of the history is the one stored, entering `s` and then `h` ends too and revives
what was active. -/
def RoundTrip (c : Chart S T E P) (s h : S) (w : World S T E P) : Prop :=
  ∃ w₁, Returned (fun k => (c.methods k).deactivate s) w ⟨⟩ w₁
    ∧ ∀ w₂ : World S T E P, Grounded c w₂.data → w₂.data.isActive s = false →
      (∀ p, c.context s = some p → w₂.data.isActive p = true) →
      w₂.data.stateset h = w₁.data.stateset h →
      ∃ w₃ w₄, Returned (fun k => (c.methods k).activate s) w₂ true w₃
        ∧ Returned (fun k => (c.methods k).activate h) w₃ true w₄
        ∧ Revives c s h w.data w₂.data w₄.data

/-- **The round trip.** Where the actions inside leave the configuration alone, what a history
stores when its context is left makes the same states active when the context is entered through
it. -/
theorem roundTrip (hd : c.Discreet s) (ho : Occupied c s h w) : RoundTrip c s h w := by
  obtain ⟨hkh, hctx⟩ := Chart.history_eq_some_iff.mp ho.history
  obtain ⟨q, l, hl, hact, hkind⟩ := ho.exists_chain
  obtain ⟨w₁, h₁, hset₁⟩ := ho.leaves hd hl hact hkind
  refine ⟨w₁, h₁, fun w₂ hg hs₂ _ hset₂ => ?_⟩
  obtain ⟨z, hz⟩ := hl.descends ho.pointers
  have hin : ∀ {x}, c.Below x s → (c.kind x).isHistory = false → w₂.data.isActive x = false :=
    fun hx hk => hg.inactive_of_below hs₂ hx hk
  have hord : ∀ y ∈ q :: l, (c.kind y).isHistory = false := fun y hy => by
    rcases hkind y hy with hk | hk <;> rw [hk] <;> rfl
  have hbelow : ∀ y ∈ q :: l, c.Below y s := fun y hy => (hz.mem_iff.mp hy).2.1
  have hmem : ∀ {x}, c.Below x s → x ≠ s → (c.kind x).isHistory = false →
      (w.data.isActive x = true ↔ x ∈ q :: l) := fun hx hne hk =>
    ⟨ho.mem_chain (Forest.below_refl _) hl hx hne hk, hact _⟩
  rcases StateKind.eq_of_isHistory hkh with hshallow | hdeep
  · have hset : w₂.data.stateset h = [q] := by
      rw [hset₂, hset₁, Chart.kept, if_neg (by rw [hshallow]; decide)]
      rfl
    obtain ⟨w₃, w₄, h₃, h₄, hact₄, hchain₄⟩ := exists_activate_history hd ho.kind ho.history
      (l := [])
      (z := q) ⟨hz.1, rfl⟩ (by simpa using hkind q List.mem_cons_self) hset hs₂
      (by simpa using hin (hbelow q List.mem_cons_self) (hord q List.mem_cons_self))
    refine ⟨w₃, w₄, h₃, h₄, fun hk => ?_, fun hk => ?_, fun _ x hx hxh => ?_, fun _ =>
      hchain₄.1.trans hl.1.symm⟩
    · rw [hshallow] at hk
      cases hk
    · rw [hshallow] at hk
      cases hk
    · have hk : (c.kind x).isHistory = false := by
        by_contra hk
        exact hxh (c.history_unique (Bool.eq_true_of_not_eq_false hk) hkh (hx.trans hctx.symm))
      have hwx : w.data.isActive x = decide (x = q) := by
        rw [Bool.eq_iff_iff, decide_eq_true_eq]
        constructor
        · intro ha
          have hcur := ho.legal.child (Or.inr ⟨ho.kind, ho.active⟩) hk ha hx
          exact Option.some.inj (hcur.symm.trans hl.1)
        · rintro rfl
          exact hact x List.mem_cons_self
      rw [hact₄, hin (Forest.below_of_parent (F := c.forest) hx) hk, hwx]
      simp [hxh, Forest.ne_of_parent (F := c.forest) hx]
  · have hset : w₂.data.stateset h = q :: l := by
      rw [hset₂, hset₁, Chart.kept, if_pos hdeep]
    obtain ⟨w₃, w₄, h₃, h₄, hact₄, hchain₄⟩ :=
      exists_activate_history hd ho.kind ho.history hz hkind hset
      hs₂ fun y hy => hin (hbelow y hy) (hord y hy)
    refine ⟨w₃, w₄, h₃, h₄, fun _ x hx hxs hxh hhist => ?_, fun _ x hx hk ha => ?_, fun hk => ?_,
      fun hk => ?_⟩
    · cases hk : (c.kind x).isHistory with
      | false =>
          have hwx : w.data.isActive x = decide (x ∈ q :: l) :=
            Bool.eq_iff_iff.mpr (by simpa only [decide_eq_true_eq] using hmem hx hxs hk)
          rw [hact₄, hin hx hk, hwx]
          simp [hxh, hxs]
      | true =>
          have hxl : x ∉ q :: l := fun hxl => by
            rw [hord x hxl] at hk
            cases hk
          rw [hact₄, hhist hk]
          simp [hxl, hxh, hxs]
    · refine hl.current_eq hchain₄ x ?_
      by_cases hxs : x = s
      · exact hxs ▸ List.mem_cons_self
      · exact List.mem_cons_of_mem s ((hmem hx hxs hk).mp ha)
    · rw [hdeep] at hk
      cases hk
    · rw [hdeep] at hk
      cases hk

end HierarchicalState

namespace Oblivious

/-- A hierarchical state `box` with a deep history `past` and the state `inner`, which has the state
`leaf`. -/
inductive St where
  | chart | box | past | inner | leaf
  deriving DecidableEq

instance : Fintype St := ⟨{.chart, .box, .past, .inner, .leaf}, fun x => by cases x <;> decide⟩

/-- Clears what `past` has stored. -/
def clear : Action St Unit := fun m p => (m.modify .past fun d => { d with stateset := [] }, p)

/-- The exit action of `leaf` may be the one that clears the history. -/
def chart (clears : Bool) : Chart St Empty Event Unit where
  name := "oblivious"
  root := .chart
  ownedStates := [.box, .past, .inner, .leaf]
  ownedTransitions := []
  kind
    | .chart => .statechart
    | .box | .inner => .hierarchicalState
    | .past => .pseudoState .deepHistory
    | .leaf => .state
  context
    | .chart => none
    | .box => some .chart
    | .past | .inner => some .box
    | .leaf => some .inner
  depth
    | .chart => 0
    | .box => 1
    | .past | .inner => 2
    | .leaf => 3
  exitAction
    | .leaf => if clears then some clear else none
    | _ => none
  source t := t.elim
  target t := t.elim
  internal_target {t} := t.elim
  equals ev e _ _ := ev.equals e
  timeout := Event.timeout

/-- The chart stands in `leaf`. -/
def data : Metadata St :=
  ⟨fun
    | .chart => some { active := true, currentState := some .box }
    | .box => some { active := true, currentState := some .inner }
    | .past => some {}
    | .inner => some { active := true, currentState := some .leaf }
    | .leaf => some { active := true }⟩

def world : World St Empty Event Unit := { World.fresh () with data }

set_option maxRecDepth 4000 in
lemma legal : ∀ clears, (chart clears).LegalConfiguration data := by
  rintro (_ | _) <;> refine ⟨?_, ?_, ?_, ?_⟩ <;> decide

lemma occupied (clears : Bool) : HierarchicalState.Occupied (chart clears) .box .past world where
  kind := rfl
  history := rfl
  hasData := rfl
  sequential {x} _ := by cases x <;> cases clears <;> decide
  legal := legal clears
  pointers p q := by cases p <;> cases q <;> cases clears <;> decide
  active := rfl
  ordinary := ⟨.inner, rfl, by cases clears <;> decide⟩

lemma discreet : (chart false).Discreet .box where
  entry _ h := by cases h
  doing _ h := by cases h
  exit {x} _ _ h := by cases x <;> cases h

set_option maxRecDepth 4000 in
/-- `leaf` is not restored. -/
theorem not_roundTrip : ∃ w, HierarchicalState.Occupied (chart true) .box .past w
    ∧ ¬ HierarchicalState.RoundTrip (chart true) .box .past w := by
  refine ⟨world, occupied _, fun ⟨w₁, h₁, hall⟩ => ?_⟩
  obtain ⟨-, rfl⟩ := h₁.unique ((monotone_deactivate _).comp (monotone_methods _)) ⟨4, rfl⟩
  obtain ⟨w₃, w₄, h₃, h₄, hrev⟩ := hall _ (by unfold HierarchicalState.Grounded; decide) rfl
    (by decide) rfl
  obtain ⟨-, rfl⟩ := h₃.unique ((monotone_activate _).comp (monotone_methods _)) ⟨1, rfl⟩
  obtain ⟨-, rfl⟩ := h₄.unique ((monotone_activate _).comp (monotone_methods _)) ⟨2, rfl⟩
  exact absurd (hrev.deep rfl .leaf (by decide) (by decide) (by decide) (by decide)) (by decide)

/-- Without the action it is. -/
theorem roundTrip_world : ∃ w₁, Returned (fun k => ((chart false).methods k).deactivate .box)
    world ⟨⟩ w₁
    ∧ w₁.data.isActive .leaf = false ∧ ∃ w₃ w₄, Returned
      (fun k => ((chart false).methods k).activate .box) w₁ true w₃
      ∧ Returned (fun k => ((chart false).methods k).activate .past) w₃ true w₄
      ∧ w₄.data.isActive .leaf = true ∧ w₄.data.current .inner = some .leaf := by
  obtain ⟨w₁, h₁, hall⟩ := HierarchicalState.roundTrip discreet (occupied false)
  obtain ⟨-, rfl⟩ := h₁.unique ((monotone_deactivate _).comp (monotone_methods _)) ⟨4, rfl⟩
  obtain ⟨w₃, w₄, h₃, h₄, hrev⟩ := hall _ (by unfold HierarchicalState.Grounded; decide) rfl
    (by decide) rfl
  exact ⟨_, h₁, rfl, w₃, w₄, h₃, h₄, hrev.deep rfl .leaf (by decide) (by decide) (by decide)
    (by decide), hrev.deepCurrent rfl .inner (by decide) rfl rfl⟩

end Oblivious

end CppStatecharts
