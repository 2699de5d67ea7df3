import CppStatecharts.Completion.Quiescence
import CppStatecharts.Semantics.Pointers

/-!
What a dispatch reports.

* `Methods.screen`, `Chart.screened`: the methods as long as every call of `dispatch`, at whatever
  depth, passes a test; `Chart.Throughout`: a call and all the calls of `dispatch` it makes pass it.
* `Chart.honest`: the call reports that something has fired exactly when something has.
  `Chart.careful`: no event that a substate has handled is lost in the own transitions of a
  hierarchical state, and a fork that is dispatched fires a branch.
* `Chart.honest_iff`: the two are the same, and then a dispatch of a quiescent configuration that
  reports `false` has done nothing.
* `Unreported.not_honest`: a substate that reaches the final state of its context is not reported.
-/

namespace CppStatecharts

variable {S T E P : Type}

/-- A test of a call of `dispatch`: the state, the world before, the result and the world after. -/
abbrev Test (S T E P : Type) := S → World S T E P → Bool → World S T E P → Bool

/-! ### Screened calls -/

/-- The methods, with the calls of `dispatch` that do not pass the test cut off. -/
def Methods.screen (Q : Test S T E P) (v : Methods S T E P) :
    Methods S T E P :=
  { v with
    dispatch := fun s e => do
      let w ← get
      let b ← v.dispatch s e
      let w' ← get
      if Q s w b w' then return b else failure }

variable [DecidableEq S]

/-- The methods with at most `n` nested calls, as long as every call of `dispatch` passes the
test. -/
def Chart.screened (c : Chart S T E P) (Q : Test S T E P) :
    ℕ → Methods S T E P
  | 0 => c.methods 0
  | n + 1 => (c.step (c.screened Q n)).screen Q

/-- The dispatch of `e` to `s` returns, and it and every dispatch within it pass the test. -/
def Chart.Throughout (c : Chart S T E P) (Q : Test S T E P)
    (s : S) (e : Option E) (w : World S T E P) : Prop :=
  Converges (fun n => (c.screened Q n).dispatch s e) w

omit [DecidableEq S] in
/-- The dispatch of `s` reports that a transition has fired exactly when one has. -/
def Chart.honest (_ : S) (w : World S T E P) (b : Bool) (w' : World S T E P) : Bool :=
  b == decide (w.firings < w'.firings)

omit [DecidableEq S] in
/-- The dispatch of `s` does not end with an event handled by a substate that no own transition of
the enclosing state wants, and if `s` is a fork, a transition has fired. -/
def Chart.careful (c : Chart S T E P) (s : S) (w : World S T E P) (_ : Bool)
    (w' : World S T E P) : Bool :=
  !((w.since w').head? matches some (.fallThrough ..))
    && (!decide (c.kind s = .pseudoState .fork) || decide (w.firings < w'.firings))

variable {c : Chart S T E P} {v : Methods S T E P} {Q : Test S T E P}
variable {w w₁ w₂ w' : World S T E P} {s n q r : S} {t : T} {e : Option E} {b b' : Bool}

omit [DecidableEq S] in
lemma returns_screen : Returns ((v.screen Q).dispatch s e) w b w'
    ↔ Returns (v.dispatch s e) w b w' ∧ Q s w b w' = true := by
  simp only [Methods.screen, returns_bind, returns_get, returns_ite, returns_pure, returns_failure]
  constructor
  · rintro ⟨_, _, ⟨rfl, rfl⟩, b', w₁, h, _, _, ⟨rfl, rfl⟩, ⟨hq, rfl, rfl⟩ | ⟨-, h⟩⟩
    · exact ⟨h, hq⟩
    · exact h.elim
  · rintro ⟨h, hq⟩
    exact ⟨w, w, ⟨rfl, rfl⟩, b, w', h, w', w', ⟨rfl, rfl⟩, Or.inl ⟨hq, rfl, rfl⟩⟩

omit [DecidableEq S] in
/-- Only the tests of runs matter. -/
lemma screen_congr {Q' : Test S T E P}
    (h : ∀ s e w b w', Returns (v.dispatch s e) w b w' → Q s w b w' = Q' s w b w') :
    v.screen Q = v.screen Q' := by
  have hd : (v.screen Q).dispatch = (v.screen Q').dispatch := by
    funext s e
    refine comp_ext fun w b w' => ?_
    rw [returns_screen, returns_screen]
    exact and_congr_right fun hr => by rw [h s e w b w' hr]
  exact congrArg (fun d => { v with dispatch := d }) hd

omit [DecidableEq S] in
lemma screen_le : v.screen Q ≤ v :=
  ⟨fun _ => le_rfl, fun _ => le_rfl, fun _ => le_rfl, fun _ _ _ _ _ h => (returns_screen.mp h).1⟩

namespace Chart

variable (c Q) in
/-- The screened methods return what the methods return. -/
lemma screened_le : ∀ k : ℕ, c.screened Q k ≤ c.methods k
  | 0 => le_rfl
  | k + 1 => screen_le.trans (monotone_step c (screened_le k))

variable (c Q) in
lemma pure_screened (k : ℕ) : (c.screened Q k).Pure :=
  fun j w b w' h => pure_methods c k j w b w' ((screened_le c Q k).1 j w b w' h)

variable (c Q) in
lemma keep_screened (k : ℕ) : (c.screened Q k).Keep Set.univ World.Extends := by
  have h := (compatible_extends c).methods k
  obtain ⟨-, ha, hd, hx⟩ := screened_le c Q k
  exact ⟨fun s w b w' hr => h.activate s w b w' (ha s w b w' hr),
    fun s w b w' hr => h.deactivate s w b w' (hd s w b w' hr),
    fun s e he w b w' hr => h.dispatch s e he w b w' (hx s e w b w' hr)⟩

end Chart

/-! ### Results -/

/-- The second world extends the first, and what was observed last is no handled event offered to an
enclosing state. -/
def World.Clear (w w' : World S T E P) : Prop :=
  ∃ l, w'.trace = l ++ w.trace ∧ ∀ s b, l.head? ≠ some (.fallThrough s b)

/-- The result `b` tells whether a transition has fired. -/
structure World.Told (w : World S T E P) (b : Bool) (w' : World S T E P) : Prop where
  iff : b = true ↔ w.firings < w'.firings
  clear : w.Clear w'

namespace World

omit [DecidableEq S]

lemma Clear.extends (h : w.Clear w') : w.Extends w' := by
  obtain ⟨l, hl, -⟩ := h
  exact ⟨l, hl, fun _ _ => trivial⟩

lemma Clear.refl (w : World S T E P) : w.Clear w := ⟨[], rfl, by simp⟩

lemma Clear.trans (h : w.Clear w₁) (h' : w₁.Clear w') : w.Clear w' := by
  obtain ⟨l, hl, hlast⟩ := h
  obtain ⟨l', hl', hlast'⟩ := h'
  refine ⟨l' ++ l, by rw [hl', hl, List.append_assoc], fun s b => ?_⟩
  cases l' with
  | nil => exact hlast s b
  | cons o l' => exact hlast' s b

lemma Clear.log {o : Obs S T} (h : w.Extends w') (ho : ∀ s b, o ≠ .fallThrough s b) :
    w.Clear (w'.log o) := by
  obtain ⟨l, hl, -⟩ := h
  exact ⟨o :: l, congrArg (o :: ·) hl, fun s b => by simpa using ho s b⟩

lemma Told.refl (w : World S T E P) : w.Told false w := ⟨by simp, Clear.refl w⟩

/-- One after the other, the results add up. -/
lemma Told.trans (h : w.Told b w₁) (h' : w₁.Told b' w') : w.Told (b || b') w' := by
  refine ⟨?_, h.clear.trans h'.clear⟩
  have hle := h.clear.extends.firings_le
  have hle' := h'.clear.extends.firings_le
  rw [Bool.or_eq_true, h.iff, h'.iff]
  omega

lemma Told.of_firings (h : w.Clear w') (hf : w'.firings = w.firings) : w.Told false w' :=
  ⟨by simp [hf], h⟩

/-- A report that something has fired does not depend on what went before. -/
lemma Told.of_extends (h : w.Extends w₁) (h' : w₁.Told true w') : w.Told true w' := by
  have hlt : w₁.firings < w'.firings := h'.iff.mp rfl
  refine ⟨iff_of_true rfl (h.firings_le.trans_lt hlt), ?_⟩
  obtain ⟨l, hl, -⟩ := h
  obtain ⟨l', hl', hlast⟩ := h'.clear
  refine ⟨l' ++ l, by rw [hl', hl, List.append_assoc], fun s b => ?_⟩
  cases l' with
  | nil => simp [firings, hl'] at hlt
  | cons o l' => exact hlast s b

end World

/-! ### One call -/

lemma Transition.fire_told (hv : v.Keep Set.univ World.Extends)
    (h : Returns (Transition.fire c v t) w ⟨⟩ w') : w.Told true w' := by
  have hext : (w.log (.fire t w.data)).Extends w' := (compatible_extends c).after_fire hv h
  obtain ⟨_, w₂, -, -, rfl⟩ := Transition.returns_fire.mp h
  refine ⟨?_, ?_⟩
  · have hle := hext.firings_le
    have hfire : (w.log (.fire t w.data)).firings = w.firings + 1 := by
      simp [World.firings]
    simp only [true_iff]
    omega
  · obtain ⟨l, hl, -⟩ := hext
    refine ⟨l ++ [.fire t w.data], by rw [hl]; simp, fun s b => ?_⟩
    cases l with
    | nil => simp
    | cons o l =>
        obtain ⟨rfl, -⟩ := List.cons.inj hl
        simp

lemma Transition.execute_told (hp : v.Pure) (hv : v.Keep Set.univ World.Extends)
    (h : Returns (Transition.execute c v t e) w b w') : w.Told b w' := by
  rcases (Transition.returns_execute hp).mp h with ⟨rfl, -, -, h⟩ | ⟨rfl, rfl, -⟩
  · exact Transition.fire_told hv h
  · exact World.Told.refl _

omit [DecidableEq S] in
/-- A search reports what its tests report. -/
lemma anyM_told {f : T → Comp (World S T E P) Bool} {l : List T}
    (hf : ∀ t w b w', Returns (f t) w b w' → w.Told b w') (h : Returns (l.anyM f) w b w') :
    w.Told b w' := by
  induction l generalizing w with
  | nil =>
      obtain ⟨rfl, rfl⟩ := returns_anyM_nil.mp h
      exact World.Told.refl _
  | cons t l ih =>
      rcases returns_anyM_cons.mp h with ⟨h₁, rfl⟩ | ⟨w₁, h₁, h₂⟩
      · exact hf t _ _ _ h₁
      · exact (hf t _ _ _ h₁).trans (ih h₂)

lemma State.dispatch_told (hp : v.Pure) (hv : v.Keep Set.univ World.Extends)
    (h : Returns (State.dispatch c v s e) w b w') : w.Told b w' :=
  anyM_told (fun _ _ _ _ => Transition.execute_told hp hv) h

lemma HierarchicalState.tryTransition_told (hp : v.Pure) (hv : v.Keep Set.univ World.Extends)
    {fin : Bool} (h : Returns (HierarchicalState.tryTransition c v fin e t) w b w') :
    w.Told b w' := by
  rcases (HierarchicalState.returns_tryTransition hp).mp h with ⟨-, rfl, rfl⟩ | ⟨-, h⟩
  · exact World.Told.refl _
  · exact Transition.execute_told hp hv h

lemma ConcurrentState.tryTransition_told (hp : v.Pure) (hv : v.Keep Set.univ World.Extends)
    (h : Returns (ConcurrentState.tryTransition c v n e t) w b w') : w.Told b w' := by
  rcases ConcurrentState.returns_tryTransition.mp h with ⟨-, rfl, rfl⟩ | ⟨-, -, h⟩
  · exact World.Told.refl _
  · exact Transition.execute_told hp hv h

lemma told_activateData : w.Told false (c.activateData s w) :=
  World.Told.of_firings (World.Clear.log (World.Adds.of_eq rfl) (by simp))
    (by simp [World.firings, Chart.activateData])

/-- Entering a pseudo-state that is neither a history nor a fork fires nothing. -/
lemma PseudoState.activate_told (hk : (c.kind s).isHistory = false)
    (hf : c.kind s ≠ .pseudoState .fork) (h : Returns (PseudoState.activate c v s) w b w') :
    w.Told false w' := by
  obtain ⟨-, ⟨hh, -⟩ | ⟨-, hfork, -⟩ | ⟨-, -, rfl⟩⟩ := PseudoState.returns_activate.mp h
  · rw [hk] at hh
    cases hh
  · exact absurd hfork hf
  · have hact : w.Told false (c.activateData s w) := told_activateData
    unfold Chart.visit
    cases c.entryAction s with
    | none => exact hact
    | some f =>
        exact hact.trans (World.Told.of_firings
          (World.Clear.log (World.Adds.of_eq rfl) (by simp))
          (by simp [World.firings, World.perform]))

/-- The first entry into a hierarchical state fires nothing: a start state is entered. -/
lemma HierarchicalState.enterStart_told
    (hst : ∀ st w b w', c.kind st = .pseudoState .start → Returns (v.activate st) w b w' →
      w.Told false w')
    (h : Returns (HierarchicalState.enterStart c v s) w ⟨⟩ w') : w.Told false w' := by
  rcases HierarchicalState.returns_enterStart.mp h with
    ⟨rfl, -⟩ | ⟨st, hcur, hs, ⟨-, rfl⟩ | ⟨q, b, hq, h⟩⟩
  · exact World.Told.refl _
  · exact told_activateData
  · obtain ⟨hk, hctx⟩ := Chart.startState_eq_some hs
    rcases current_activateData_cases hq with ⟨rfl, -⟩ | hq
    · exact World.Told.trans told_activateData (hst q _ b w' hk h)
    · rw [hcur] at hq
      cases hq

/-- The run of a hierarchical state reports what has fired, unless an event handled by the substate
finds no own transition. -/
lemma HierarchicalState.dispatch_told (hp : v.Pure) (hv : v.Keep Set.univ World.Extends)
    (hst : ∀ st w b w', c.kind st = .pseudoState .start → Returns (v.activate st) w b w' →
      w.Told false w')
    (hd : ∀ q w b w', Returns (v.dispatch q e) w b w' → w.Told b w')
    (h : Returns (HierarchicalState.dispatch c v s e) w b w') :
    w.Told b w' ∨ b = false ∧ w.firings < w'.firings
      ∧ (w.since w').head? = some (.fallThrough s e.isSome) := by
  rcases HierarchicalState.returns_dispatch.mp h with
    ⟨-, rfl, rfl⟩ | ⟨-, w₁, w₂, handled, h₁, h₂, h₃⟩
  · exact Or.inl (World.Told.refl _)
  have hsub : w.Told handled w₂ := by
    have hcur : w₁.Told handled w₂ := by
      rcases HierarchicalState.returns_dispatchCurrent.mp h₂ with ⟨-, rfl, rfl⟩ | ⟨q, -, h₂⟩
      · exact World.Told.refl _
      · exact hd q _ _ _ h₂
    exact (HierarchicalState.enterStart_told hst h₁).trans hcur
  rcases h₃ with ⟨-, rfl, rfl⟩ | ⟨-, rfl, -, rfl, rfl⟩ | ⟨-, -, h₃⟩
  · exact Or.inl hsub
  · exact Or.inl hsub
  have hown := anyM_told (fun _ _ _ _ => HierarchicalState.tryTransition_told hp hv) h₃
  cases handled with
  | false => exact Or.inl (hsub.trans hown)
  | true =>
      cases b with
      | false =>
          -- nothing is left of what the substate reported
          obtain rfl := anyM_eq (fun _ _ _ _ => HierarchicalState.tryTransition_false hp) h₃
          refine Or.inr ⟨rfl, ?_, ?_⟩
          · simpa [HierarchicalState.offered, World.firings] using hsub.iff.mp rfl
          · have hsince := World.since_trans hsub.clear.extends
              (World.extends_log w₂ (.fallThrough s e.isSome))
            simp [HierarchicalState.offered, hsince, World.since_log]
      | true =>
          refine Or.inl (World.Told.of_extends ?_ hown)
          exact hsub.clear.extends.trans (World.extends_log w₂ _)

omit [DecidableEq S] in
lemma ConcurrentState.dispatchRegions_told
    (hd : ∀ q w b w', Returns (v.dispatch q e) w b w' → w.Told b w') {l : List S}
    (h : Returns (ConcurrentState.dispatchRegions v n e l) w b w') : w.Told b w' := by
  induction l generalizing w b with
  | nil =>
      obtain ⟨rfl, rfl⟩ := returns_pure.mp h
      exact World.Told.refl _
  | cons r l ih =>
      obtain ⟨b₁, w₁, b₂, h₁, h₂, rfl⟩ := ConcurrentState.returns_dispatchRegions_cons.mp h
      refine World.Told.trans ?_ (ih h₂)
      rcases ConcurrentState.returns_dispatchRegion.mp h₁ with ⟨-, rfl, rfl⟩ | ⟨-, h₁⟩
      · exact World.Told.refl _
      · exact hd r _ _ _ h₁

lemma ConcurrentState.dispatch_told (hp : v.Pure) (hv : v.Keep Set.univ World.Extends)
    (hd : ∀ q w b w', Returns (v.dispatch q e) w b w' → w.Told b w')
    (h : Returns (ConcurrentState.dispatch c v n e) w b w') : w.Told b w' := by
  rcases ConcurrentState.returns_dispatch.mp h with ⟨h₁, rfl⟩ | ⟨w₁, h₁, h₂⟩
  · exact ConcurrentState.dispatchRegions_told hd h₁
  · exact (ConcurrentState.dispatchRegions_told hd h₁).trans
      (anyM_told (fun _ _ _ _ => ConcurrentState.tryTransition_told hp hv) h₂)

/-- A fork reports that something has fired whatever its branches do. -/
lemma PseudoState.dispatch_told (hp : v.Pure) (hv : v.Keep Set.univ World.Extends)
    (hd : ∀ q w b w', Returns (v.dispatch q e) w b w' → w.Told b w')
    (h : Returns (PseudoState.dispatch c v s e) w b w') :
    c.kind s ≠ .pseudoState .fork ∧ w.Told b w'
      ∨ c.kind s = .pseudoState .fork ∧ b = true ∧ w.Clear w' := by
  rcases PseudoState.returns_dispatch.mp h with ⟨q, hh, -, hq⟩ | ⟨hk, rfl, hall⟩ | ⟨hk, hs⟩
  · refine Or.inl ⟨fun hf => ?_, hd q _ _ _ hq⟩
    rw [hf] at hh
    cases hh
  · refine Or.inr ⟨hk, rfl, ?_⟩
    refine forM_induction (fun _ w' => w.Clear w') (fun _ t _ _ w₁ w₂ hw ht => ?_) hall
      (World.Clear.refl w)
    obtain ⟨b, w₃, ht, hr⟩ := returns_bind.mp ht
    obtain ⟨-, rfl⟩ := returns_pure.mp hr
    exact hw.trans (Transition.execute_told hp hv ht).clear
  · refine Or.inl ⟨fun hf => ?_, State.dispatch_told hp hv hs⟩
    rcases hk with ⟨hh, -⟩ | ⟨-, hnf⟩
    · rw [hf] at hh
      cases hh
    · exact hnf hf

/-! ### Honest and careful calls -/

omit [DecidableEq S] in
lemma honest_of_told (h : w.Told b w') : Chart.honest s w b w' = true := by
  cases b with
  | false => simpa [Chart.honest] using h.iff
  | true => simpa [Chart.honest] using h.iff

omit [DecidableEq S] in
lemma not_swallowed (h : w.Clear w') :
    ((w.since w').head? matches some (.fallThrough ..)) = false := by
  obtain ⟨l, hl, hlast⟩ := h
  rw [World.since_eq hl]
  cases hh : l.head? with
  | none => rfl
  | some o => cases o <;> simp_all

/-- A call whose calls report truly does so itself exactly when it is careful. -/
lemma honest_step (hp : v.Pure) (hv : v.Keep Set.univ World.Extends)
    (hst : ∀ st w b w', c.kind st = .pseudoState .start → Returns (v.activate st) w b w' →
      w.Told false w')
    (hd : ∀ q w b w', Returns (v.dispatch q e) w b w' → w.Told b w')
    (h : Returns ((c.step v).dispatch s e) w b w') :
    (w.Told b w' ∧ c.careful s w b w' = true)
      ∨ Chart.honest s w b w' = false ∧ c.careful s w b w' = false := by
  have hother : c.kind s ≠ .pseudoState .fork → w.Told b w' → c.careful s w b w' = true := by
    intro hk ht
    simp [Chart.careful, not_swallowed ht.clear, hk]
  cases hk : c.kind s <;> simp only [Chart.step, hk] at h
  case hierarchicalState =>
    rcases HierarchicalState.dispatch_told hp hv hst hd h with ht | ⟨rfl, hlt, hlast⟩
    · exact Or.inl ⟨ht, hother (by simp [hk]) ht⟩
    · exact Or.inr ⟨by simp [Chart.honest, hlt], by simp [Chart.careful, hlast]⟩
  case concurrentState =>
    have ht := ConcurrentState.dispatch_told hp hv hd h
    exact Or.inl ⟨ht, hother (by simp [hk]) ht⟩
  case pseudoState =>
    rcases PseudoState.dispatch_told hp hv hd h with ⟨hf, ht⟩ | ⟨hf, rfl, hclear⟩
    · exact Or.inl ⟨ht, hother hf ht⟩
    · by_cases hlt : w.firings < w'.firings
      · exact Or.inl ⟨⟨iff_of_true rfl hlt, hclear⟩,
          by simp [Chart.careful, not_swallowed hclear, hlt]⟩
      · exact Or.inr ⟨by simp [Chart.honest, hlt], by simp [Chart.careful, hf, hlt]⟩
  all_goals
    have ht := State.dispatch_told hp hv h
    exact Or.inl ⟨ht, hother (by simp [hk]) ht⟩

/-- In the screened methods every dispatch reports truly, and the entry into a start state fires
nothing. -/
lemma told_screened (k : ℕ) :
    (∀ s e w b w', Returns ((c.screened Chart.honest k).dispatch s e) w b w' → w.Told b w')
      ∧ ∀ st w b w', c.kind st = .pseudoState .start →
        Returns ((c.screened Chart.honest k).activate st) w b w' → w.Told false w' := by
  induction k with
  | zero => exact ⟨fun _ _ _ _ _ h => absurd h (by simp [Chart.screened, Chart.methods]),
      fun _ _ _ _ _ h => absurd h (by simp [Chart.screened, Chart.methods])⟩
  | succ k ih =>
      refine ⟨fun s e w b w' h => ?_, fun st w b w' hk h => ?_⟩
      · obtain ⟨h, hhon⟩ := returns_screen.mp h
        rcases honest_step (Chart.pure_screened c _ k) (Chart.keep_screened c _ k) ih.2
          (fun q => ih.1 q e) h with ⟨ht, -⟩ | ⟨hno, -⟩
        · exact ht
        · rw [hno] at hhon
          cases hhon
      · have h' : Returns (PseudoState.activate c (c.screened Chart.honest k) st) w b w' := by
          simpa only [Chart.screened, Methods.screen, Chart.step, hk] using h
        exact PseudoState.activate_told (by rw [hk]; rfl) (by rw [hk]; decide) h'

/-- Screening for honest calls and screening for careful calls is the same. -/
lemma screened_honest (k : ℕ) : c.screened Chart.honest k = c.screened c.careful k := by
  induction k with
  | zero => rfl
  | succ k ih =>
      have hstep : ∀ s e w b w',
          Returns ((c.step (c.screened Chart.honest k)).dispatch s e) w b w' →
          Chart.honest s w b w' = c.careful s w b w' := by
        intro s e w b w' h
        obtain ⟨hd, hst⟩ := told_screened (c := c) k
        rcases honest_step (Chart.pure_screened c _ k) (Chart.keep_screened c _ k) hst
          (fun q => hd q e) h with ⟨ht, hc⟩ | ⟨hh, hc⟩
        · rw [hc, honest_of_told ht]
        · rw [hh, hc]
      rw [Chart.screened, Chart.screened, ← ih]
      exact screen_congr hstep

/-! ### Quiescent configurations -/

omit [DecidableEq S] in
/-- A change that activates nothing and offers nothing twice is none, if it reports nothing. -/
lemma World.Blocked.eq (h : w.Blocked w') (hs : w'.slips ≤ w.slips) : w' = w := by
  rcases h with h | h
  · exact h
  · omega

/-- The null event finds nothing to do in `s`. -/
def Chart.Idle (c : Chart S T E P) (s : S) (w : World S T E P) : Prop :=
  Returned (fun n => (c.methods n).dispatch s none) w false w

/-- What the null event found in an idle hierarchical state: nothing to enter and an idle
substate. -/
lemma idle_hierarchical (hk : c.kind s = .hierarchicalState) (h : c.Idle s w)
    (ha : w.data.isActive s = true) :
    (w.data.current s = none → c.startState s = none)
      ∧ ∀ q, w.data.current s = some q → c.Idle q w := by
  obtain ⟨k, h⟩ := h
  cases k with
  | zero => exact absurd h (by simp [Chart.methods])
  | succ k =>
      have h' : Returns (HierarchicalState.dispatch c (c.methods k) s none) w false w := by
        simpa only [Chart.methods, Chart.step, hk] using h
      have hx := compatible_extends c
      have hoff : Offers c none World.Extends (c.methods k) :=
        hx.offers (pure_methods c k) (hx.methods k) trivial
      rcases HierarchicalState.returns_dispatch.mp h' with
        ⟨hn, -⟩ | ⟨-, w₁, w₂, handled, h₁, h₂, h₃⟩
      · rw [ha] at hn
        cases hn
      have hle₁ := World.Extends.slips_le (hx.enterStart (hx.methods k) s _ _ _ h₁)
      have hle₂ := World.Extends.slips_le (hoff.dispatchCurrent s _ _ _ h₂)
      -- the world is `w` all the time
      obtain ⟨rfl, rfl⟩ : handled = false ∧ w₂ = w := by
        rcases h₃ with ⟨-, rfl, rfl⟩ | ⟨-, -, -, hb, -⟩ | ⟨-, -, h₃⟩
        · exact ⟨rfl, rfl⟩
        · cases hb
        · have hw := anyM_eq (fun _ _ _ _ => HierarchicalState.tryTransition_false
            (pure_methods c k)) h₃
          cases handled with
          | false => exact ⟨rfl, hw.symm⟩
          | true =>
              have hlt : w₂.slips < w.slips := by
                rw [hw]
                exact slips_fallThrough
              omega
      rcases HierarchicalState.returns_enterStart.mp h₁ with ⟨rfl, hst⟩ | ⟨st, -, -, h₁⟩
      · refine ⟨hst, fun q hq => ⟨k, ?_⟩⟩
        rcases HierarchicalState.returns_dispatchCurrent.mp h₂ with ⟨hn, -⟩ | ⟨q', hq', h₂⟩
        · rw [hn] at hq
          cases hq
        · obtain rfl := Option.some.inj (hq'.symm.trans hq)
          exact h₂
      · have hlt : w₂.slips < w₁.slips := by
          rcases h₁ with ⟨-, rfl⟩ | ⟨q, b, -, h₁⟩
          · exact slips_activateData
          · exact slips_activateData.trans_le
              (World.Extends.slips_le ((hx.methods k).activate q _ _ _ h₁))
        omega

lemma idle_concurrent (hk : c.kind s = .concurrentState) (h : c.Idle s w) : ∃ k,
    Returns (ConcurrentState.dispatchRegions (c.methods k) s none (c.regions s)) w false w := by
  obtain ⟨k, h⟩ := h
  cases k with
  | zero => exact absurd h (by simp [Chart.methods])
  | succ k =>
      have h' : Returns (ConcurrentState.dispatch c (c.methods k) s none) w false w := by
        simpa only [Chart.methods, Chart.step, hk] using h
      rcases ConcurrentState.returns_dispatch.mp h' with ⟨-, hb⟩ | ⟨w₁, h₁, h₂⟩
      · cases hb
      · obtain rfl := anyM_eq (fun _ _ _ _ => ConcurrentState.tryTransition_false
          (pure_methods c k)) h₂
        exact ⟨k, h₁⟩

lemma idle_pseudo (hk : (c.kind s).isHistory = true) (hq : PseudoState.restored c s w = some q)
    (h : c.Idle s w) : c.Idle q w := by
  obtain ⟨k, h⟩ := h
  cases k with
  | zero => exact absurd h (by simp [Chart.methods])
  | succ k =>
      have h' : Returns (PseudoState.dispatch c (c.methods k) s none) w false w := by
        cases hs : c.kind s <;> simp only [hs, StateKind.isHistory] at hk
        · cases hk
        · cases hk
        · cases hk
        · cases hk
        · cases hk
        · simpa only [Chart.methods, Chart.step, hs] using h
      rcases PseudoState.returns_dispatch.mp h' with ⟨q', -, hq', h'⟩ | ⟨-, hb, -⟩ | ⟨hn, -⟩
      · obtain rfl := Option.some.inj (hq'.symm.trans hq)
        exact ⟨k, h'⟩
      · cases hb
      · rcases hn with ⟨-, hn⟩ | ⟨hn, -⟩
        · rw [hn] at hq
          cases hq
        · rw [hk] at hn
          cases hn

/-- The regions of an idle state are idle until one of them does something. -/
lemma idle_regions {l : List S} (h : Returns
      (ConcurrentState.dispatchRegions (c.methods k) n none l) w false w)
    (hd : ∀ r w', c.Idle r w → Returns (v.dispatch r e) w false w' → w' = w)
    (hx : Returns (ConcurrentState.dispatchRegions v n e l) w false w') : w' = w := by
  induction l with
  | nil => exact (returns_pure.mp hx).2
  | cons r l ih =>
      obtain ⟨b₁, w₁, b₂, h₁, h₂, hb⟩ := ConcurrentState.returns_dispatchRegions_cons.mp h
      obtain ⟨rfl, rfl⟩ : b₁ = false ∧ b₂ = false := by simpa using hb.symm
      obtain ⟨b₃, w₃, b₄, h₃, h₄, hb⟩ := ConcurrentState.returns_dispatchRegions_cons.mp hx
      obtain ⟨rfl, rfl⟩ : b₃ = false ∧ b₄ = false := by simpa using hb.symm
      have hblocked : ∀ q w w', Returns ((c.methods k).dispatch q none) w false w' → w.Blocked w' :=
        fun _ _ _ => dispatch_false k
      have hle₂ : w₁.slips ≤ w.slips := by
        rcases ConcurrentState.dispatchRegions_false hblocked h₂ with rfl | hlt
        · exact le_rfl
        · exact hlt.le
      rcases ConcurrentState.returns_dispatchRegion.mp h₁ with ⟨hi, -, rfl⟩ | ⟨ha, h₁⟩
      · rcases ConcurrentState.returns_dispatchRegion.mp h₃ with ⟨-, -, rfl⟩ | ⟨ha, -⟩
        · exact ih h₂ h₄
        · rw [hi] at ha
          cases ha
      · obtain rfl := (dispatch_false k h₁).eq hle₂
        rcases ConcurrentState.returns_dispatchRegion.mp h₃ with ⟨hi, -⟩ | ⟨-, h₃⟩
        · rw [ha] at hi
          cases hi
        · obtain rfl := hd r w₃ ⟨k, h₁⟩ h₃
          exact ih h₂ h₄

/-- An event that fires nothing in an idle state changes nothing there. -/
lemma eq_of_idle (k : ℕ) (hi : c.Idle s w)
    (h : Returns ((c.screened Chart.honest k).dispatch s e) w false w') : w' = w := by
  induction k generalizing s w w' with
  | zero => exact absurd h (by simp [Chart.screened, Chart.methods])
  | succ k ih =>
      have hp := Chart.pure_screened c Chart.honest k
      have ht := (told_screened (c := c) (k + 1)).1 s e w false w' h
      have h' := (returns_screen.mp h).1
      cases hk : c.kind s <;> simp only [Chart.step, hk] at h'
      case hierarchicalState =>
        rcases HierarchicalState.returns_dispatch.mp h' with
          ⟨-, -, rfl⟩ | ⟨ha, w₁, w₂, handled, h₁, h₂, h₃⟩
        · rfl
        obtain ⟨hst, hidle⟩ := idle_hierarchical hk hi ha
        obtain rfl : w₁ = w := by
          rcases HierarchicalState.returns_enterStart.mp h₁ with ⟨hw, -⟩ | ⟨st, hn, hs, -⟩
          · exact hw
          · rw [hst hn] at hs
            cases hs
        have hcur : handled = false → w₂ = w₁ := by
          rintro rfl
          rcases HierarchicalState.returns_dispatchCurrent.mp h₂ with ⟨-, -, hw⟩ | ⟨q, hq, h₂⟩
          · exact hw
          · exact ih (hidle q hq) h₂
        rcases h₃ with ⟨-, hb, rfl⟩ | ⟨-, -, -, hb, -⟩ | ⟨-, -, h₃⟩
        · exact hcur hb.symm
        · cases hb
        · obtain rfl := anyM_eq (fun _ _ _ _ => HierarchicalState.tryTransition_false hp) h₃
          cases handled with
          | false => exact hcur rfl
          | true =>
              -- what the substate has fired would have been reported
              have hlt : w₁.firings < w₂.firings := by
                rcases HierarchicalState.returns_dispatchCurrent.mp h₂ with ⟨-, hb, -⟩ | ⟨q, -, h₂⟩
                · cases hb
                · exact ((told_screened k).1 _ _ _ _ _ h₂).iff.mp rfl
              have hno : ¬ w₁.firings < w₂.firings := by
                simpa [HierarchicalState.offered, World.firings] using ht.iff
              exact absurd hlt hno
      case concurrentState =>
        obtain ⟨j, hj⟩ := idle_concurrent hk hi
        rcases ConcurrentState.returns_dispatch.mp h' with ⟨-, hb⟩ | ⟨w₁, h₁, h₂⟩
        · cases hb
        · obtain rfl := anyM_eq (fun _ _ _ _ => ConcurrentState.tryTransition_false hp) h₂
          exact idle_regions hj (fun r w' hr hd => ih hr hd) h₁
      case pseudoState =>
        rcases PseudoState.returns_dispatch.mp h' with ⟨q, hh, hq, h'⟩ | ⟨-, hb, -⟩ | ⟨-, h'⟩
        · exact ih (idle_pseudo hh hq hi) h'
        · cases hb
        · exact State.dispatch_false hp h'
      all_goals exact State.dispatch_false hp h'

/-- A pass with a current state is a dispatch of that state. -/
lemma Statechart.returned_pass (hs : w.data.current c.root = some s) :
    Returned (fun n => Statechart.pass c n e) w b w'
      ↔ Returned (fun n => (c.methods n).dispatch s e) w b w' :=
  exists_congr fun n => by simp [Statechart.returns_pass, hs]

/-- A quiescent configuration with a current state is idle. -/
lemma Statechart.Quiescent.idle (h : Statechart.Quiescent c w)
    (hs : w.data.current c.root = some s) : c.Idle s w := by
  obtain ⟨w', h, htrace, -⟩ := h
  rcases Statechart.returned_dispatch.mp h with ⟨hn, -⟩ | ⟨-, rc, w₁, hp, ⟨-, ho⟩ | ⟨hr, ho⟩⟩
  · rw [Metadata.current, Option.isSome_eq_false_iff.mp hn |> Option.isNone_iff_eq_none.mp] at hs
    cases hs
  · cases ho
  · obtain ⟨j, -, w₂, hrep, hlast⟩ := hr
    obtain rfl : false = rc := by simpa using ho
    have hext : w₁.Extends w' := hrep.extends.trans (hlast.rel (compatible_extends c))
    have hle : w₁.slips ≤ w.slips := by
      have := hext.slips_le
      have heq : w'.slips = w.slips := by rw [World.slips, htrace, World.slips]
      omega
    obtain rfl := (Statechart.Pass.blocked hp).eq hle
    exact (Statechart.returned_pass hs).mp hp

/-- **Results.** A dispatch and all the dispatches within it report that a transition has fired
exactly when one has, and the event is then discarded without a trace if the configuration was
quiescent and the result is `false`, if and only if no event that a substate has handled is lost in
the own transitions of the enclosing state and no fork is dispatched in vain. -/
theorem Chart.honest_iff :
    (c.Throughout Chart.honest s e w ∧ (w.data.current c.root = some s → Statechart.Quiescent c w →
      ∀ w', Returned (fun n => Statechart.dispatch c n e) w (.returned false) w' → w' = w))
    ↔ c.Throughout c.careful s e w := by
  have heq : c.Throughout Chart.honest s e w = c.Throughout c.careful s e w := by
    unfold Chart.Throughout
    simp only [screened_honest]
  rw [← heq, and_iff_left_iff_imp]
  rintro ⟨b, w₁, n, hn⟩ hcur hq w' h
  have hidle := hq.idle hcur
  rcases Statechart.returned_dispatch.mp h with ⟨-, -, hw⟩ | ⟨-, rc, w₂, hp, ⟨-, ho⟩ | ⟨hr, ho⟩⟩
  · exact hw
  · cases ho
  · obtain rfl : false = rc := by simpa using ho
    obtain ⟨j, -, w₃, hrep, hlast⟩ := hr
    have hrun : Returned (fun n => (c.methods n).dispatch s e) w b w₁ :=
      ⟨n, (Chart.screened_le c _ n).2.2.2 s e w b w₁ hn⟩
    obtain ⟨rfl, rfl⟩ := Returned.unique ((monotone_dispatch s e).comp (monotone_methods c)) hrun
      ((Statechart.returned_pass hcur).mp hp)
    obtain rfl := eq_of_idle n hidle hn
    -- and the completion loop stops at once
    have hstop : Statechart.Pass c w₁ false w₁ := (Statechart.returned_pass hcur).mpr hidle
    have hnone : Statechart.Reports c 0 w₁ w₁ := rfl
    exact (hrep.stop_unique hlast hnone hstop).2.2

/-! ### A final state that is not reported -/

namespace Unreported

/-- A hierarchical state `a` with the states `b`, `d` and the final state `f`. -/
inductive St where
  | chart | s | a | sa | b | d | f
  deriving DecidableEq

instance : Fintype St := ⟨{.chart, .s, .a, .sa, .b, .d, .f}, fun x => by cases x <;> decide⟩

inductive Tr where
  | begin | beginA | finish | move
  deriving DecidableEq

instance : Fintype Tr := ⟨{.begin, .beginA, .finish, .move}, fun t => by cases t <;> decide⟩

/-- In `b`, the event `stop` leads to the final state and `move` to `d`. -/
def chart : Chart St Tr Event Unit where
  name := "unreported"
  root := .chart
  ownedStates := [.s, .a, .sa, .b, .d, .f]
  ownedTransitions := [.begin, .beginA, .finish, .move]
  kind
    | .chart => .statechart
    | .s | .sa => .pseudoState .start
    | .a => .hierarchicalState
    | .f => .finalState
    | _ => .state
  context
    | .chart => none
    | .s | .a => some .chart
    | _ => some .a
  depth
    | .chart => 0
    | .s | .a => 1
    | _ => 2
  source
    | .begin => .s
    | .beginA => .sa
    | .finish | .move => .b
  target
    | .begin => .a
    | .beginA => .b
    | .finish => .f
    | .move => .d
  event
    | .finish => some (.event "stop")
    | .move => some (.event "move")
    | _ => none
  equals ev e _ _ := ev.equals e
  timeout := Event.timeout

set_option maxRecDepth 4000 in
/-- **A firing that is not reported.** In a quiescent configuration, `stop` fires the transition
into the final state of `a`, and both `a` and the chart report that nothing has fired. -/
theorem not_honest : ∃ w w' w'', Statechart.Reachable chart w ∧ Statechart.Quiescent chart w
    ∧ w.data.current .chart = some .a
    ∧ Returned (fun n => (chart.methods n).dispatch .a (some (.event "stop"))) w false w'
    ∧ w.firings < w'.firings
    ∧ Returned (fun n => Statechart.dispatch chart n (some (.event "stop"))) w (.returned false) w''
    ∧ w.data.current .a = some .b ∧ w''.data.current .a = some .f := by
  have hstart : Returned (fun n => Statechart.calls chart n [.start ()]) (World.fresh ()) ⟨⟩ _ :=
    ⟨20, rfl⟩
  exact ⟨_, _, _, ⟨(), _, hstart⟩, ⟨_, ⟨20, rfl⟩, rfl, fun _ => ⟨rfl, rfl⟩⟩, rfl, ⟨20, rfl⟩,
    by decide, ⟨20, rfl⟩, rfl, rfl⟩

end Unreported

end CppStatecharts
