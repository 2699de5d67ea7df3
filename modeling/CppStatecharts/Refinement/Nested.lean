import CppStatecharts.Refinement.Firing

/-!
Nested charts refine the automaton on the branches.

* `World.Depicts`: a world that the automaton describes.
* `Branch.dispatch_depicts`: the event climbs the branch.
* `Statechart.Serves`: a sequence of visits with their outcomes.
* `Branch.serve_of_serves`: a nested chart does what the automaton does.
* `Errand`: a hierarchical state that is left when it is completed.
-/

namespace CppStatecharts

variable {S T E P : Type} [DecidableEq S]

/-- The world is the one the automaton is in. -/
structure World.Depicts (c : Chart S T E P) (w : World S T E P) (k : Reference.Config S T P) :
    Prop where
  param : w.param = k.param
  performed : Obs.performed w.trace = k.actions
  running : ∀ q, k.current = some q → w.data.untimed = Branch.shape c q
  idle : k.current = none → w.data = .reset

section

variable {c : Chart S T E P} {w : World S T E P} {k : Reference.Config S T P} {q : S}

lemma World.Depicts.shows (h : w.Depicts c k) (hq : k.current = some q) :
    w.Shows (Branch.shape c q) k :=
  ⟨h.running q hq, h.param, h.performed⟩

lemma World.Depicts.of_shows (h : w.Shows (Branch.shape c q) k) (hq : k.current = some q) :
    w.Depicts c k := by
  refine ⟨h.param, h.performed, fun x hx => ?_, fun hnone => ?_⟩
  · exact Option.some.inj (hq.symm.trans hx) ▸ h.data
  · rw [hq] at hnone
    cases hnone

/-- The state of the automaton is the innermost active one. -/
lemma World.Depicts.isActive_iff (h : w.Depicts c k) (x : S) :
    w.data.isActive x = true ↔ ∃ q, k.current = some q ∧ c.Below q x := by
  cases hq : k.current with
  | none => simp [h.idle hq]
  | some q => simp [(h.shows hq).isActive, Branch.isActive_shape]

/-- All pointers lead to it. -/
lemma World.Depicts.current_iff (h : w.Depicts c k) (x y : S) : w.data.current x = some y
    ↔ c.context y = some x ∧ ∃ q, k.current = some q ∧ c.Below q y := by
  cases hq : k.current with
  | none => simp [h.idle hq]
  | some q => simp [(h.shows hq).current, Branch.current_shape_iff]

lemma World.Depicts.log (h : w.Depicts c k) {o : Obs S T} (ho : o.isAction = false) :
    (w.log o).Depicts c k :=
  ⟨h.param, by simpa [Obs.performed, ho] using h.performed, h.running, h.idle⟩

end

namespace Branch

open Reference

variable {c : Chart S T E P} {p q s x y m d : S} {l : List S} {t : T}

/-! ### Dispatching -/

section Dispatching

variable {w w₁ w' : World S T E P} {k : Config S T P} {r : Bool × Config S T P} {u : PUnit}
variable {b : Bool} {n : ℕ} {e : Option E} {q₀ st : S}

lemma isFinal_iff (hq : c.Below q s) :
    c.isFinal ((shape c q).current s) = true ↔ Completed c q s := by
  by_cases hqs : q = s
  · subst hqs
    rw [current_shape_self]
    exact ⟨fun h => absurd h Bool.false_ne_true,
      fun h => absurd rfl (Forest.ne_of_parent (F := c.forest) h.2)⟩
  · obtain ⟨y, hy, hqy⟩ := Forest.exists_child_of_below hq hqs
    rw [current_shape hqy hy, Chart.isFinal, decide_eq_true_eq]
    constructor
    · intro hk
      obtain rfl := Chart.eq_of_below_of_not_isContext (by rw [hk]; rfl) hqy
      exact ⟨hk, hy⟩
    · intro hq'
      obtain rfl := Forest.eq_of_below_children hy hq'.2 hqy (Forest.below_refl q)
      exact hq'.1

/-- The transitions of `s` are tried in turn. -/
lemma offer_depicts (hn : c.Nested) (hc : c.ActionsKeepData) (hu : c.Unaware) (h : w.Depicts c k)
    (hq : k.current = some q) (hqs : c.Below q s) {f : T → Comp (World S T E P) Bool}
    (hf : ∀ t ∈ c.transitions s, ∀ b w', Returns (f t) w b w' →
      (b = true ↔ Enabled c e q s k.param t) ∧ (b = false → w' = w)
        ∧ (b = true → Returns (Transition.fire c (c.methods n) t) w ⟨⟩ w'))
    (ha : Returns ((c.transitions s).anyM f) w b w') :
    b = (offer c e q s k).1 ∧ w'.Depicts c (offer c e q s k).2 := by
  classical
  have hstep : ∀ t ∈ c.transitions s, ∀ b w', Returns (f t) w b w' →
      b = decide (Enabled c e q s k.param t) ∧ (b = false → w' = w) := by
    intro t ht b w' hx
    obtain ⟨hiff, hfalse, -⟩ := hf t ht b w' hx
    exact ⟨by rw [Bool.eq_iff_iff, hiff, decide_eq_true_eq], hfalse⟩
  unfold offer
  rcases anyM_find? hstep ha with ⟨hnone, rfl, rfl⟩ | ⟨t, ht, hsome, rfl, hx⟩
  · rw [hnone]
    exact ⟨rfl, h⟩
  · obtain ⟨hown, hsrc⟩ := Chart.mem_transitions.mp ht
    obtain ⟨q', hshow, hcur⟩ := fire_shape hn hc hu (h.shows hq) hown (hsrc ▸ hqs)
      ((hf t ht true w' hx).2.2 rfl)
    rw [hsome]
    exact ⟨rfl, World.Depicts.of_shows hshow (hcur hq)⟩

/-- What trying a transition comes to. -/
lemma execute_spec (hn : c.Nested) (hu : c.Unaware) (h : w.Shows (shape c q) k)
    (ht : t ∈ c.ownedTransitions)
    (hs : c.kind s = .hierarchicalState → c.event t = none → Completed c q s)
    (hx : Returns (Transition.execute c (c.methods n) t e) w b w') :
    (b = true ↔ Enabled c e q s k.param t) ∧ (b = false → w' = w)
      ∧ (b = true → Returns (Transition.fire c (c.methods n) t) w ⟨⟩ w') := by
  obtain ⟨hiff, hfalse⟩ := execute_iff hn hu h ht hx
  refine ⟨hiff.trans ⟨fun h => ⟨hs, h⟩, And.right⟩, hfalse, ?_⟩
  rintro rfl
  rcases (Transition.returns_execute (pure_methods c n)).mp hx with ⟨-, -, -, hf⟩ | ⟨hb, -⟩
  · exact hf
  · cases hb

/-- A plain state or a pseudo-state just tries its transitions. -/
lemma returns_dispatch (hn : c.Nested) (hs : c.kind s ≠ .hierarchicalState)
    (h : Returns ((c.methods (n + 1)).dispatch s e) w b w') :
    Returns (State.dispatch c (c.methods n) s e) w b w' := by
  have hconc := hn.noConcurrent s
  have hpseudo : Returns (PseudoState.dispatch c (c.methods n) s e) w b w' →
      Returns (State.dispatch c (c.methods n) s e) w b w' := fun h => by
    rcases PseudoState.returns_dispatch.mp h with ⟨q, hh, -⟩ | ⟨hf, -⟩ | ⟨-, h⟩
    · rw [hn.noHistory s] at hh
      cases hh
    · exact absurd hf (hn.noFork s)
    · exact h
  cases hk : c.kind s <;> simp_all [Chart.methods, Chart.step]

lemma begin_of_ne (hk : c.kind q ≠ .hierarchicalState) (hq : k.current = some q) :
    begin c k = k := by
  simp [begin, hq, hk]

/-- A hierarchical state without a substate enters its start state. -/
lemma enterStart_depicts (hn : c.Nested) (hc : c.ActionsKeepData) (hu : c.Unaware)
    (h : w.Depicts c k) (hq : k.current = some q) (hk : c.kind q = .hierarchicalState)
    (hs : Returns (HierarchicalState.enterStart c (c.methods n) q) w u w') :
    w'.Depicts c (begin c k) := by
  have hshow := h.shows hq
  have hcur : w.data.current q = none := hshow.current.trans current_shape_self
  rcases HierarchicalState.returns_enterStart.mp hs with ⟨rfl, hnone⟩ | ⟨st, -, hst, hrest⟩
  · simpa [begin, hq, hk, hnone hcur] using h
  · obtain ⟨hkst, hctx⟩ := Chart.startState_eq_some hst
    have hshape : (c.activateData st w).Shows (shape c st) k := by
      have hact := hshow.activateData (c := c) (s := st)
      rwa [hctx, ← shape_of_context hctx] at hact
    have hst' : (c.activateData st w).data.current q = some st :=
      hshape.current.trans (current_shape (Forest.below_refl st) hctx)
    rcases hrest with ⟨hno, -⟩ | ⟨x, b, hx, ha⟩
    · rw [hst'] at hno
      cases hno
    obtain rfl := Option.some.inj (hst'.symm.trans hx)
    -- the start state is activated once more
    have hagain : (shape c st).activate (c.context st) st = shape c st := by
      rw [hctx, activate_again hctx]
    have hent := activate_shape hn hc hu hshape hagain
      (fun hp => by rw [hkst] at hp; cases hp) ha
    simp only [begin, hq, hk, hst, ↓reduceIte]
    exact World.Depicts.of_shows ⟨hent.data, hent.param, hent.performed⟩ rfl

/-- The innermost state stays where it is, or its start state takes its place. -/
lemma begin_cases (hq : k.current = some q) (hq₀ : (begin c k).current = some q₀) :
    q₀ = q ∧ begin c k = k
      ∨ c.kind q = .hierarchicalState ∧ c.context q₀ = some q
        ∧ c.kind q₀ = .pseudoState .start := by
  unfold begin at hq₀ ⊢
  rw [hq] at hq₀ ⊢
  dsimp only at hq₀ ⊢
  split at hq₀
  · rename_i hk
    rw [if_pos hk]
    cases hst : c.startState q with
    | none =>
        rw [hst] at hq₀
        exact Or.inl ⟨Option.some.inj (hq₀.symm.trans hq), rfl⟩
    | some st =>
        rw [hst] at hq₀
        obtain rfl := Option.some.inj hq₀
        obtain ⟨h₁, h₂⟩ := Chart.startState_eq_some hst
        exact Or.inr ⟨hk, h₂, h₁⟩
  · rename_i hk
    rw [if_neg hk]
    exact Or.inl ⟨Option.some.inj (hq₀.symm.trans hq), rfl⟩

lemma isSome_fire (hq : k.current.isSome = true) : (fire c q t k).current.isSome = true := by
  unfold fire
  split
  · rwa [current_act]
  · rfl

lemma isSome_ask (h : r.2.current.isSome = true) : (ask c e r s).2.current.isSome = true := by
  unfold ask
  split
  · exact h
  · split
    · exact h
    · unfold offer
      split
      · exact h
      · exact isSome_fire h

lemma isSome_foldl (h : r.2.current.isSome = true) :
    (l.foldl (ask c e) r).2.current.isSome = true := by
  induction l generalizing r with
  | nil => exact h
  | cons s l ih => exact ih (isSome_ask h)

/-- The end of `HierarchicalState::dispatch`, after the substate. -/
lemma ask_depicts (hn : c.Nested) (hc : c.ActionsKeepData) (hu : c.Unaware)
    (hk : c.kind s = .hierarchicalState) (h : w.Depicts c r.2) (hq : r.2.current = some q)
    (hrest : w.data.isActive s = false ∧ b = r.1 ∧ w' = w
      ∨ w.data.isActive s = true ∧ r.1 = true ∧ c.isFinal (w.data.current s) = false ∧ b = true
        ∧ w' = w
      ∨ w.data.isActive s = true ∧ (r.1 = true → c.isFinal (w.data.current s) = true)
        ∧ Returns ((c.transitions s).anyM (HierarchicalState.tryTransition c (c.methods n)
            (c.isFinal (w.data.current s)) e)) (HierarchicalState.offered s e r.1 w) b w') :
    b = (ask c e r s).1 ∧ w'.Depicts c (ask c e r s).2 := by
  have hshow := h.shows hq
  have hact : w.data.isActive s = true ↔ c.Below q s := by
    rw [hshow.isActive, isActive_shape, decide_eq_true_eq]
  have hfin : c.Below q s → (c.isFinal (w.data.current s) = true ↔ Completed c q s) := fun hqs => by
    rw [hshow.current]
    exact isFinal_iff hqs
  unfold ask
  rw [hq]
  dsimp only
  rcases hrest with ⟨hs, rfl, rfl⟩ | ⟨hs, hr, hf, rfl, rfl⟩ | ⟨hs, hf, ha⟩
  · have hqs : ¬ c.Below q s := fun hqs => by rw [hact.mpr hqs] at hs; cases hs
    rw [if_pos (Or.inl hqs)]
    exact ⟨rfl, h⟩
  · have hno : ¬ Completed c q s := fun hco => by
      rw [(hfin (hact.mp hs)).mpr hco] at hf
      cases hf
    rw [if_pos (Or.inr ⟨hr, hno⟩)]
    exact ⟨hr.symm, h⟩
  · have hqs := hact.mp hs
    have hco : ¬ (¬ c.Below q s ∨ r.1 = true ∧ ¬ Completed c q s) := by
      rintro (hno | ⟨hr, hno⟩)
      · exact hno hqs
      · exact hno ((hfin hqs).mp (hf hr))
    rw [if_neg hco]
    have hoff : (HierarchicalState.offered s e r.1 w).Depicts c r.2 := by
      unfold HierarchicalState.offered
      split
      · exact h.log rfl
      · exact h
    refine offer_depicts (n := n) hn hc hu hoff hq hqs (fun t ht b w' hx => ?_) ha
    have hown := (Chart.mem_transitions.mp ht).1
    rcases (HierarchicalState.returns_tryTransition (pure_methods c n)).mp hx with
      ⟨⟨hev, hf'⟩, rfl, rfl⟩ | ⟨hev, hx⟩
    · refine ⟨⟨fun h => absurd h Bool.false_ne_true, fun hen => ?_⟩, fun _ => rfl, by simp⟩
      rw [(hfin hqs).mpr (hen.1 hk hev)] at hf'
      cases hf'
    · exact execute_spec hn hu (hoff.shows hq) hown (fun _ h => (hfin hqs).mp (hev h)) hx

/-- **The event climbs the branch.** What the recursion through the substates does to a state of the
branch is what the states from the innermost one up to it do in turn. -/
theorem dispatch_depicts (hn : c.Nested) (hc : c.ActionsKeepData) (hu : c.Unaware)
    (h : w.Depicts c k) (hq : k.current = some q) (hqs : c.Below q s) (hs : s ≠ c.root)
    (hq₀ : (begin c k).current = some q₀) (hl : c.forest.Descends s l q₀)
    (hd : Returns ((c.methods n).dispatch s e) w b w') :
    b = ((s :: l).reverse.foldl (ask c e) (false, begin c k)).1
      ∧ w'.Depicts c ((s :: l).reverse.foldl (ask c e) (false, begin c k)).2 := by
  induction n generalizing w b w' k q s l with
  | zero => exact absurd hd (by simp [Chart.methods])
  | succ n ih =>
      rw [List.reverse_cons, List.foldl_append, List.foldl_cons, List.foldl_nil]
      by_cases hk : c.kind s = .hierarchicalState
      swap
      · -- a state without substates is the innermost one
        have hctx : (c.kind s).isContext = false := by
          have := hn.noConcurrent s
          have := fun h => hs ((c.kind_statechart s).mp h)
          cases hks : c.kind s <;> simp_all [StateKind.isContext]
        obtain rfl := Chart.eq_of_below_of_not_isContext hctx hqs
        rw [begin_of_ne hk hq] at hq₀ ⊢
        obtain rfl := Option.some.inj (hq.symm.trans hq₀)
        obtain rfl : l = [] := hl.unique (show c.forest.Descends q [] q from rfl)
        have hask : ask c e (false, k) q = offer c e q q k := by
          simp [ask, hq]
        rw [List.reverse_nil, List.foldl_nil, hask]
        refine offer_depicts (n := n) hn hc hu h hq hqs (fun t ht b w' hx => ?_)
          (returns_dispatch hn hk hd)
        exact execute_spec hn hu (h.shows hq) (Chart.mem_transitions.mp ht).1
          (fun hk' => absurd hk' hk) hx
      simp only [Chart.methods, Chart.step, hk] at hd
      have hshow := h.shows hq
      have hact : w.data.isActive s = true := by
        rw [hshow.isActive, isActive_shape]
        exact decide_eq_true hqs
      rcases HierarchicalState.returns_dispatch.mp hd with ⟨hno, -⟩
        | ⟨-, w₁, w₂, handled, h₁, h₂, h₃⟩
      · rw [hact] at hno
        cases hno
      have hsub : handled = (l.reverse.foldl (ask c e) (false, begin c k)).1
          ∧ w₂.Depicts c (l.reverse.foldl (ask c e) (false, begin c k)).2 := by
        by_cases hqs' : q = s
        · subst hqs'
          have hw₁ := enterStart_depicts hn hc hu h hq hk h₁
          have hcur : w₁.data.current q = (shape c q₀).current q := (hw₁.shows hq₀).current
          rcases begin_cases hq hq₀ with ⟨rfl, -⟩ | ⟨-, hctx, hkst⟩
          · -- there is no start state
            obtain rfl : l = [] := hl.unique (show c.forest.Descends q₀ [] q₀ from rfl)
            rcases HierarchicalState.returns_dispatchCurrent.mp h₂ with ⟨-, rfl, rfl⟩ | ⟨y, hy, -⟩
            · exact ⟨rfl, hw₁⟩
            · rw [hcur, current_shape_self] at hy
              cases hy
          · obtain rfl : l = [q₀] := hl.unique ⟨hctx, rfl⟩
            rcases HierarchicalState.returns_dispatchCurrent.mp h₂ with ⟨hno, -⟩ | ⟨y, hy, hd⟩
            · rw [hcur, current_shape (Forest.below_refl q₀) hctx] at hno
              cases hno
            · rw [hcur, current_shape (Forest.below_refl q₀) hctx] at hy
              obtain rfl := Option.some.inj hy
              have hkst' : c.kind q₀ ≠ .hierarchicalState := by rw [hkst]; decide
              have hbegin := begin_of_ne hkst' hq₀
              have hsub := ih hw₁ hq₀ (Forest.below_refl q₀) (Chart.ne_root_of_context hctx)
                (by rw [hbegin]; exact hq₀) (show c.forest.Descends q₀ [] q₀ from rfl) hd
              rwa [hbegin] at hsub
        · obtain ⟨y, hy, hqy⟩ := Forest.exists_child_of_below hqs hqs'
          have hcur : w.data.current s = some y := hshow.current.trans (current_shape hqy hy)
          obtain rfl : w₁ = w := by
            rcases HierarchicalState.returns_enterStart.mp h₁ with ⟨rfl, -⟩ | ⟨st, hno, -⟩
            · rfl
            · rw [hcur] at hno
              cases hno
          have hq₀y : c.Below q₀ y := by
            rcases begin_cases hq hq₀ with ⟨rfl, -⟩ | ⟨-, hctx, -⟩
            · exact hqy
            · exact Forest.below_trans (Forest.below_of_parent (F := c.forest) hctx) hqy
          obtain ⟨l', hl'⟩ := Forest.exists_descends hq₀y
          obtain rfl : l = y :: l' := hl.unique ⟨hy, hl'⟩
          rcases HierarchicalState.returns_dispatchCurrent.mp h₂ with ⟨hno, -⟩ | ⟨y', hy', hd⟩
          · rw [hcur] at hno
            cases hno
          · obtain rfl := Option.some.inj (hcur.symm.trans hy')
            exact ih h hq hqy (Chart.ne_root_of_context hy) hq₀ hl' hd
      obtain ⟨rfl, hsub⟩ := hsub
      have hsome : (l.reverse.foldl (ask c e) (false, begin c k)).2.current.isSome = true :=
        isSome_foldl (by rw [hq₀]; rfl)
      obtain ⟨q₂, hq₂⟩ := Option.isSome_iff_exists.mp hsome
      exact ask_depicts hn hc hu hk hsub hq₂ h₃

omit [DecidableEq S] in
lemma kind_root : c.kind c.root ≠ .hierarchicalState := fun h => by
  have hroot := (c.kind_statechart c.root).mpr rfl
  rw [h] at hroot
  cases hroot

lemma isSome_begin (h : k.current.isSome = true) : (begin c k).current.isSome = true := by
  unfold begin
  split
  · exact h
  · split
    · split
      · exact h
      · rfl
    · exact h

lemma isSome_react (h : k.current.isSome = true) : (react c e k).2.current.isSome = true := by
  unfold react
  split
  · exact h
  · exact isSome_foldl (isSome_begin h)

/-- A pass offers the event to the branch. -/
lemma pass_depicts (hn : c.Nested) (hc : c.ActionsKeepData) (hu : c.Unaware) (h : w.Depicts c k)
    (hk : k.current.isSome = true) (hp : Returns (Statechart.pass c n e) w b w') :
    b = (react c e k).1 ∧ w'.Depicts c (react c e k).2 := by
  obtain ⟨q, hq⟩ := Option.isSome_iff_exists.mp hk
  obtain ⟨q₀, hq₀⟩ := Option.isSome_iff_exists.mp (isSome_begin (c := c) hk)
  have hreact : react c e k = (c.path q₀).reverse.foldl (ask c e) (false, begin c k) := by
    simp [react, hq₀]
  rw [hreact]
  simp only [Statechart.pass, returns_bind, returns_peek, (h.shows hq).current] at hp
  obtain ⟨_, w₁, ⟨rfl, hw⟩, hp⟩ := hp
  subst w₁
  by_cases hroot : q = c.root
  · -- nothing is active inside the chart, and the chart itself has no transitions
    subst hroot
    rw [current_shape_self] at hp
    obtain ⟨rfl, rfl⟩ := returns_pure.mp hp
    rw [begin_of_ne kind_root hq] at hq₀ ⊢
    obtain rfl := Option.some.inj (hq.symm.trans hq₀)
    have hnil : c.transitions c.root = [] := List.eq_nil_iff_forall_not_mem.mpr fun t ht => by
      obtain ⟨hown, hsrc⟩ := Chart.mem_transitions.mp ht
      exact hn.source t hown hsrc
    have hask : ask c e (false, k) c.root = (false, k) := by
      simp [ask, offer, hq, hnil]
    rw [Chart.path_root, List.reverse_singleton, List.foldl_cons, List.foldl_nil, hask]
    exact ⟨rfl, h⟩
  · obtain ⟨s, hs, hqs⟩ := Forest.exists_child_of_below (Chart.below_root q) hroot
    rw [current_shape hqs hs] at hp
    have hq₀s : c.Below q₀ s := by
      rcases begin_cases hq hq₀ with ⟨rfl, -⟩ | ⟨-, hctx, -⟩
      · exact hqs
      · exact Forest.below_trans (Forest.below_of_parent (F := c.forest) hctx) hqs
    have hq₀r : q₀ ≠ c.root := by
      rintro rfl
      exact Forest.not_below_of_parent (F := c.forest) hs hq₀s
    obtain ⟨l, hl⟩ := Forest.exists_descends hq₀s
    have hpath : c.path q₀ = s :: l :=
      (Chart.descends_path hq₀r).unique (show c.forest.Descends c.root (s :: l) q₀ from ⟨hs, hl⟩)
    rw [hpath]
    exact dispatch_depicts hn hc hu h hq hqs (Chart.ne_root_of_context hs) hq₀ hl hp

lemma completionLoop_depicts (hn : c.Nested) (hc : c.ActionsKeepData) (hu : c.Unaware)
    {fuel : ℕ} (h : w.Depicts c k) (hk : k.current.isSome = true)
    (hl : Returns (Statechart.completionLoop c n fuel) w b w') :
    b = (settle c fuel k).1 ∧ w'.Depicts c (settle c fuel k).2 := by
  induction fuel generalizing w k with
  | zero =>
      obtain ⟨rfl, rfl⟩ := returns_pure.mp hl
      exact ⟨rfl, h⟩
  | succ fuel ih =>
      obtain ⟨b₁, w₁, hp, hrest⟩ := returns_bind.mp hl
      obtain ⟨rfl, h₁⟩ := pass_depicts hn hc hu h hk hp
      rw [settle]
      cases hr : (react c none k).1 with
      | false =>
          rw [hr] at hrest
          obtain ⟨rfl, rfl⟩ := returns_pure.mp hrest
          exact ⟨rfl, h₁⟩
      | true =>
          rw [hr] at hrest
          exact ih h₁ (isSome_react hk) hrest

lemma dispatch_spec (hn : c.Nested) (hc : c.ActionsKeepData) (hu : c.Unaware) (h : w.Depicts c k)
    {o : Outcome} (hd : Returns (Statechart.dispatch c n e) w o w') :
    o = (dispatch c e k).1 ∧ w'.Depicts c (dispatch c e k).2 := by
  unfold Statechart.dispatch at hd
  obtain ⟨_, w₀, hpeek, hd⟩ := returns_bind.mp hd
  obtain ⟨rfl, hw⟩ := returns_peek.mp hpeek
  subst w₀
  unfold dispatch
  cases hq : k.current with
  | none =>
      have hdata : (w.data.getData c.root).isSome = false := by rw [h.idle hq]; rfl
      rw [hdata] at hd
      obtain ⟨rfl, rfl⟩ := returns_pure.mp hd
      exact ⟨rfl, h⟩
  | some q =>
      have hk : k.current.isSome = true := by rw [hq]; rfl
      have hact : w.data.isActive c.root = true := by
        rw [(h.shows hq).isActive, isActive_shape]
        exact decide_eq_true (Chart.below_root q)
      obtain ⟨d, hdata, -⟩ := Metadata.exists_of_isActive hact
      rw [hdata] at hd
      obtain ⟨b, w₁, hp, hd⟩ := returns_bind.mp hd
      obtain ⟨rfl, h₁⟩ := pass_depicts hn hc hu h hk hp
      obtain ⟨thrown, w₂, hl, hd⟩ := returns_bind.mp hd
      obtain ⟨rfl, h₂⟩ := completionLoop_depicts hn hc hu h₁ (isSome_react hk) hl
      rw [Option.isSome_some, if_pos rfl]
      dsimp only
      rcases returns_ite.mp hd with ⟨ht, hd⟩ | ⟨ht, hd⟩
      · obtain ⟨rfl, rfl⟩ := returns_pure.mp hd
        exact ⟨(if_pos ht).symm, h₂⟩
      · obtain ⟨rfl, rfl⟩ := returns_pure.mp hd
        exact ⟨(if_neg ht).symm, h₂⟩

/-- The chart is entered. -/
lemma enter_depicts (h : w.Depicts c k) : (Statechart.enter c w).Depicts c
    { k with current := some ((c.startState c.root).getD c.root) } := by
  have hroot := (c.context_root c.root).mpr rfl
  have hshow : (c.activateData c.root ((w.onData fun _ => .reset).log .reset)).Shows
      (shape c c.root) k := by
    refine ⟨?_, h.param, h.performed⟩
    rw [← untimed_shape, shape_root, data_activateData, hroot]
    rfl
  unfold Statechart.enter
  cases hst : c.startState c.root with
  | none => exact World.Depicts.of_shows ⟨hshow.data, hshow.param, hshow.performed⟩ rfl
  | some st =>
      have hctx := (Chart.startState_eq_some hst).2
      have hin := hshow.activateData (c := c) (s := st)
      rw [hctx, ← shape_of_context hctx] at hin
      exact World.Depicts.of_shows ⟨hin.data, hin.param, hin.performed⟩ rfl

/-- The path to the state is entered, when the chart is not running. -/
lemma restoreState_depicts (hn : c.Nested) (hc : c.ActionsKeepData) (hu : c.Unaware)
    (h : w.Depicts c k) (hr : Returns (Statechart.restoreState c n s) w b w') :
    b = !k.current.isSome ∧ w'.Depicts c (if k.current.isSome then k else
      { (Statechart.restorePath c s).foldl (enter c) k with current := some s }) := by
  cases hq : k.current with
  | some q =>
      have hact : w.data.isActive c.root = true := by
        rw [(h.shows hq).isActive, isActive_shape]
        exact decide_eq_true (Chart.below_root q)
      rcases Statechart.returns_restoreState.mp hr with ⟨-, rfl, rfl⟩ | ⟨hno, -⟩
      · exact ⟨rfl, h⟩
      · rw [hact] at hno
        cases hno
  | none =>
      have hact : w.data.isActive c.root = false := by rw [h.idle hq]; rfl
      rcases Statechart.returns_restoreState.mp hr with ⟨hno, -⟩ | ⟨-, rfl, hl'⟩
      · rw [hact] at hno
        cases hno
      refine ⟨rfl, ?_⟩
      obtain ⟨l, hl, hdesc⟩ := Statechart.restorePath_eq (c := c) s
      rw [hl] at hl' ⊢
      obtain ⟨b, w₁, h₁, h₂⟩ := Statechart.returns_activateAll_cons.mp hl'
      have hforget : (Statechart.forget w).Shows .reset k := ⟨rfl, h.param, h.performed⟩
      have hroot : (Metadata.reset : Metadata S).activate (c.context c.root) c.root
          = shape c c.root := by
        rw [shape_root, (c.context_root c.root).mpr rfl]
      have hshow := activate_shape hn hc hu hforget hroot (fun _ => rfl) h₁
      have hent := entries hn hc hu hshow hdesc h₂
      exact World.Depicts.of_shows ⟨hent.data, hent.param, hent.performed⟩ rfl

end Dispatching

end Branch

/-! ### Visits -/

namespace Statechart

variable (c : Chart S T E P)

def visit (n : ℕ) : Visit S E P → Comp (World S T E P) Outcome
  | .call a => call c n a
  | .restoreState s p => do
      modify fun w => { w with param := p }
      let b ← restoreState c n s
      return .returned b

/-- A sequence of visits with their outcomes. -/
def Serves : List (Visit S E P) → List Outcome → World S T E P → World S T E P → Prop
  | [], os, w, w' => os = [] ∧ w' = w
  | a :: l, os, w, w' => ∃ o os' w₁, os = o :: os' ∧ Returned (fun n => visit c n a) w o w₁
      ∧ Serves l os' w₁ w'

end Statechart

namespace Branch

open Reference

variable {c : Chart S T E P} {w w' : World S T E P} {k : Config S T P} {o : Outcome}
variable {l : List (Visit S E P)} {os : List Outcome}

lemma visit_depicts (hn : c.Nested) (hc : c.ActionsKeepData) (hu : c.Unaware) (h : w.Depicts c k)
    {a : Visit S E P} (ha : Returned (fun n => Statechart.visit c n a) w o w') :
    o = (visit c a k).1 ∧ w'.Depicts c (visit c a k).2 := by
  obtain ⟨n, ha⟩ := ha
  have hparam : ∀ p, World.Depicts c { w with param := p } { k with param := p } :=
    fun p => ⟨rfl, h.performed, h.running, h.idle⟩
  cases a with
  | call a =>
      cases a with
      | start p =>
          simp only [Statechart.visit, Statechart.call, Statechart.start, returns_bind,
            returns_modify, exists_punit, exists_eq_left] at ha
          exact dispatch_spec hn hc hu (enter_depicts (hparam p)) ha
      | dispatch e p =>
          simp only [Statechart.visit, Statechart.call, returns_bind, returns_modify, exists_punit,
            exists_eq_left] at ha
          exact dispatch_spec hn hc hu (hparam p) ha
  | restoreState s p =>
      simp only [Statechart.visit, returns_bind, returns_modify, returns_pure, exists_punit,
        exists_eq_left] at ha
      obtain ⟨b, w₁, hr, rfl, rfl⟩ := ha
      obtain ⟨rfl, h'⟩ := restoreState_depicts hn hc hu (hparam p) hr
      unfold visit
      cases hq : k.current <;> simpa [hq] using h'

lemma serve_depicts (hn : c.Nested) (hc : c.ActionsKeepData) (hu : c.Unaware) (h : w.Depicts c k)
    (hs : Statechart.Serves c l os w w') :
    os = (serve c l k).1 ∧ w'.Depicts c (serve c l k).2 := by
  induction l generalizing w k os with
  | nil =>
      obtain ⟨rfl, rfl⟩ := hs
      exact ⟨rfl, h⟩
  | cons a l ih =>
      obtain ⟨o, os', w₁, rfl, ha, hs⟩ := hs
      obtain ⟨rfl, h₁⟩ := visit_depicts hn hc hu h ha
      obtain ⟨rfl, h'⟩ := ih h₁ hs
      exact ⟨rfl, h'⟩

/-- **Nested charts refine the automaton on the branches.** In a chart without concurrency whose
actions leave the metadata alone, any sequence of `start`, `dispatch` and `restoreState` returns and
throws what the automaton does, and ends with its parameter and its actions; the state of the
automaton is the innermost active one, and all pointers lead to it. -/
theorem serve_of_serves (hn : c.Nested) (hc : c.ActionsKeepData) (hu : c.Unaware) {p : P}
    (hs : Statechart.Serves c l os (World.fresh p) w) :
    let r := serve c l ⟨none, p, []⟩
    os = r.1 ∧ w.param = r.2.param ∧ Obs.performed w.trace = r.2.actions
      ∧ (∀ x, w.data.isActive x = true ↔ ∃ q, r.2.current = some q ∧ c.Below q x)
      ∧ ∀ x y, w.data.current x = some y
        ↔ c.context y = some x ∧ ∃ q, r.2.current = some q ∧ c.Below q y := by
  have hfresh : (World.fresh p : World S T E P).Depicts c ⟨none, p, []⟩ :=
    ⟨rfl, rfl, by simp, fun _ => rfl⟩
  obtain ⟨hos, h⟩ := serve_depicts hn hc hu hfresh hs
  exact ⟨hos, h.param, h.performed, h.isActive_iff, h.current_iff⟩

end Branch

/-! ### An instance -/

namespace Errand

inductive St where
  | chart | s | box | i | a | f | rest
  deriving DecidableEq

instance : Fintype St := ⟨{.chart, .s, .box, .i, .a, .f, .rest}, fun x => by cases x <;> decide⟩

inductive Tr where
  | begin | inner | go | done
  deriving DecidableEq

instance : Fintype Tr := ⟨{.begin, .inner, .go, .done}, fun t => by cases t <;> decide⟩

/-- A hierarchical state `box` that is left when it is completed; the parameter counts how often
`rest` was entered. -/
def chart : Chart St Tr Event ℕ where
  name := "errand"
  root := .chart
  ownedStates := [.s, .box, .i, .a, .f, .rest]
  ownedTransitions := [.begin, .inner, .go, .done]
  kind
    | .chart => .statechart
    | .s | .i => .pseudoState .start
    | .box => .hierarchicalState
    | .a | .rest => .state
    | .f => .finalState
  context
    | .chart => none
    | .s | .box | .rest => some .chart
    | .i | .a | .f => some .box
  depth
    | .chart => 0
    | .s | .box | .rest => 1
    | .i | .a | .f => 2
  entryAction
    | .rest => some fun m p => (m, p + 1)
    | _ => none
  source
    | .begin => .s
    | .inner => .i
    | .go => .a
    | .done => .box
  target
    | .begin => .box
    | .inner => .a
    | .go => .f
    | .done => .rest
  event
    | .go => some (.event "go")
    | _ => none
  equals ev e _ _ := ev.equals e
  timeout := Event.timeout

lemma nested : chart.Nested where
  noConcurrent := by decide
  noHistory := by decide
  noFork := by decide
  noJoin := by decide
  source := by decide
  apart := by decide

lemma actionsKeepData : chart.ActionsKeepData := by
  refine ⟨fun {x f} h => ?_, fun h => ?_, fun h => ?_, fun h => ?_⟩
  · cases x <;> simp only [chart, reduceCtorEq, Option.some.injEq] at h
    subst h
    exact fun _ _ => rfl
  all_goals simp [chart] at h

lemma unaware : chart.Unaware := by
  refine ⟨⟨fun {x f} h => ?_, fun h => ?_, fun h => ?_, fun h => ?_⟩, fun h => ?_,
    fun _ _ _ _ _ _ => rfl⟩
  · cases x <;> simp only [chart, reduceCtorEq, Option.some.injEq] at h
    subst h
    exact ⟨fun _ _ _ => rfl, fun _ _ _ _ => rfl, fun _ _ _ h => h⟩
  all_goals simp [chart] at h

/-- The chart is started, told to go, and cannot be restored as it is running. -/
def visits : List (Visit St Event ℕ) :=
  [.call (.start 0), .call (.dispatch (some (.event "go")) 5), .restoreState .a 7]

set_option maxRecDepth 4000 in
/-- The event that completes `box` also leaves it, as in the automaton. -/
theorem serve_visits : ∃ w os, Statechart.Serves chart visits os (World.fresh 0) w
    ∧ os = [.returned true, .returned true, .returned false]
    ∧ os = (Branch.serve chart visits ⟨none, 0, []⟩).1
    ∧ Obs.performed w.trace = [.entry .rest]
    ∧ ∃ q, (Branch.serve chart visits ⟨none, 0, []⟩).2.current = some q ∧ chart.Below q .rest := by
  have hserves : ∃ w os, Statechart.Serves chart visits os (World.fresh 0) w
      ∧ os = [.returned true, .returned true, .returned false]
      ∧ Obs.performed w.trace = [.entry .rest] ∧ w.data.current .chart = some .rest :=
    ⟨_, _, ⟨_, _, _, rfl, ⟨20, rfl⟩, _, _, _, rfl, ⟨20, rfl⟩, _, _, _, rfl, ⟨20, rfl⟩, rfl, rfl⟩,
      rfl, rfl, rfl⟩
  obtain ⟨w, os, hs, hos, htr, hcur⟩ := hserves
  obtain ⟨hout, -, -, -, hpointers⟩ := Branch.serve_of_serves nested actionsKeepData unaware hs
  exact ⟨w, os, hs, hos, hout, htr, ((hpointers _ _).mp hcur).2⟩

end Errand

end CppStatecharts
