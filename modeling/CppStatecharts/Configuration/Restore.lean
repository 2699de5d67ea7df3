import CppStatecharts.Configuration.Runs
import CppStatecharts.Configuration.Sealed
import CppStatecharts.Semantics.Retrace
import CppStatecharts.Termination.Convergence

/-!
What `Statechart::restoreState` builds.

* `Statechart.activateAll`: the loop over the path, which `restoreState` runs after a reset.
* `Chart.Restored`: the configuration that a client asks for.
* `Statechart.Unhindered`: no state of the path is activated beside another current state.
* `Statechart.restoreState_iff`: this is when the configuration is the one asked for.
* `Beside`: a chart whose default entry takes the place of the state to be restored.
-/

namespace CppStatecharts

variable {S T E P : Type} [DecidableEq S] {c : Chart S T E P}
variable {w w₁ w' : World S T E P} {s x y p q : S} {k : ℕ} {b : Bool} {u : PUnit} {l : List S}

/-- The state and its ancestors are active; on the way down to it, each state is the only active
child of a context that is not concurrent, and its current state; active concurrent states have all
their regions active, and active states have active contexts. Histories do not count as children. -/
structure Chart.Restored (c : Chart S T E P) (s : S) (m : Metadata S) : Prop where
  path : ∀ {x}, c.Below s x → m.isActive x = true
  child : ∀ {x y p}, c.Below s x → c.context x = some p → c.kind p ≠ .concurrentState →
    (c.kind y).isHistory = false → m.isActive y = true → c.context y = some p → y = x
  current : ∀ {x p}, c.Below s x → c.context x = some p → c.kind p ≠ .concurrentState →
    m.current p = some x
  regions : ∀ {n r}, c.kind n = .concurrentState → m.isActive n = true → r ∈ c.regions n →
    m.isActive r = true
  upward : ∀ {x p}, m.isActive x = true → c.context x = some p → m.isActive p = true

namespace Statechart

/-- No state of the path is activated while another one is the current state of its context,
histories apart. -/
def Unhindered (c : Chart S T E P) (s : S) (w : World S T E P) : Prop :=
  ∀ done x rest p, restorePath c s = done ++ x :: rest → c.context x = some p →
    c.kind p ≠ .concurrentState → ∀ w₁, Returned (fun k => activateAll c k done) (forget w) ⟨⟩ w₁ →
    ∀ y, w₁.data.current p = some y → (c.kind y).isHistory = false → y = x

lemma returns_activateAll_cons : Returns (activateAll c k (x :: l)) w u w'
    ↔ ∃ b w₁, Returns ((c.methods k).activate x) w b w₁ ∧ Returns (activateAll c k l) w₁ u w' := by
  simp only [activateAll, returns_forM_cons, returns_bind, returns_pure]
  constructor
  · rintro ⟨w₁, ⟨b, w₂, h, -, rfl⟩, h'⟩
    exact ⟨b, w₁, h, h'⟩
  · rintro ⟨b, w₁, h, h'⟩
    exact ⟨w₁, ⟨b, w₁, h, trivial, rfl⟩, h'⟩

lemma returns_activateAll_append {l' : List S} : Returns (activateAll c k (l ++ l')) w u w'
    ↔ ∃ w₁, Returns (activateAll c k l) w ⟨⟩ w₁ ∧ Returns (activateAll c k l') w₁ u w' := by
  induction l generalizing w with
  | nil => simp [activateAll]
  | cons x l ih =>
      rw [List.cons_append, returns_activateAll_cons]
      simp only [ih, returns_activateAll_cons]
      constructor
      · rintro ⟨b, w₁, h, w₂, h', h''⟩
        exact ⟨w₂, ⟨b, w₁, h, h'⟩, h''⟩
      · rintro ⟨w₂, ⟨b, w₁, h, h'⟩, h''⟩
        exact ⟨b, w₁, h, w₂, h', h''⟩

lemma monotone_activateAll (l : List S) :
    Monotone fun k => (activateAll c k l : Comp (World S T E P) PUnit) :=
  monotone_forM (fun x => monotone_bind ((monotone_activate x).comp (monotone_methods c))
    fun _ => monotone_const) l

/-- The path leads down from the chart. -/
lemma restorePath_eq (s : S) :
    ∃ l, restorePath c s = c.root :: l ∧ c.forest.Descends c.root l s := by
  have hup : ∀ {k s}, c.depth s ≤ k →
      ∃ l, (c.forest.upFrom k s).reverse = c.root :: l ∧ c.forest.Descends c.root l s := by
    intro k
    induction k with
    | zero =>
        intro s hs
        obtain rfl : s = c.root := by
          by_contra hne
          obtain ⟨p, hp⟩ := Chart.context_eq_some_of_ne_root hne
          have := c.depth_context hp
          omega
        exact ⟨[], rfl, rfl⟩
    | succ k ih =>
        intro s hs
        by_cases hr : s = c.root
        · subst hr
          refine ⟨[], ?_, rfl⟩
          simp [Forest.upFrom, Chart.parent_forest, (c.context_root c.root).mpr rfl]
        · obtain ⟨p, hp⟩ := Chart.context_eq_some_of_ne_root hr
          have hd := c.depth_context hp
          obtain ⟨l, hl, hdesc⟩ := ih (s := p) (by omega)
          refine ⟨l ++ [s], ?_, hdesc.snoc hp⟩
          simp [Forest.upFrom, Chart.parent_forest, hp, hl]
  exact hup le_rfl

/-! ### The chart -/

lemma opened_greet_root (hx : x ≠ c.root) :
    Obs.opened x (c.greet c.root (c.arrive c.root (forget w))).trace = false := by
  obtain ⟨l, hl, hidle⟩ := trace_arrive c (forget w) c.root
  have harrive : Obs.opened x (c.arrive c.root (forget w)).trace = false := by
    rw [hl, Obs.opened_append, Obs.opened_cons (by simp) (by simp)]
    · rfl
    · intro o ho
      have := hidle o ho
      cases o <;> simp_all [Obs.isIdle]
  unfold Chart.greet
  cases c.entryAction c.root <;> cases c.doAction c.root <;>
    simp [World.perform, World.log, Obs.opened, harrive, hx]

lemma nests_greet_root (hn : c.Nests w.trace) :
    c.Nests (c.greet c.root (c.arrive c.root (forget w))).trace := by
  obtain ⟨l, hl, hidle⟩ := trace_arrive c (forget w) c.root
  have hmarks : ∀ o ∈ l, (∀ y, o ≠ .entry y ∧ o ≠ .exit y) ∧ o ≠ .reset := fun o ho => by
    have := hidle o ho
    cases o <;> simp_all [Obs.isIdle]
  have harrive : c.Nests (c.arrive c.root (forget w)).trace := by
    rw [hl, nests_append (fun o ho => (hmarks o ho).1), nests_cons (by simp)]
    exact hn
  have hopen : Obs.opened c.root (c.arrive c.root (forget w)).trace = false := by
    rw [hl, Obs.opened_append hmarks, Obs.opened_cons (by simp) (by simp)]
    rfl
  have hentry : c.Nests ((c.arrive c.root (forget w)).perform (.entry c.root)
      (c.entryAction c.root)).trace := by
    cases c.entryAction c.root with
    | none => exact harrive
    | some f =>
        refine ⟨harrive, fun _ => ⟨fun p hp => ?_, fun _ => hopen⟩⟩
        rw [(c.context_root _).mpr rfl] at hp
        cases hp
  unfold Chart.greet
  cases c.doAction c.root with
  | none => exact hentry
  | some f => exact hentry

/-- The entry of the chart after a reset. -/
lemma settled_activate_root (hc : c.ActionsKeepData) (hn : c.Nests w.trace)
    (hf : ∀ {t a b}, .fired t a b ∈ w.trace → c.Carried t a b)
      (hi : ∀ n, ¬ Obs.inProgress n w.trace)
    (h : Returns ((c.methods k).activate c.root) (forget w) b w') :
    c.Settled w' ∧ w'.data.isActive c.root = true := by
  have hroot : c.context c.root = none := (c.context_root _).mpr rfl
  have hkind : c.kind c.root = .statechart := (c.kind_statechart _).mpr rfl
  cases k with
  | zero => exact absurd h (by simp [Chart.methods])
  | succ k =>
      simp only [Chart.methods, Chart.step, hkind] at h
      rcases State.returns_activate.mp h with ⟨ha, -⟩ | ⟨hina, -, rfl⟩
      · cases ha
      have hactive : ∀ x, (c.greet c.root (c.arrive c.root (forget w))).data.isActive x
          = decide (x = c.root) := fun x => by
        rw [hc.data_greet, isActive_arrive]
        exact Bool.or_false _
      have hadds : (forget w).Adds (fun o => ∀ t a b, o ≠ .fired t a b)
          (c.greet c.root (c.arrive c.root (forget w))) :=
        (Chart.adds_arrive c (forget w) c.root).trans <|
          (World.adds_perform (by simp)).trans (World.adds_perform (by simp))
      refine ⟨settled_alone hactive (fun x => ?_) (fun x => ?_) (fun x hx => ?_) (fun x _ => ?_) ?_
        (fun {t a b} hm => ?_) (fun x hx => ?_) fun n => ?_, by rw [hactive]; simp⟩
      · rw [hc.data_greet, current_arrive, data_activateData, hroot, Metadata.current_activate_none]
        split <;> rfl
      · rw [hc.data_greet, stateset_arrive]
        rfl
      · rw [hc.data_greet, hasData_arrive]
        simp [hx, forget]
      · exact ((show (forget w).Tells x from rfl).arrive.perform rfl hc.data_entry).perform rfl
          hc.data_doing
      · exact nests_greet_root hn
      · obtain ⟨l, hl, hq⟩ := hadds
        rw [hl] at hm
        have hold := (List.mem_append.mp hm).resolve_left fun hm => hq _ hm t a b rfl
        exact hf ((List.mem_cons.mp hold).resolve_left (by simp))
      · exact opened_greet_root hx
      · have hk : (c.kind c.root).isPseudo = false := by rw [hkind]; rfl
        rw [(Chart.level_greet hk hina).inProgress]
        simpa [forget, Obs.inProgress, Obs.isEntering, Obs.isEntered] using hi n

/-! ### The path -/

/-- A state of the path is entered. -/
lemma settled_activate (hr : c.Standard) (h : c.Settled w) (hp : c.context x = some p)
    (hpa : w.data.isActive p = true)
    (hv : c.kind p ≠ .concurrentState → ∀ y, w.data.current p = some y →
      (c.kind y).isHistory = false → y = x)
    (ho : c.Orderly w'.trace) (ha : Returns ((c.methods k).activate x) w b w') :
    c.Settled w' ∧ ((c.kind x).isHistory = false → w'.data.isActive x = true) := by
  by_cases hx : (c.kind x).isPseudo = true ∨ w.data.isActive x = false
  · have hent : c.Enterable p x w := by
      refine ⟨hp, hpa, fun hk hy hyk hya => hv hk _ (h.legal.single hyk hya hy hk) hyk,
        fun hk => hx.resolve_left ?_⟩
      rw [hk]
      decide
    have hclear : c.kind x = .concurrentState → w.data.stateset x = [] := fun hk =>
      Metadata.stateset_of_hasData_eq_false <|
        h.legal.clear hk (hent.fresh (by rw [hk]; rfl)) (by simp)
    have hres := (legal_methods hr k).1 h.legal.mono hent (.none hclear) ho ha
    have hlevel := ((compatible_level (c := c)).methods k).activate x _ _ _ ha
    exact ⟨⟨hres.legal, fun n hn => h.idle n (hlevel.inProgress.mp hn)⟩,
      fun hk => (hres.active hk).1⟩
  · simp only [not_or, Bool.not_eq_true, Bool.not_eq_false] at hx
    obtain rfl := eq_of_activate_active hx.1 hx.2 ha
    exact ⟨h, fun _ => hx.2⟩

/-- States that no state of the path contains stay active. -/
lemma activateAll_stays (hc : c.ActionsKeepData) (hl : ∀ x ∈ l, (c.kind x).isPseudo = false)
    (hq : (c.kind q).isHistory = false) (hql : ∀ x ∈ l, c.Below q x → q = x)
    (hi : ∀ n, ¬ Obs.inProgress n w.trace) (hseal : c.Sealed w'.trace)
    (ha : w.data.isActive q = true) (h : Returns (activateAll c k l) w u w') :
    w'.data.isActive q = true := by
  induction l generalizing w with
  | nil =>
      rw [returns_forM_nil.mp h]
      exact ha
  | cons x l ih =>
      obtain ⟨b, w₁, h₁, h₂⟩ := returns_activateAll_cons.mp h
      have hlevel := ((compatible_level (c := c)).methods k).activate x _ _ _ h₁
      have hext : w₁.Extends w' := (compatible_extends c).enterPath k _ _ _ _ h₂
      have ha₁ := activate_stays hc (hl x List.mem_cons_self) hq (hql x List.mem_cons_self) (hi x)
        (hseal.of_extends hext) ha h₁
      exact ih (fun y hy => hl y (List.mem_cons_of_mem x hy))
        (fun y hy => hql y (List.mem_cons_of_mem x hy)) (fun n hn => hi n (hlevel.inProgress.mp hn))
        ha₁ h₂

/-- Unless something stands in the way, the path is entered down to its end. -/
lemma settled_activateAll (hr : c.Standard) (hl : c.forest.Descends p l s) (h : c.Settled w)
    (hp : w.data.isActive p = true)
    (hv : ∀ done x rest q, l = done ++ x :: rest → c.context x = some q →
      c.kind q ≠ .concurrentState → ∀ w₁, Returns (activateAll c k done) w ⟨⟩ w₁ →
      ∀ y, w₁.data.current q = some y → (c.kind y).isHistory = false → y = x)
    (ho : c.Orderly w'.trace) (ha : Returns (activateAll c k l) w u w') :
    c.Settled w' ∧ ((c.kind s).isHistory = false → w'.data.isActive s = true) := by
  induction l generalizing p w with
  | nil =>
      rw [returns_forM_nil.mp ha]
      exact ⟨h, fun _ => (show s = p from hl) ▸ hp⟩
  | cons x l ih =>
      obtain ⟨b, w₁, h₁, h₂⟩ := returns_activateAll_cons.mp ha
      have hext : w₁.Extends w' := (compatible_extends c).enterPath k _ _ _ _ h₂
      obtain ⟨hs, hxa⟩ := settled_activate hr h hl.1 hp
        (fun hkp y => hv [] x l p rfl hl.1 hkp w (returns_forM_nil.mpr rfl) y)
        (ho.of_extends hext) h₁
      cases l with
      | nil =>
          obtain rfl := returns_forM_nil.mp h₂
          exact ⟨hs, (show s = x from hl.2) ▸ hxa⟩
      | cons z l =>
          refine ih hl.2 hs (hxa (isHistory_of_context hl.2.1)) ?_ h₂
          intro done y rest q hsplit hq hkq w₂ hd
          exact hv (x :: done) y rest q (by rw [hsplit]; rfl) hq hkq w₂
            (returns_activateAll_cons.mpr ⟨b, w₁, h₁, hd⟩)

/-- What stands in the way of the path is still active at the end. -/
lemma unhindered_of_child (hr : c.Standard) (hl : c.forest.Descends p l s)
    (hk : ∀ x ∈ l, (c.kind x).isPseudo = false) (h : c.Settled w) (hp : w.data.isActive p = true)
    (ho : c.Orderly w'.trace) (hseal : c.Sealed w'.trace)
    (hchild : ∀ {x y p}, c.Below s x → c.context x = some p → c.kind p ≠ .concurrentState →
      (c.kind y).isHistory = false → w'.data.isActive y = true → c.context y = some p → y = x)
    (ha : Returns (activateAll c k l) w u w') :
    ∀ done x rest q, l = done ++ x :: rest → c.context x = some q →
      c.kind q ≠ .concurrentState → ∀ w₁, Returns (activateAll c k done) w ⟨⟩ w₁ →
      ∀ y, w₁.data.current q = some y → (c.kind y).isHistory = false → y = x := by
  induction l generalizing p w with
  | nil =>
      intro done x rest q hsplit
      simp at hsplit
  | cons x l ih =>
      obtain ⟨b, w₁, h₁, h₂⟩ := returns_activateAll_cons.mp ha
      have hext : w₁.Extends w' := (compatible_extends c).enterPath k _ _ _ _ h₂
      have hsx : c.Below s x := hl.2.below
      have hfirst : c.kind p ≠ .concurrentState → ∀ y, w.data.current p = some y →
          (c.kind y).isHistory = false → y = x := by
        intro hkp y hy hyk
        have hyp := h.legal.links.pointers p y hy
        have hya := (h.legal.live hkp hp hy).resolve_right (by simp)
        by_contra hne
        refine hne
          (hchild hsx hl.1 hkp hyk (activateAll_stays hr.actions hk hyk (fun z hz hyz => ?_)
          h.idle hseal hya ha) hyp)
        -- everything on the path lies in `x`, beside `y`
        have hzx := (Forest.Descends.below_head hl z hz).1
        exact absurd (Forest.eq_of_below_children (F := c.forest) hyp hl.1 (Forest.below_refl _)
          (Forest.below_trans hyz hzx)) hne
      obtain ⟨hs, hxa⟩ := settled_activate hr h hl.1 hp hfirst (ho.of_extends hext) h₁
      have hxa := hxa (StateKind.isHistory_eq_false_of_isPseudo (hk x List.mem_cons_self))
      intro done z rest q hsplit hq hkq w₂ hd
      cases done with
      | nil =>
          obtain ⟨rfl, -⟩ := List.cons.inj hsplit
          obtain rfl := returns_forM_nil.mp hd
          obtain rfl := Option.some.inj (hl.1.symm.trans hq)
          exact hfirst hkq
      | cons z' done =>
          obtain ⟨rfl, hsplit'⟩ := List.cons.inj hsplit
          obtain ⟨b', w₃, h₃, hd⟩ := returns_activateAll_cons.mp hd
          obtain ⟨-, rfl⟩ := h₁.unique h₃
          exact ih hl.2 (fun y hy => hk y (List.mem_cons_of_mem x hy)) hs hxa h₂ done z rest
            q hsplit'
            hq hkq w₂ hd

/-- The path below the chart is not hindered either. -/
lemma Unhindered.rest (hv : Unhindered c s w) (hpath : restorePath c s = c.root :: l)
    (h : Returns ((c.methods k).activate c.root) (forget w) b w₁) :
    ∀ done x rest q, l = done ++ x :: rest → c.context x = some q → c.kind q ≠ .concurrentState →
      ∀ w₂, Returns (activateAll c k done) w₁ ⟨⟩ w₂ → ∀ y, w₂.data.current q = some y →
        (c.kind y).isHistory = false → y = x := by
  intro done x rest q hsplit hq hkq w₂ hd
  exact hv (c.root :: done) x rest q (by rw [hpath, hsplit]; rfl) hq hkq w₂
    ⟨k, returns_activateAll_cons.mpr ⟨b, w₁, h, hd⟩⟩

/-- Unless something stands in the way, a legal configuration is built. -/
lemma settled_restore (hr : c.Standard) (hn : c.Nests w.trace)
    (hf : ∀ {t a b}, .fired t a b ∈ w.trace → c.Carried t a b)
      (hi : ∀ n, ¬ Obs.inProgress n w.trace)
    (hv : Unhindered c s w) (ho : c.Orderly w'.trace)
    (h : Returns (activateAll c k (restorePath c s)) (forget w) u w') :
    c.Settled w' ∧ ((c.kind s).isHistory = false → w'.data.isActive s = true) := by
  obtain ⟨l, hpath, hl⟩ := restorePath_eq (c := c) s
  rw [hpath] at h
  obtain ⟨b, w₁, h₁, h₂⟩ := returns_activateAll_cons.mp h
  obtain ⟨hs₁, hroot⟩ := settled_activate_root hr.actions hn hf hi h₁
  exact settled_activateAll hr hl hs₁ hroot (hv.rest hpath h₁) ho h₂

/-! ### Notified states -/

/-- Active states were notified as active. -/
def Noted (w : World S T E P) : Prop := ∀ x, w.data.isActive x = true → .activated x ∈ w.trace

omit [DecidableEq S] in
lemma Noted.of_extends (h : Noted w) (hw : w.Extends w')
    (ha : ∀ x, w'.data.isActive x = true → w.data.isActive x = true ∨ .activated x ∈ w'.trace) :
    Noted w' := fun x hx => (ha x hx).elim (fun hx => hw.mem (h x hx)) id

lemma compatible_noted (hc : c.ActionsKeepData) :
    Compatible c Set.univ fun w w' => Noted w → Noted w' := by
  have hext := compatible_extends c
  have hperform : ∀ {w : World S T E P} {o : Obs S T} {a : Option (Action S P)},
      (w.perform o a).data = w.data → Noted w → Noted (w.perform o a) := fun hd h =>
    h.of_extends (World.adds_perform trivial) fun x hx => Or.inl (hd ▸ hx)
  have heq : ∀ {w w' : World S T E P}, w.Extends w' →
      (∀ x, w'.data.isActive x = w.data.isActive x) → Noted w → Noted w' := fun he ha h =>
    h.of_extends he fun x hx => Or.inl ((ha x).symm.trans hx)
  exact
  { null := trivial
    refl := fun _ => id
    trans := fun h h' => h' ∘ h
    fire := fun _ _ _ _ _ => heq (World.extends_log _ _) fun _ => rfl
    fired := fun _ _ _ => heq (World.extends_log _ _) fun _ => rfl
    fallThrough := fun _ _ _ _ => heq (World.extends_log _ _) fun _ => rfl
    bracket := fun _ _ _ h h' => heq (World.extends_log _ _) (fun _ => rfl)
      (h (heq (World.extends_log _ _) (fun _ => rfl) h'))
    effect := fun _ _ => hperform hc.data_effect
    entry := fun _ _ => hperform hc.data_entry
    doing := fun _ _ => hperform hc.data_doing
    exit := fun _ _ => hperform hc.data_exit
    activateData := fun s w hs h => h.of_extends (hext.activateData s w hs) fun x hx => by
      rcases Bool.or_eq_true_iff.mp (Metadata.isActive_activate.symm.trans hx) with hxs | hx
      · rw [of_decide_eq_true hxs]
        exact Or.inr List.mem_cons_self
      · exact Or.inl hx
    arrive := fun s w hs hi h => h.of_extends (hext.arrive s w hs hi) fun x hx => by
      rcases Bool.or_eq_true_iff.mp (isActive_arrive.symm.trans hx) with hxs | hx
      · obtain ⟨l, hl, -⟩ := trace_arrive c w s
        rw [of_decide_eq_true hxs, hl]
        exact Or.inr (List.mem_append_right _ List.mem_cons_self)
      · exact Or.inl hx
    leave := fun s w hs h => h.of_extends (hext.leave s w hs) fun x hx => by
      rw [isActive_leave, Bool.and_eq_true] at hx
      exact Or.inl hx.2
    registerRegion := fun n r w hn => heq (hext.registerRegion n r w hn)
      fun _ => isActive_registerRegion
    clearStateset := fun n w hn => heq (hext.clearStateset n w hn) fun _ => isActive_clearStateset
    clearCurrent := fun s w hs => heq (hext.clearCurrent s w hs) fun _ => isActive_clearCurrent
    storeHistory := fun s q w w' hq hst hs =>
      heq (hext.storeHistory s q w w' hq hst hs) fun _ => isActive_storeHistory hs }

/-! ### The result -/

/-- From an empty record on, the configuration is the one asked for unless something stands in the
way. -/
lemma restored_iff (hr : c.Standard) (hs : (c.kind s).isPseudo = false) (hw : w.trace = [])
    (ho : c.Orderly w'.trace) (hseal : c.Sealed w'.trace)
    (hhist : ∀ {x p}, (c.kind x).isHistory = true → c.context x = some p → .activated x ∈ w'.trace →
      .deactivated p ∉ w'.trace)
    (h : Returns (activateAll c k (restorePath c s)) (forget w) ⟨⟩ w') :
    c.Restored s w'.data ↔ Unhindered c s w := by
  obtain ⟨l, hpath, hl⟩ := restorePath_eq (c := c) s
  have hk := isPseudo_of_descends hl hs
  have h' := h
  rw [hpath] at h'
  obtain ⟨b, w₁, h₁, h₂⟩ := returns_activateAll_cons.mp h'
  have hidle : ∀ n, ¬ Obs.inProgress n w.trace := fun n hn => hn (by rw [hw]; rfl)
  have hnone : ∀ {t a b}, .fired t a b ∈ w.trace → c.Carried t a b := fun hm => by
    rw [hw] at hm
    cases hm
  obtain ⟨hs₁, hroot⟩ := settled_activate_root hr.actions (by rw [hw]; trivial) hnone hidle h₁
  -- the steps of the path, after the chart
  have hsteps : Unhindered c s w ↔ ∀ done x rest q, l = done ++ x :: rest → c.context x = some q →
      c.kind q ≠ .concurrentState → ∀ w₂, Returns (activateAll c k done) w₁ ⟨⟩ w₂ →
      ∀ y, w₂.data.current q = some y → (c.kind y).isHistory = false → y = x := by
    refine ⟨fun hv => hv.rest hpath h₁, ?_⟩
    intro hv done x rest q hsplit hq hkq w₂ hd
    rw [hpath] at hsplit
    cases done with
    | nil =>
        obtain ⟨rfl, -⟩ := List.cons.inj hsplit
        exact absurd rfl (Chart.ne_root_of_context hq)
    | cons x' done =>
        obtain ⟨rfl, hsplit'⟩ := List.cons.inj hsplit
        -- the part of the path is entered as in the whole run
        obtain ⟨w₃, h₃, -⟩ := returns_activateAll_append.mp (hsplit' ▸ h₂)
        have hd' : Returned (fun k => activateAll c k (c.root :: done)) (forget w) ⟨⟩ w₃ :=
          ⟨k, returns_activateAll_cons.mpr ⟨b, w₁, h₁, h₃⟩⟩
        obtain ⟨-, rfl⟩ := hd.unique (monotone_activateAll _) hd'
        exact hv done x rest q hsplit' hq hkq w₂ h₃
  rw [hsteps]
  constructor
  · intro hres
    exact unhindered_of_child hr hl hk hs₁ hroot ho hseal hres.child h₂
  · intro hv
    have hsh := StateKind.isHistory_eq_false_of_isPseudo hs
    obtain ⟨hset, hsa⟩ := settled_restore hr (by rw [hw]; trivial) hnone hidle (hsteps.mpr hv) ho h
    have hsa := hsa hsh
    have hup : ∀ {x}, c.Below s x → w'.data.isActive x = true ∧ (c.kind x).isHistory = false :=
      fun hx => ⟨hset.legal.active_of_below hsh hsa hx, isHistory_of_below hsh hx⟩
    refine ⟨fun hx => (hup hx).1, fun {x y p} hx hp hpk hyk hya hyp => ?_,
      fun hx hp hpk => hset.legal.single (hup hx).2 (hup hx).1 hp hpk,
      fun hn ha hr => hset.legal_data.regions hn ha hr, fun {x p} ha hp => ?_⟩
    · have hxc := hset.legal.single (hup hx).2 (hup hx).1 hp hpk
      have hyc := hset.legal.single hyk hya hyp hpk
      exact Option.some.inj (hyc.symm.trans hxc)
    · cases hxk : (c.kind x).isHistory with
      | false => exact hset.legal.upward hxk ha hp
      | true =>
          have hnoted : Noted w' :=
            (compatible_noted hr.actions).enterPath k _ _ _ _ h fun x hx => nomatch hx
          exact (hset.legal.anchored hxk ha hp).resolve_right (hhist hxk hp (hnoted x ha))

omit [DecidableEq S] in
lemma retraced_forget (w : World S T E P) (l : List (Obs S T)) :
    World.Retraced w.trace l (forget w) (forget { w with trace := l }) :=
  ((World.retraced_with w l).onData _).log _

lemma simulates_activateAll {B : World S T E P → World S T E P → Prop} (h : c.Similar B)
    (l : List S) : Simulates B (activateAll c k l) (activateAll c k l) :=
  simulates_forM fun x _ => simulates_bind ((h.methods k).activate x) fun _ => simulates_pure _

/-- What was observed before is of no importance to the steps of the path. -/
lemma unhindered_retrace (h : Unhindered c s w) (l : List (Obs S T)) :
    Unhindered c s { w with trace := l } := by
  intro done x rest p hsplit hp hk w₁ ⟨n, hd⟩ y hy
  have hback : World.Retraced l w.trace (forget { w with trace := l }) (forget w) :=
    retraced_forget { w with trace := l } w.trace
  obtain ⟨w₂, hd₂, hB⟩ := simulates_activateAll (similar_retraced c) done _ _ _ _ hback hd
  exact h done x rest p hsplit hp hk w₂ ⟨n, hd₂⟩ y (hB.data ▸ hy)

/-- **Restoring a state.** When the recursions of the chart end, `restoreState` on a metadata that
does not run comes back with true. If meanwhile only states inside are left while a concurrent state
is being entered, no improper transition fires, no fork is entered and no state whose history was
entered is left, then the configuration is the one asked for exactly when no state of the path is
activated beside another current state. -/
theorem restoreState_iff (hr : c.Standard) (hb : c.Bounded) (hs : (c.kind s).isPseudo = false)
    (hw : w.data.isActive c.root = false) :
    ∃ w', Returned (fun k => restoreState c k s) w true w'
      ∧ (c.Orderly (w.since w') → c.Sealed (w.since w') →
        (∀ {x p}, (c.kind x).isHistory = true → c.context x = some p → .activated x ∈ w.since w' →
          .deactivated p ∉ w.since w') →
        (c.Restored s w'.data ↔ Unhindered c s w)) := by
  have hconv : Converges (fun k => activateAll c k (restorePath c s)) (forget w) :=
    converges_loop (f := fun v x => do let _ ← v.activate x)
      (fun x => monotone_bind (monotone_activate x) fun _ => monotone_const)
      (fun k x w u w' h hl => by
        obtain ⟨b, w₁, h, h'⟩ := returns_bind.mp h
        obtain ⟨-, rfl⟩ := returns_pure.mp h'
        exact ((compatible_links hb.actions).methods k).activate x _ _ _ h hl)
      (fun x _ w hl => by
        obtain ⟨b, w', k, h⟩ := converges_activate hb.actions hb.look hb.enters x hl
        exact ⟨⟨⟩, w', k, returns_bind.mpr ⟨b, w', h, returns_pure.mpr ⟨rfl, rfl⟩⟩⟩)
      links_reset
  obtain ⟨_, w', k, h⟩ := hconv
  refine ⟨w', ⟨k, returns_restoreState.mpr (Or.inr ⟨hw, rfl, h⟩)⟩, fun ho hseal hhist => ?_⟩
  obtain ⟨v, hv, hB⟩ := simulates_activateAll (similar_retraced c) _ _ _ _ _
    (retraced_forget w []) h
  have htrace : v.trace = w.since w' := by
    rw [hB.trace_eq, List.append_nil]
  have hres := restored_iff (w := { w with trace := [] }) hr hs rfl (htrace ▸ ho) (htrace ▸ hseal)
    (fun {x p} hx hp => htrace ▸ hhist (x := x) (p := p) hx hp) hv
  rw [hB.data] at hres
  exact hres.trans ⟨fun h => unhindered_retrace h w.trace, fun h => unhindered_retrace h []⟩

end Statechart

namespace Beside

/-- A concurrent state `n` with the regions `r1` and `r2`; the first has the states `a1` and
`b1`. -/
inductive St where
  | chart | n | r1 | s1 | a1 | b1 | r2
  deriving DecidableEq

instance : Fintype St := ⟨{.chart, .n, .r1, .s1, .a1, .b1, .r2}, fun x => by cases x <;> decide⟩

inductive Tr where
  | default
  deriving DecidableEq

instance : Fintype Tr := ⟨{.default}, fun t => by cases t; decide⟩

/-- The default entry of `r1` leads to `a1`. -/
def chart : Chart St Tr Event Unit where
  name := "beside"
  root := .chart
  ownedStates := [.n, .r1, .s1, .a1, .b1, .r2]
  ownedTransitions := [.default]
  kind
    | .chart => .statechart
    | .n => .concurrentState
    | .r1 | .r2 => .hierarchicalState
    | .s1 => .pseudoState .start
    | .a1 | .b1 => .state
  context
    | .chart => none
    | .n => some .chart
    | .r1 | .r2 => some .n
    | .s1 | .a1 | .b1 => some .r1
  depth
    | .chart => 0
    | .n => 1
    | .r1 | .r2 => 2
    | .s1 | .a1 | .b1 => 3
  source _ := .s1
  target _ := .a1
  equals ev e _ _ := ev.equals e
  timeout := Event.timeout

lemma standard : chart.Standard := by
  refine ⟨by decide, fun h => ?_, fun h => ?_, fun h => ?_, fun h => ?_⟩ <;> cases h

lemma bounded : chart.Bounded where
  actions := standard.actions
  look w := by
    refine ⟨fun t => ⟨t, fun t' h => ?_⟩⟩
    obtain ⟨-, j, hj, hk, -⟩ := h
    cases t
    cases hj
    cases hk
  enters := by
    refine Subrelation.wf ?_ (measure fun x => if x = St.n then 1 else 0).wf
    rintro b a (⟨hk, r, hr, t, -, -, hb, -⟩ | ⟨hk, -⟩)
    · cases a <;> cases hk
      have hbn : b ≠ St.n := by
        rintro rfl
        revert hb
        decide +revert
      exact show (if b = St.n then 1 else 0) < (if St.n = St.n then 1 else 0) by simp [hbn]
    · cases a <;> cases hk

set_option maxRecDepth 4000 in
/-- **Two current states.** Restoring `b1` leaves `a1` active beside it. -/
theorem not_restored : ∃ w, Returned (fun k => Statechart.restoreState chart k .b1)
    (World.fresh ()) true w ∧ ¬ chart.Restored .b1 w.data := by
  refine ⟨_, ⟨20, rfl⟩, fun h => ?_⟩
  exact absurd
    (h.child (x := .b1) (y := .a1) (p := .r1) (Forest.below_refl _) rfl (by decide) rfl rfl rfl)
    (by decide)

lemma proper (m : Metadata St) : chart.Proper .default m := by
  refine ⟨by decide, Or.inr (Or.inr ⟨by decide, Or.inl ⟨by decide, ?_⟩⟩)⟩
  intro x r r' hx hr hr' hb hb'
  cases x <;> cases hx
  cases r <;> cases hr <;> cases r' <;> cases hr' <;> revert hb hb' <;> decide

lemma orderly {l : List (Obs St Tr)} (h : Obs.Unbroken l) : chart.Orderly l where
  unbroken := h
  proper {t} {m} _ _ := by
    cases t
    exact proper m
  noFork {x} _ := by cases x <;> decide

set_option maxRecDepth 4000 in
/-- Before `n` is entered, the chart has no current state; when `a1` is, it is that of `r1`
already. -/
lemma unhindered : Statechart.Unhindered chart .a1 (World.fresh () : World St Tr Event Unit) := by
  intro done x rest p hsplit hp hk w₁ hd y hy _
  have hpath : Statechart.restorePath chart .a1 = [.chart, .n, .r1, .a1] := rfl
  rw [hpath] at hsplit
  rcases done with _ | ⟨d₁, _ | ⟨d₂, _ | ⟨d₃, _ | ⟨d₄, done⟩⟩⟩⟩
  · obtain ⟨rfl, rfl⟩ := List.cons.inj hsplit
    cases hp
  · simp only [List.cons_append, List.nil_append, List.cons.injEq] at hsplit
    obtain ⟨rfl, rfl, rfl⟩ := hsplit
    cases hp
    obtain ⟨-, rfl⟩ := hd.unique (Statechart.monotone_activateAll _) ⟨20, rfl⟩
    cases hy
  · simp only [List.cons_append, List.nil_append, List.cons.injEq] at hsplit
    obtain ⟨rfl, rfl, rfl, rfl⟩ := hsplit
    cases hp
    exact absurd rfl hk
  · simp only [List.cons_append, List.nil_append, List.cons.injEq] at hsplit
    obtain ⟨rfl, rfl, rfl, rfl, rfl⟩ := hsplit
    cases hp
    obtain ⟨-, rfl⟩ := hd.unique (Statechart.monotone_activateAll _) ⟨20, rfl⟩
    exact Option.some.inj (hy.symm.trans (by decide))
  · simp at hsplit

set_option maxRecDepth 8000 in
/-- Where the default entry leads to the state to be restored, nothing stands in its way. -/
theorem restored_start : ∃ w, Returned (fun k => Statechart.restoreState chart k .a1)
    (World.fresh ()) true w ∧ chart.Restored .a1 w.data := by
  obtain ⟨w, h, hres⟩ := Statechart.restoreState_iff (w := World.fresh ())
    (s := .a1) standard bounded
    rfl rfl
  refine ⟨w, h, (hres ?_ ?_ ?_).mpr unhindered⟩
  all_goals obtain ⟨-, rfl⟩ := h.unique (Statechart.monotone_restoreState _ _) ⟨20, rfl⟩
  · exact orderly (by decide)
  · decide
  · intro x p hx
    cases x <;> cases hx

end Beside

end CppStatecharts
