import CppStatecharts.Configuration.Fire

/-!
Dispatching in legal configurations.

* `State.dispatch_moved` to `ConcurrentState.dispatch_moved`: the dispatch to each kind of state.
* `ConcurrentState.activate_entered`: the entry into a concurrent state, region after region.
* `legal_methods`: `activate` and `dispatch` keep configurations legal in orderly runs; both are
  shown together, for they call each other.
-/

namespace CppStatecharts

variable {S T E P : Type} [DecidableEq S] {c : Chart S T E P}
variable {w w₁ w₂ w' : World S T E P} {s x y p q d e m n : S} {r : Option S} {t : T} {k : ℕ}
variable {b : Bool} {u : PUnit} {ev : Option E}

open Chart

/-! ### Dispatching -/

/-- A transition that does not fire changes nothing. -/
lemma Transition.eq_of_execute_false
    (h : Returns (Transition.execute c (c.methods k) t ev) w false w') : w' = w := by
  rcases (Transition.returns_execute (pure_methods c k)).mp h with ⟨hb, -⟩ | ⟨-, hw, -⟩
  · cases hb
  · exact hw

/-- A fork that no transition leaves does nothing. -/
lemma PseudoState.eq_of_dispatchBranches (hs : c.kind s = .pseudoState .fork)
    (hu : c.Orderly w'.trace) (hd : Returns ((c.transitions s).forM fun t => do
      let _ ← Transition.execute c (c.methods k) t ev) w u w') : w' = w := by
  have hext := (compatible_extends c).methods k
  refine forM_induction (fun _ w' => c.Orderly w'.trace → w' = w)
    (fun done t rest hl w₁ w₂ hw hx hu => ?_) hd (fun _ => rfl) hu
  obtain ⟨b, w₃, hx, hp⟩ := returns_bind.mp hx
  obtain ⟨-, rfl⟩ := returns_pure.mp hp
  obtain ⟨hown, rfl⟩ := mem_transitions.mp (hl ▸ by simp : t ∈ c.transitions s)
  rcases (Transition.returns_execute (pure_methods c k)).mp hx with ⟨-, -, -, hf⟩ | ⟨-, rfl, -⟩
  · obtain ⟨l, hl, -⟩ : (w₁.log (.fire t w₁.data)).Extends w₂ :=
      (compatible_extends c).after_fire hext hf
    refine absurd hs (hu.proper (m := w₁.data) ?_ hown).1
    rw [hl]
    exact List.mem_append_right _ List.mem_cons_self
  · exact hw hu

section Dispatching

variable (hr : c.Standard) (hE : c.Activates (c.methods k)) (hD : c.Dispatches (c.methods k))

include hr hE

lemma Transition.execute_moved (h : c.Legal none w) (ht : t ∈ c.transitions s) (hs : c.Reached s w)
    (hu : c.Orderly w'.trace) (hx : Returns (Transition.execute c (c.methods k) t ev) w b w') :
    c.Moved s w w' := by
  obtain ⟨hown, rfl⟩ := mem_transitions.mp ht
  rcases (Transition.returns_execute (pure_methods c k)).mp hx with ⟨-, -, -, hf⟩ | ⟨-, rfl, -⟩
  · exact Transition.fire_moved hr hE h hs hu hf hown
  · exact .of_data h rfl

lemma State.dispatch_moved (h : c.Legal none w) (hs : c.Reached s w) (hu : c.Orderly w'.trace)
    (hd : Returns (State.dispatch c (c.methods k) s ev) w b w') : c.Moved s w w' := by
  rcases anyM_eq_or_mem (fun t _ w w' => Transition.eq_of_execute_false) hd with rfl | ⟨t, ht, hx⟩
  · exact .of_data h rfl
  · exact Transition.execute_moved hr hE h ht hs hu hx

lemma PseudoState.dispatch_moved (h : c.Legal none w) (hs : c.Reached s w)
    (hu : c.Orderly w'.trace)
    (hd : Returns (PseudoState.dispatch c (c.methods k) s ev) w b w') : c.Moved s w w' := by
  rcases PseudoState.returns_dispatch.mp hd with ⟨q, hh, hq, -⟩ | ⟨hf, -, hd⟩ | ⟨-, hd⟩
  · -- a history that is current has nothing to hand on to
    obtain ⟨-, p, hp, -, hcur⟩ := hs
    have hk : c.kind p ≠ .concurrentState := by
      rw [c.history_context hh hp]
      decide
    simp [PseudoState.restored, hp, hcur hk] at hq
  · rw [PseudoState.eq_of_dispatchBranches hf hu hd]
    exact .of_data h rfl
  · exact State.dispatch_moved hr hE h hs hu hd

/-! ### Hierarchical states -/

omit hE in
/-- The first entry into a hierarchical state without a substate. -/
lemma HierarchicalState.enterStart_moved (hE : c.Activates (c.methods k)) (h : c.Legal none w)
    (hs : w.data.isActive s = true)
    (hk : c.kind s = .hierarchicalState) (hu : c.Orderly w'.trace)
    (he : Returns (HierarchicalState.enterStart c (c.methods k) s) w u w') :
    c.Moved s w w' ∧ w'.data.isActive s = true := by
  rcases HierarchicalState.returns_enterStart.mp he with ⟨rfl, -⟩ | ⟨st, hcur, hst, he⟩
  · exact ⟨.of_data h rfl, hs⟩
  obtain ⟨hstk, hstp⟩ := startState_eq_some hst
  have hps : (c.kind st).isPseudo = true := by
    rw [hstk]
    rfl
  have hnc : c.kind s ≠ .concurrentState := by
    rw [hk]
    decide
  have hent : c.Enterable s st w := .of_vacant hstp hs fun y hy hyk =>
    h.inactive_of_current hnc hcur hy hyk
  have hnext : c.Legal (some st) w := h.mono
  have hlegal := hnext.activateData hr.actions hent hps
  have hactive : ∀ x, (c.activateData st w).data.isActive x
      = (decide (x = st) || w.data.isActive x) := fun _ => by simp
  have hsa : (c.activateData st w).data.isActive s = true := by rw [hactive, hs, Bool.or_true]
  have hin : c.Inside st w (c.activateData st w) :=
    Inside.of_active hactive (fun _ => by simp) fun _ => rfl
  have hmoved : ∀ {w'}, c.Legal none w' → c.Inside s w w' → w'.data.isActive s = true →
      c.Moved s w w' := fun h hin ha =>
    .of_inside h hin ha (by rw [hk]; rfl) fun _ _ hb _ => hb
  have hin' : c.Inside s w (c.activateData st w) := hin.mono (Forest.below_of_parent hstp)
  rcases he with ⟨-, rfl⟩ | ⟨q, b, hq, he⟩
  · exact ⟨hmoved hlegal hin' hsa, hsa⟩
  -- the start state is entered a second time
  have hqst : q = st := by
    have hsome : (w.data.getData s).isSome = true := by
      obtain ⟨d, hd, -⟩ := w.data.exists_of_isActive hs
      simp [hd]
    rw [current_activateData hstp, if_neg (Forest.ne_of_parent (F := c.forest) hstp).symm,
      if_pos ⟨rfl, hsome⟩] at hq
    exact (Option.some.inj hq).symm
  subst hqst
  have hent' : c.Enterable s q (c.activateData q w) := by
    refine ⟨hstp, hsa, fun _ hy hyk hya => ?_, fun hk => by rw [hps] at hk; cases hk⟩
    by_contra hne
    rw [hactive, h.inactive_of_current hnc hcur hy hyk] at hya
    simp [hne] at hya
  have hnk : c.kind q ≠ .concurrentState := by
    rw [hstk]
    simp
  have hent'' := hE (hlegal.mono) hent' (.none fun hk => absurd hk hnk) hu he
  exact ⟨hmoved hent''.legal (hin'.trans hent''.inside) hent''.parent, hent''.parent⟩

include hD

lemma HierarchicalState.dispatch_moved (h : c.Legal none w) (hs : c.Reached s w) (hf : c.Free s w)
    (hk : c.kind s = .hierarchicalState) (hu : c.Orderly w'.trace)
    (hd : Returns (HierarchicalState.dispatch c (c.methods k) s ev) w b w') : c.Moved s w w' := by
  have hlevel := (compatible_level (c := c)).offers (pure_methods c k)
    ((compatible_level (c := c)).methods k) (Set.mem_univ ev)
  have hext := (compatible_extends c).offers (pure_methods c k) ((compatible_extends c).methods k)
    (Set.mem_univ ev)
  have hh : (c.kind s).isHistory = false := by rw [hk]; rfl
  have hnc : c.kind s ≠ .concurrentState := by rw [hk]; decide
  obtain ⟨hsa, p, hp, -⟩ := id hs
  rcases HierarchicalState.returns_dispatch.mp hd with ⟨hi, -⟩ | ⟨-, w₁, w₂, handled, h₁, h₂, h₃⟩
  · rw [hsa] at hi
    cases hi
  -- the rest of the run only adds to what was observed
  have hoff : w₂.Extends (HierarchicalState.offered s ev handled w₂) := by
    cases handled
    · exact World.Adds.refl _
    · exact World.extends_log _ _
  have hu₂ : c.Orderly w₂.trace := by
    rcases h₃ with ⟨-, -, rfl⟩ | ⟨-, -, -, -, rfl⟩ | ⟨-, -, h₃⟩
    · exact hu
    · exact hu
    · refine hu.of_extends (hoff.trans ?_)
      exact keeps_anyM (fun t _ => hext.hierarchical_tryTransition (pure_methods c k) _ t) _ _ _ h₃
  have hu₁ : c.Orderly w₁.trace := hu₂.of_extends (hext.dispatchCurrent s _ _ _ h₂)
  obtain ⟨hm₁, ha₁⟩ := HierarchicalState.enterStart_moved hr hE h hsa hk hu₁ h₁
  have hl₁ := hlevel.enterStart s _ _ _ h₁
  have hm₂ : c.Moved s w₁ w₂ := by
    rcases HierarchicalState.returns_dispatchCurrent.mp h₂ with ⟨-, -, rfl⟩ | ⟨q, hq, hd⟩
    · exact .of_data hm₁.legal rfl
    · obtain ⟨hqs, hreach⟩ := hm₁.legal.reached_current hnc ha₁ hq
      have hqb : c.Below q s := Forest.below_of_parent hqs
      exact (hD hm₁.legal hreach ((hf.of_level hl₁).of_below hqb) hu₂ hd).of_below hqb
  have hl₂ := hlevel.dispatchCurrent s _ _ _ h₂
  have hm := hm₁.trans hl₁ hm₂
  rcases h₃ with ⟨-, -, rfl⟩ | ⟨-, -, -, -, rfl⟩ | ⟨ha₂, -, h₃⟩
  · exact hm
  · exact hm
  have hdata : (HierarchicalState.offered s ev handled w₂).data = w₂.data := by
    cases handled <;> rfl
  have hidle : w₂.Idles (HierarchicalState.offered s ev handled w₂) := by
    cases handled
    · exact World.Adds.refl _
    · exact World.Adds.of_cons rfl rfl
  have hlegal := hm.legal.of_idles hdata hidle
  have hreach : c.Reached s (HierarchicalState.offered s ev handled w₂) :=
    hlegal.reached hh (by rw [hdata]; exact ha₂) hp
  have hfall : c.Moved s w₂ (HierarchicalState.offered s ev handled w₂) := .of_data hlegal hdata
  have hlevel' : w₂.Level (HierarchicalState.offered s ev handled w₂) :=
    .of_plain (hidle.mono fun _ => Obs.isPlain_of_isIdle)
  refine hm.trans (hl₁.trans hl₂) (hfall.trans hlevel' ?_)
  have hstep : ∀ t ∈ c.transitions s, ∀ w w', Returns
    (HierarchicalState.tryTransition c (c.methods k)
      (c.isFinal (w₂.data.current s)) ev t) w false w' → w' = w := by
    intro t _ w w' hx
    rcases (HierarchicalState.returns_tryTransition (pure_methods c k)).mp hx with
      ⟨-, -, hw⟩ | ⟨-, hx⟩
    · exact hw
    · exact Transition.eq_of_execute_false hx
  rcases anyM_eq_or_mem hstep h₃ with hw | ⟨t, ht, hx⟩
  · rw [hw]
    exact .of_data hlegal rfl
  · rcases (HierarchicalState.returns_tryTransition (pure_methods c k)).mp hx with
      ⟨-, hb, -⟩ | ⟨-, hx⟩
    · cases hb
    · exact Transition.execute_moved hr hE hlegal ht hreach hu hx

/-! ### Concurrent states -/

omit hr hE in
/-- The loop of `ConcurrentState::dispatch` over regions. -/
lemma ConcurrentState.dispatchRegions_moved {l : List S} (hl : ∀ y ∈ l, y ∈ c.regions n)
    (h : c.Legal none w) (hf : c.Free n w) (hk : c.kind n = .concurrentState)
    (hu : c.Orderly w'.trace)
    (hd : Returns (ConcurrentState.dispatchRegions (c.methods k) n ev l) w b w') :
    c.Moved n w w' := by
  have hlevel := (compatible_level (c := c)).offers (pure_methods c k)
    ((compatible_level (c := c)).methods k) (Set.mem_univ ev)
  have hext := (compatible_extends c).offers (pure_methods c k) ((compatible_extends c).methods k)
    (Set.mem_univ ev)
  induction l generalizing w b with
  | nil =>
      obtain ⟨-, rfl⟩ := returns_pure.mp hd
      exact .of_data h rfl
  | cons y l ih =>
      obtain ⟨b₁, w₁, b₂, h₁, h₂, -⟩ := ConcurrentState.returns_dispatchRegions_cons.mp hd
      have hu₁ : c.Orderly w₁.trace := hu.of_extends (hext.dispatchRegions n l _ _ _ h₂)
      have hm₁ : c.Moved n w w₁ := by
        rcases ConcurrentState.returns_dispatchRegion.mp h₁ with ⟨-, -, rfl⟩ | ⟨hna, hd⟩
        · exact .of_data h rfl
        · obtain ⟨hyk, hyn⟩ := mem_regions.mp (hl y List.mem_cons_self)
          have hyb : c.Below y n := Forest.below_of_parent hyn
          have hprog : ¬ Obs.inProgress n w.trace := fun hp => hf n hp (Forest.below_refl _)
          have hya := (h.regions hk hna hprog hyn).resolve_right (by simp)
          exact (hD h (h.reached (by rw [hyk]; rfl) hya hyn) (hf.of_below hyb) hu₁ hd).of_below hyb
      have hl₁ := hlevel.dispatchRegion n y _ _ _ h₁
      exact hm₁.trans hl₁ <|
        ih (fun z hz => hl z (List.mem_cons_of_mem y hz)) hm₁.legal (hf.of_level hl₁) h₂

lemma ConcurrentState.dispatch_moved (h : c.Legal none w) (hs : c.Reached n w) (hf : c.Free n w)
    (hk : c.kind n = .concurrentState) (hu : c.Orderly w'.trace)
    (hd : Returns (ConcurrentState.dispatch c (c.methods k) n ev) w b w') : c.Moved n w w' := by
  have hlevel := (compatible_level (c := c)).offers (pure_methods c k)
    ((compatible_level (c := c)).methods k) (Set.mem_univ ev)
  have hext := (compatible_extends c).offers (pure_methods c k) ((compatible_extends c).methods k)
    (Set.mem_univ ev)
  obtain ⟨-, p, hp, -⟩ := hs
  rcases ConcurrentState.returns_dispatch.mp hd with ⟨hd, -⟩ | ⟨w₁, h₁, h₂⟩
  · exact ConcurrentState.dispatchRegions_moved hD (fun _ => id) h hf hk hu hd
  have hu₁ : c.Orderly w₁.trace := hu.of_extends <|
    keeps_anyM (fun t _ => hext.concurrent_tryTransition n t) _ _ _ h₂
  have hm₁ := ConcurrentState.dispatchRegions_moved hD (fun _ => id) h hf hk hu₁ h₁
  refine hm₁.trans (hlevel.dispatchRegions n _ _ _ _ h₁) ?_
  have hstep : ∀ t ∈ c.transitions n, ∀ w w',
      Returns (ConcurrentState.tryTransition c (c.methods k) n ev t) w false w' → w' = w := by
    intro t _ w w' hx
    rcases ConcurrentState.returns_tryTransition.mp hx with ⟨-, -, hw⟩ | ⟨-, -, hx⟩
    · exact hw
    · exact Transition.eq_of_execute_false hx
  rcases anyM_eq_or_mem hstep h₂ with rfl | ⟨t, ht, hx⟩
  · exact .of_data hm₁.legal rfl
  · rcases ConcurrentState.returns_tryTransition.mp hx with ⟨-, hb, -⟩ | ⟨hna, -, hx⟩
    · cases hb
    · exact Transition.execute_moved hr hE hm₁.legal ht
        (hm₁.legal.reached (by rw [hk]; rfl) hna hp) hu hx

/-! ### Entering a concurrent state -/

/-- During the loop of `ConcurrentState::activate`, after the regions in `done`: these are active
but for the one to be entered next, the others are not. -/
structure Chart.Opening (c : Chart S T E P) (n : S) (r : Option S) (w₀ : World S T E P)
    (done : List S)
    (w : World S T E P) : Prop where
  legal : c.Legal none w
  level : w₀.Level w
  inside : c.Inside n w₀ w
  active : w.data.isActive n = true
  stateset : w.data.stateset n = r.toList
  open_ : ∀ y ∈ done, y ∉ r → w.data.isActive y = true
  closed : ∀ y, c.context y = some n → y ∉ done ∨ y ∈ r → w.data.isActive y = false

omit hr hE hD in
/-- A change inside a region that is inactive so far, after which the region is active. -/
lemma Chart.Opening.extend {w₀ : World S T E P} {done : List S} (h : c.Opening n r w₀ done w)
    (hx : c.context x = some n) (hdone : ∀ y ∈ done, c.context y = some n) (hxd : x ∉ done)
    (hxr : x ∉ r) (hlegal : c.Legal none w') (hlevel : w.Level w') (hin : c.Inside x w w')
    (ha : w'.data.isActive x = true) : c.Opening n r w₀ (done ++ [x]) w' := by
  have hn := hin n (Forest.not_below_of_parent (F := c.forest) hx)
  have hother : ∀ y, c.context y = some n → y ≠ x → w'.data.isActive y = w.data.isActive y :=
    fun y hy hyx => (hin y fun hb => hyx <|
      Forest.eq_of_below_children (F := c.forest) hy hx (Forest.below_refl _) hb).1
  refine ⟨hlegal, h.level.trans hlevel, h.inside.trans (hin.mono (Forest.below_of_parent hx)),
    hn.1.trans h.active, hn.2.1.trans h.stateset, fun y hy hyr => ?_, fun y hy hyd => ?_⟩
  · rcases List.mem_append.mp hy with hy | hy
    · have hyx : y ≠ x := fun hyx => hxd (hyx ▸ hy)
      exact (hother y (hdone y hy) hyx).trans (h.open_ y hy hyr)
    · rw [List.mem_singleton.mp hy]
      exact ha
  · have hyx : y ≠ x := by
      rintro rfl
      exact hyd.elim (fun hyd => hyd (by simp)) hxr
    refine (hother y hy hyx).trans (h.closed y hy (hyd.imp (fun hyd hy => ?_) id))
    exact hyd (List.mem_append_left _ hy)

omit hr in
/-- One round of the loop over the regions. -/
lemma ConcurrentState.enterRegion_opening {w₀ : World S T E P} {done : List S}
    (h : c.Opening n r w₀ done w) (hk : c.kind n = .concurrentState)
    (hp : Obs.inProgress n w₀.trace) (hx : x ∈ c.regions n)
    (hdone : ∀ y ∈ done, c.context y = some n) (hxd : x ∉ done) (hu : c.Orderly w'.trace)
    (he : Returns (ConcurrentState.enterRegion (c.methods k) n x) w u w') :
    c.Opening n r w₀ (done ++ [x]) w' := by
  obtain ⟨hxk, hxn⟩ := mem_regions.mp hx
  have hxh : (c.kind x).isHistory = false := by rw [hxk]; rfl
  have hxc : c.kind x ≠ .concurrentState := by rw [hxk]; decide
  have hlevel := (compatible_level (c := c)).methods k
  have hext := (compatible_extends c).methods k
  have henter : c.Enterable n x w := ⟨hxn, h.active, fun hk' => absurd hk hk', fun _ =>
    h.closed x hxn (Or.inl hxd)⟩
  have hmem : x ∈ w.data.stateset n ↔ x ∈ r := by
    rw [h.stateset, Option.mem_toList]
    rfl
  have hnext : x ∉ r → ∀ {b w₁}, c.Orderly w₁.trace →
      Returns ((c.methods k).activate x) w b w₁ →
      c.Entered n x none w w₁ ∧ c.Opening n r w₀ (done ++ [x]) w₁ := by
    intro hxr b w₁ hu₁ ha
    have hent := hE h.legal.mono henter (.none fun hk => absurd hk hxc) hu₁ ha
    obtain ⟨hxa, hin⟩ := hent.active hxh
    exact ⟨hent, h.extend hxn hdone hxd hxr hent.legal (hlevel.activate x _ _ _ ha) hin hxa⟩
  rcases ConcurrentState.returns_enterRegion.mp he with
    ⟨hxs, rfl⟩ | ⟨hxs, ha⟩ | ⟨hxs, w₁, b, ha, hd⟩
  · -- the region that comes next is left out
    refine ⟨h.legal, h.level, h.inside, h.active, h.stateset, fun y hy hyr => ?_,
      fun y hy hyd => ?_⟩
    · rcases List.mem_append.mp hy with hy | hy
      · exact h.open_ y hy hyr
      · rw [List.mem_singleton.mp hy] at hyr
        exact absurd (hmem.mp hxs) hyr
    · exact h.closed y hy (hyd.imp (fun hyd hy => hyd (List.mem_append_left _ hy)) id)
  · exact (hnext (hmem.not.mp hxs) hu ha).2
  · have hu₁ : c.Orderly w₁.trace := hu.of_extends (hext.dispatch x none trivial _ _ _ hd)
    obtain ⟨hent, hopen⟩ := hnext (hmem.not.mp hxs) hu₁ ha
    have hxa := (hent.active hxh).1
    -- nothing is being entered inside the region, which is still empty
    have hfree : c.Free x w₁ := by
      intro m hm hmx
      obtain ⟨hmk, hma⟩ := hopen.legal.progress hm
      have hne : m ≠ x := by
        rintro rfl
        exact hxc hmk
      rw [hopen.legal.inactive_of_children (fun y hy hyx => hopen.legal.inactive_of_current hxc
        (hent.empty hxk) hyx hy) (by rw [hmk]; rfl) hmx hne] at hma
      cases hma
    have hmoved := hD hopen.legal (hopen.legal.reached hxh hxa hxn) hfree hu hd
    obtain ⟨hin, hxa'⟩ := hmoved.inside hxn hk (Forest.below_refl _)
      (hopen.level.inProgress.mpr hp) hxa
    obtain ⟨hxa₀, hin₀⟩ := hent.active hxh
    exact h.extend hxn hdone hxd (hmem.not.mp hxs) hmoved.legal
      ((hlevel.activate x _ _ _ ha).trans (hlevel.dispatch x none trivial _ _ _ hd))
      (hin₀.trans hin) hxa'

lemma ConcurrentState.activate_entered (h : c.Legal (some n) w) (he : c.Enterable p n w)
    (hreg : c.Registered n r w) (hk : c.kind n = .concurrentState) (hu : c.Orderly w'.trace)
    (ha : Returns (ConcurrentState.activate c (c.methods k) n) w b w') :
    c.Entered p n r w w' := by
  have hps : (c.kind n).isPseudo = false := by rw [hk]; rfl
  have hi := he.fresh hps
  have hext := (compatible_extends c).methods k
  obtain ⟨hact, -⟩ | ⟨-, -, ha⟩ := ConcurrentState.returns_activate.mp ha
  · rw [hi] at hact
    cases hact
  have hactive : ∀ x, (c.greet n (c.arrive n w)).data.isActive x
      = (decide (x = n) || w.data.isActive x) := fun x => by
    rw [hr.actions.data_greet, isActive_arrive]
  have hna : (c.greet n (c.arrive n w)).data.isActive n = true := by simp [hactive]
  rcases ConcurrentState.returns_enterRegions.mp ha with ⟨hnone, -⟩ | ⟨-, w₁, h₁, rfl⟩
  · obtain ⟨d, hd, -⟩ := Metadata.exists_of_isActive hna
    rw [hd] at hnone
    cases hnone
  -- the entry begins
  have hnot : ¬ Obs.inProgress n w.trace := fun hp => by
    rw [(h.progress hp).2] at hi
    cases hi
  have hlev := level_greet hps hi
  have hbegun : Obs.inProgress n ((c.greet n (c.arrive n w)).log (.entering n)).trace := by
    have := hlev n
    simp only [Obs.inProgress, not_not] at hnot
    simp only [Obs.inProgress, World.trace_log, List.countP_cons, Obs.isEntering, Obs.isEntered,
      decide_true, ↓reduceIte, Bool.false_eq_true]
    omega
  have hother : ∀ m, m ≠ n → (Obs.inProgress m ((c.greet n (c.arrive n w)).log (.entering n)).trace
      ↔ Obs.inProgress m w.trace) := by
    intro m hm
    refine Iff.trans ?_ hlev.inProgress
    simp [Obs.inProgress, Obs.isEntering, Obs.isEntered, hm.symm]
  have hlegal : c.Legal none ((c.greet n (c.arrive n w)).log (.entering n)) := by
    refine h.arrive hr.actions he hps rfl
      (h.toRecorded.greet hr.actions hps he.context he.parent hi).log_entering
      ((extends_greet hps hi).trans (World.extends_log _ _)) (fun m hm => ?_) (fun m hm => ?_)
        fun _ => hbegun
    · by_cases hmn : m = n
      · exact Or.inr ⟨hmn, hk⟩
      · exact Or.inl ((hother m hmn).mp hm)
    · by_cases hmn : m = n
      · exact absurd (hmn ▸ hm) hnot
      · exact (hother m hmn).mpr hm
  have hset : ∀ x, (c.greet n (c.arrive n w)).data.stateset x = w.data.stateset x := fun x => by
    rw [hr.actions.data_greet, stateset_arrive]
  have hin : c.Inside n w ((c.greet n (c.arrive n w)).log (.entering n)) :=
    Inside.of_active hactive hset fun x => by
      rw [World.data_log, hr.actions.data_greet, current_arrive]
  have hchild : ∀ y, c.context y = some n → w.data.isActive y = false := fun y hy =>
    h.toCoherent.inactive_child hi hy (by rw [hr.regions hy hk]; rfl)
  have hstart : c.Opening n r ((c.greet n (c.arrive n w)).log (.entering n)) []
      ((c.greet n (c.arrive n w)).log (.entering n)) := by
    refine ⟨hlegal, fun _ => Nat.add_comm _ _ ▸ rfl, Inside.of_data rfl, hna,
      (hset n).trans (hreg.stateset hk), by simp, fun y hy _ => ?_⟩
    rw [World.data_log, hactive, hchild y hy]
    simp [Forest.ne_of_parent (F := c.forest) hy]
  -- region after region is entered
  have hu₁ : c.Orderly w₁.trace := hu.of_extends (World.extends_log _ _)
  have hloop : c.Orderly w₁.trace →
      c.Opening n r ((c.greet n (c.arrive n w)).log (.entering n)) (c.regions n) w₁ := by
    refine forM_induction (fun done w₁ => c.Orderly w₁.trace → c.Opening n r _ done w₁)
      (fun done x rest hl w₁ w₂ hw hx hu₂ => ?_) h₁ fun _ => hstart
    have hnodup : (done ++ x :: rest).Nodup := hl ▸ nodup_regions
    refine ConcurrentState.enterRegion_opening hE hD
      (hw (hu₂.of_extends ((compatible_extends c).enterRegion hext.toEnter n x _ _ _ hx))) hk hbegun
      (hl ▸ by simp) (fun y hy => (mem_regions.mp (hl ▸ List.mem_append_left _ hy)).2) ?_ hu₂ hx
    exact fun hxd => (List.nodup_append.mp hnodup).2.2 x hxd x List.mem_cons_self rfl
  have hopen := hloop hu₁
  have hended : ¬ Obs.inProgress n (Obs.entered n :: w₁.trace) := by
    have h₁ := hopen.level n
    have h₂ := hlev n
    simp only [Obs.inProgress, not_not] at hnot
    simp only [Obs.inProgress, World.trace_log, List.countP_cons, Obs.isEntering, Obs.isEntered,
      decide_true, ↓reduceIte, Bool.false_eq_true] at h₁ ⊢
    omega
  have hall : ∀ y, c.context y = some n → w₁.data.isActive y = true ∨ y ∈ r := by
    intro y hy
    by_cases hyr : y ∈ r
    · exact Or.inr hyr
    · exact Or.inl (hopen.open_ y (mem_regions.mpr ⟨hr.regions hy hk, hy⟩) hyr)
  have hinn : c.Inside n w (w₁.log (.entered n)) := (hin.trans hopen.inside).congr rfl rfl
  have hpn : c.Below n p := Forest.below_of_parent he.context
  refine ⟨hopen.legal.close hall hended, ?_, hinn.mono hpn, fun _ => ⟨hopen.active, hinn⟩,
    fun hk' => ?_, fun y hy => ?_, .of_not (by rw [hk]; rfl)⟩
  · rw [(hinn p (Forest.not_below_of_parent (F := c.forest) he.context)).1]
    exact he.parent
  · rw [hk] at hk'
    cases hk'
  · have hyn := (hreg.region y hy).2
    rw [hchild y hyn]
    exact hopen.closed y hyn (Or.inr hy)

end Dispatching

/-! ### Virtual dispatch -/

lemma step_activates (hr : c.Standard) (hE : c.Activates (c.methods k))
    (hD : c.Dispatches (c.methods k)) :
    c.Activates (c.methods (k + 1)) := by
  intro p s r w b w' h he hreg hu ha
  simp only [Chart.methods, Chart.step] at ha
  cases hk : c.kind s <;> simp only [hk] at ha
  case concurrentState => exact ConcurrentState.activate_entered hr hE hD h he hreg hk hu ha
  case pseudoState =>
    exact PseudoState.activate_entered hr.actions hE ((compatible_extends c).methods k) h he hreg
      (by rw [hk]; rfl) hu ha
  all_goals
    exact State.activate_entered hr.actions h he hreg (by rw [hk]; rfl) (by rw [hk]; decide) ha

lemma step_dispatches (hr : c.Standard) (hE : c.Activates (c.methods k))
    (hD : c.Dispatches (c.methods k)) : c.Dispatches (c.methods (k + 1)) := by
  intro s ev w b w' h hs hf hu hd
  simp only [Chart.methods, Chart.step] at hd
  cases hk : c.kind s <;> simp only [hk] at hd
  case hierarchicalState => exact HierarchicalState.dispatch_moved hr hE hD h hs hf hk hu hd
  case concurrentState => exact ConcurrentState.dispatch_moved hr hE hD h hs hf hk hu hd
  case pseudoState => exact PseudoState.dispatch_moved hr hE h hs hu hd
  all_goals exact State.dispatch_moved hr hE h hs hu hd

/-- **Legal methods.** `activate` and `dispatch` keep configurations legal in every orderly run. -/
theorem legal_methods (hr : c.Standard) : ∀ k, c.Activates (c.methods k)
    ∧ c.Dispatches (c.methods k)
  | 0 => ⟨fun _ _ _ _ ha => absurd ha (by simp [Chart.methods]),
      fun _ _ _ _ hd => absurd hd (by simp [Chart.methods])⟩
  | k + 1 => by
      obtain ⟨hE, hD⟩ := legal_methods hr k
      exact ⟨step_activates hr hE hD, step_dispatches hr hE hD⟩

end CppStatecharts
