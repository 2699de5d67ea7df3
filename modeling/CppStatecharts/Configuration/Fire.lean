import CppStatecharts.Configuration.Entry

/-!
The firing of a transition in a legal configuration.

* `Chart.Regular`: the charts whose transitions respect the tree of states.
* `Chart.Moved`: what a dispatch makes of a legal configuration. While a concurrent state is being
  entered, a dispatch inside one of its regions stays there, unless it leaves the concurrent state.
* `Chart.Exchanged`, `Transition.fire_beside`: the firing of a self-transition, or of one between
  states beside each other.
* `Transition.fire_down`: the firing of a transition down a vacant way.
* `Transition.fire_moved`: the firing of a proper transition.
-/

namespace CppStatecharts

variable {S T E P : Type} [DecidableEq S] {c : Chart S T E P}
variable {w w₁ w₂ w' : World S T E P} {s x y p q d e m n : S} {r : Option S} {t : T} {k : ℕ}
variable {b : Bool} {u : PUnit} {ev : Option E}

namespace Chart

/-- Regions are hierarchical, there is no fork, and transitions lead neither up nor down the tree,
nor from one region of a concurrent state to another; those of a start state stay strictly inside
its context. Actions leave the metadata alone. -/
structure Regular (c : Chart S T E P) : Prop where
  regions : ∀ {s n}, c.context s = some n → c.kind n = .concurrentState →
    c.kind s = .hierarchicalState
  noFork : ∀ s, c.kind s ≠ .pseudoState .fork
  apart : ∀ t ∈ c.ownedTransitions, c.source t ≠ c.target t →
    ¬ c.Below (c.source t) (c.target t) ∧ ¬ c.Below (c.target t) (c.source t)
  sameRegion : ∀ t ∈ c.ownedTransitions, ∀ {n r r'}, c.kind n = .concurrentState →
    c.context r = some n → c.context r' = some n → c.Below (c.source t) r →
    c.Below (c.target t) r' → r = r'
  start : ∀ t ∈ c.ownedTransitions, ∀ {p}, c.kind (c.source t) = .pseudoState .start →
    c.context (c.source t) = some p → c.Below (c.target t) p ∧ c.target t ≠ p
  actions : c.ActionsKeepData

omit [DecidableEq S] in
lemma Regular.standard (h : c.Regular) : c.Standard := ⟨h.regions, h.actions⟩

/-- In a regular chart, all that may go wrong is that a concurrent state is left while it is being
entered. -/
lemma Regular.orderly (h : c.Regular) {l : List (Obs S T)} (hl : Obs.Unbroken l) : c.Orderly l where
  unbroken := hl
  proper {t m} _ ht := by
    refine ⟨h.noFork _, Or.inr ?_⟩
    by_cases hst : c.source t = c.target t
    · exact Or.inl hst
    · obtain ⟨hab, hba⟩ := h.apart t ht hst
      exact Or.inr ⟨hab, Or.inl ⟨hba, h.sameRegion t ht⟩⟩
  noFork _ := h.noFork _

/-- The state is active, and the current state of its active context unless that is concurrent. -/
def Reached (c : Chart S T E P) (s : S) (w : World S T E P) : Prop :=
  w.data.isActive s = true ∧ ∃ p, c.context s = some p ∧ w.data.isActive p = true
    ∧ (c.kind p ≠ .concurrentState → w.data.current p = some s)

/-- No entry is in progress at `s` or inside. -/
def Free (c : Chart S T E P) (s : S) (w : World S T E P) : Prop :=
  ∀ n, Obs.inProgress n w.trace → ¬ c.Below n s

/-- What a dispatch to `s` makes of a legal configuration: another one, and inside a region of a
concurrent state that is being entered nothing but this region changes. -/
structure Moved (c : Chart S T E P) (s : S) (w w' : World S T E P) : Prop where
  legal : c.Legal none w'
  inside : ∀ {n x}, c.context x = some n → c.kind n = .concurrentState → c.Below s x →
    Obs.inProgress n w.trace → w.data.isActive x = true →
    c.Inside x w w' ∧ w'.data.isActive x = true

/-- The method `dispatch` moves between legal configurations. -/
def Dispatches (c : Chart S T E P) (v : Methods S T E P) : Prop := ∀ {s ev w b w'},
  c.Legal none w → c.Reached s w → c.Free s w → c.Orderly w'.trace →
    Returns (v.dispatch s ev) w b w' → c.Moved s w w'

lemma Moved.of_data (h : c.Legal none w') (hd : w'.data = w.data) : c.Moved s w w' :=
  ⟨h, fun _ _ _ _ ha => ⟨Inside.of_data hd, by rwa [hd]⟩⟩

lemma Moved.trans (h : c.Moved s w w₁) (hl : w.Level w₁) (h' : c.Moved s w₁ w') :
    c.Moved s w w' := by
  refine ⟨h'.legal, fun hx hn hs hp ha => ?_⟩
  obtain ⟨hin, ha₁⟩ := h.inside hx hn hs hp ha
  obtain ⟨hin', ha'⟩ := h'.inside hx hn hs (hl.inProgress.mpr hp) ha₁
  exact ⟨hin.trans hin', ha'⟩

lemma Moved.of_below (h : c.Moved q w w') (hq : c.Below q s) : c.Moved s w w' :=
  ⟨h.legal, fun hx hn hs => h.inside hx hn (Forest.below_trans hq hs)⟩

/-- A change inside a state that stays active and lies inside every such region. -/
lemma Moved.of_inside (h : c.Legal none w') (hin : c.Inside m w w')
    (ha : w'.data.isActive m = true) (hm : (c.kind m).isHistory = false)
    (hb : ∀ {n x}, c.context x = some n → c.kind n = .concurrentState → c.Below s x →
      Obs.inProgress n w.trace → c.Below m x) : c.Moved s w w' :=
  ⟨h, fun hx hn hs hp _ =>
    ⟨hin.mono (hb hx hn hs hp), h.active_of_below hm ha (hb hx hn hs hp)⟩⟩

lemma Free.of_level (h : c.Free s w) (hl : w.Level w') : c.Free s w' := fun n hn =>
  h n (hl.inProgress.mp hn)

lemma Free.of_below (h : c.Free s w) (hq : c.Below q s) : c.Free q w := fun n hn hb =>
  h n hn (Forest.below_trans hb hq)

/-- An active state other than a history is reached. -/
lemma Legal.reached (h : c.Legal none w) (hs : (c.kind s).isHistory = false)
    (ha : w.data.isActive s = true) (hp : c.context s = some p) : c.Reached s w :=
  ⟨ha, p, hp, h.upward hs ha hp, h.single hs ha hp⟩

/-- The current state of an active state that is not concurrent is reached. -/
lemma Legal.reached_current (h : c.Legal none w) (hp : c.kind p ≠ .concurrentState)
    (ha : w.data.isActive p = true) (hq : w.data.current p = some q) :
    c.context q = some p ∧ c.Reached q w := by
  have hqp := h.links.pointers p q hq
  refine ⟨hqp, (h.live hp ha hq).resolve_right (by simp), p, hqp, ha, fun _ => hq⟩

/-- The states above a reached state are active and current. -/
lemma Reached.above (h : c.Reached s w) (hw : c.Coherent w) (hd : c.context d = some m)
    (hs : c.Below s d) : w.data.isActive m = true
      ∧ (c.kind m ≠ .concurrentState → w.data.current m = some d) := by
  obtain ⟨ha, p, hp, hpa, hcur⟩ := h
  by_cases hsd : s = d
  · subst hsd
    obtain rfl := Option.some.inj (hp.symm.trans hd)
    exact ⟨hpa, hcur⟩
  · have hpd : c.Below p d := Forest.below_parent (F := c.forest) hs hsd hp
    have hdk := isHistory_of_below (isHistory_of_context hp) hpd
    have hda := hw.active_of_below (isHistory_of_context hp) hpa hpd
    exact ⟨hw.upward hdk hda hd, hw.single hdk hda hd⟩

/-- What the exits up to a child `d` of `m` and the entries from a child `e` down to `y` make of a
legal configuration. -/
structure Exchanged (c : Chart S T E P) (m d e y : S) (w w' : World S T E P) : Prop where
  legal : c.Legal none w'
  parent : w'.data.isActive m = true
  inside : c.Inside m w w'
  self : d = e → (c.kind e).isHistory = false → w'.data.isActive e = true ∧ c.Inside e w w'
  left : ∀ n, Obs.inProgress n w.trace → ¬ c.Below n d
  target : (c.kind y).isHistory = false → w'.data.isActive y = true
  empty : c.kind y = .hierarchicalState → w'.data.current y = none
  recovers : c.Recovers y w'.data
  beside : (c.kind e).isHistory = false → ∀ x, ¬ c.Below x d → ¬ c.Below x e →
    w'.data.isActive x = w.data.isActive x ∧ (x ≠ m → w'.data.current x = w.data.current x)

omit [DecidableEq S] in
/-- The state to be left on the way to `y` is the one where the ways part. -/
lemma eq_of_parting {d' m' : S} (hd : c.context d = some m) (he : c.context e = some m)
    (hxd : c.Below x d) (hye : c.Below y e) (hde : d ≠ e) (hd' : c.context d' = some m')
    (hxd' : c.Below x d') (hym' : c.Below y m') (hyd' : ¬ c.Below y d') : d' = d := by
  by_contra hne
  rcases Forest.below_total hxd hxd' with hb | hb
  · have hmd' : c.Below m d' := Forest.below_parent (F := c.forest) hb (Ne.symm hne) hd
    exact hyd' (Forest.below_trans (Forest.below_trans hye (Forest.below_of_parent he)) hmd')
  · have hmd : c.Below m' d := Forest.below_parent (F := c.forest) hb hne hd'
    exact hde (Forest.eq_of_below_children (F := c.forest) hd he (Forest.below_trans hym' hmd) hye)

/-- An exchange that leads from the source to the target of `t` is what the firing of `t` has to
do. -/
lemma Exchanged.carried {a : Metadata S} (h : c.Exchanged m d e (c.target t) w w')
    (ha : c.Connected a) (hs : a.isActive (c.source t) = true) (hd : c.context d = some m)
    (he : c.context e = some m)
    (hsd : c.Below (c.source t) d) (hte : c.Below (c.target t) e)
    (hconc : c.kind m = .concurrentState → d = e) (hde : d = e → c.source t = c.target t) :
    c.Carried t a w'.data where
  connected := ha
  settled := h.legal.connected
  recovers _ := h.recovers
  source := hs
  target _ := h.target
  left _ htk {m' d' x} hd' hsd' htm' htd' hx hxd' := by
    have hne : d ≠ e := fun hde' => htd' (hde hde' ▸ hsd')
    obtain rfl := eq_of_parting hd he hsd hte hne hd' hsd' htm' htd'
    have hek := isHistory_of_below htk hte
    have hea := h.legal.active_of_below htk (h.target htk) hte
    have hmk : c.kind m ≠ .concurrentState := fun hk => hne (hconc hk)
    by_contra hxa
    have hda := h.legal.active_of_below hx (by simpa using hxa) hxd'
    have hdk := isHistory_of_below hx hxd'
    exact hne
      (Option.some.inj ((h.legal.single hdk hda hd hmk).symm.trans (h.legal.single hek hea he hmk)))

end Chart

open Chart

/-! ### Transitions -/

/-- The exits below `m`, the action and the entries of a transition. -/
lemma Transition.exchange (hr : c.Standard) (hE : c.Activates (c.methods k)) {l l' : List S}
    (h : c.Legal none w) (hd : c.context d = some m) (hconc : c.kind m = .concurrentState → d = e)
    (hm : w.data.isActive m = true) (hcur : c.kind m ≠ .concurrentState → w.data.current m = some d)
    (hl : ∀ y ∈ l, c.Below y d) (hmem : d ∈ l) (hl' : c.forest.Descends m (e :: l') y)
    (hu : c.Orderly w'.trace) (h₁ : Returns (l.forM (c.methods k).deactivate) w ⟨⟩ w₁)
    (h₂ : Returns (Transition.activateAll c (c.methods k) (e :: l'))
      (w₁.perform (.effect t) (c.action t)) ⟨⟩ w') :
    c.Exchanged m d e y w w' := by
  have hext := (compatible_extends c).methods k
  have he : c.context e = some m := hl'.1
  obtain ⟨hf, hout⟩ := exits_fades hr.actions hr.regions h.toCoherent hd hl hmem h₁
  have hdata : (w₁.perform (.effect t) (c.action t)).data = w₁.data := hr.actions.data_effect
  have hidle : w₁.Idles (w₁.perform (.effect t) (c.action t)) := World.adds_perform rfl
  have hu₁ : Obs.Unbroken w₁.trace := (hu.of_extends <|
    hidle.extends.trans ((compatible_extends c).activateAll hext.toEnter _ _ _ _ h₂)).unbroken
  have hlegal := h.of_fades hf hout hu₁ hd he hconc
  have henter : c.Enterable m e w₁ := Enterable.of_fades h hf hout hd he hm hcur hconc
  have hclear : c.kind e = .concurrentState → w₁.data.stateset e = [] := fun hk =>
    Metadata.stateset_of_hasData_eq_false <|
      hf.clear hk (fun hi => h.clear hk hi (by simp)) (henter.fresh (by rw [hk]; rfl))
  obtain ⟨hlegal', hma, hin, hself, hend⟩ := Transition.activateAll_entered hr hE hext hl'
    (hlegal.of_idles hdata hidle) (henter.of_active fun _ => by rw [hdata])
    (by rwa [hdata]) hu h₂
  have hin₁ : c.Inside d w (w₁.perform (.effect t) (c.action t)) :=
    hf.to_inside.trans (Inside.of_data hdata)
  refine ⟨hlegal', hma, (hin₁.mono (Forest.below_of_parent hd)).trans hin, fun hde hk => ?_,
    fun n hn hb => ?_, hend.1, hend.2.1, hend.2.2, fun hk x hxd hxe => ?_⟩
  · subst hde
    exact ⟨(hself hk).1, hin₁.trans (hself hk).2⟩
  · -- a state inside `d` was left, but an entry in progress is not
    have hna := h.alive hf hu₁ hn
    rw [hout n hb (by rw [(h.progress hn).1]; rfl)] at hna
    cases hna
  · obtain ⟨ha, -, hcur⟩ := (hself hk).2 x hxe
    obtain ⟨ha₁, hcur₁, -⟩ := hf.frame hxd
    rw [hdata] at ha hcur
    exact ⟨ha.trans ha₁, fun hxm =>
      (hcur fun hem => hxm (Option.some.inj (hem.symm.trans he))).trans hcur₁⟩

omit [DecidableEq S] in
/-- Only the data matters for what was changed inside a state. -/
lemma Chart.Inside.congr {w'' : World S T E P} (h : c.Inside s w₁ w₂) (h₁ : w₁.data = w.data)
    (h₂ : w₂.data = w''.data) : c.Inside s w w'' := fun x hx => by
  rw [← h₁, ← h₂]
  exact h x hx

/-- A state that is active already is not entered again, pseudo-states apart. -/
lemma eq_of_activate_active (hs : (c.kind s).isPseudo = false) (ha : w.data.isActive s = true)
    (h : Returns ((c.methods k).activate s) w b w') : w' = w := by
  cases k with
  | zero => exact absurd h (by simp [Chart.methods])
  | succ k =>
      have hstate : ∀ {b}, Returns (State.activate c s) w b w' → w' = w ∧ b = false := by
        intro b h
        rcases State.returns_activate.mp h with ⟨-, hb, hw⟩ | ⟨hi, -⟩
        · exact ⟨hw, hb⟩
        · rw [ha] at hi
          cases hi
      simp only [Chart.methods, Chart.step] at h
      cases hk : c.kind s <;> simp only [hk] at h
      case concurrentState =>
        rcases ConcurrentState.returns_activate.mp h with ⟨-, -, hw⟩ | ⟨hi, -⟩
        · exact hw
        · rw [ha] at hi
          cases hi
      case pseudoState =>
        rw [hk] at hs
        cases hs
      all_goals exact (hstate h).1

/-- The entries of a transition that leads down a vacant way from the active state `p`. -/
lemma Transition.activateAll_down (hr : c.Standard) (hE : c.Activates (c.methods k)) {l : List S}
    (hl : c.forest.Descends p l y) (hne : l ≠ []) (h : c.Legal none w)
    (hp : w.data.isActive p = true) (hv : c.Vacant p y w.data) (hu : c.Orderly w'.trace)
    (hact : Returns (Transition.activateAll c (c.methods k) l) w u w') :
    c.Legal none w' ∧ w'.data.isActive p = true ∧ c.Inside p w w'
      ∧ ((c.kind y).isHistory = false → w'.data.isActive y = true) ∧ c.Recovers y w'.data := by
  have hext := (compatible_extends c).methods k
  induction l generalizing p w with
  | nil => exact absurd rfl hne
  | cons x l ih =>
      have hxp : c.context x = some p := hl.1
      have hyx : c.Below y x := hl.2.below
      by_cases hx : (c.kind x).isPseudo = true ∨ w.data.isActive x = false
      · -- from `x` on, everything is entered
        have hent : c.Enterable p x w := by
          refine ⟨hxp, hp, fun hk hz hzk hza => hv hyx hxp (Forest.below_refl _) hk hz hzk hza,
            fun hk => hx.resolve_left ?_⟩
          rw [hk]
          decide
        have hclear : c.kind x = .concurrentState → w.data.stateset x = [] := fun hk =>
          Metadata.stateset_of_hasData_eq_false <|
            h.clear hk (hent.fresh (by rw [hk]; rfl)) (by simp)
        obtain ⟨hlegal, hpa, hin, -, hend, -, hrec⟩ :=
          Transition.activateAll_entered hr hE hext hl h.mono hent hclear hu hact
        exact ⟨hlegal, hpa, hin, hend, hrec⟩
      · -- `x` is active, and stays as it is
        simp only [not_or, Bool.not_eq_true, Bool.not_eq_false] at hx
        obtain ⟨hxk, hxa⟩ := hx
        cases l with
        | nil =>
            obtain ⟨b, w₁, h₁, h₂⟩ := returns_bind.mp hact
            obtain ⟨-, rfl⟩ := returns_pure.mp h₂
            obtain rfl := eq_of_activate_active hxk hxa h₁
            obtain rfl : y = x := hl.2
            exact ⟨h, hp, Inside.of_data rfl, fun _ => hxa,
              .of_not (StateKind.isHistory_eq_false_of_isPseudo hxk)⟩
        | cons z l =>
            have hh := StateKind.isHistory_eq_false_of_isPseudo hxk
            obtain ⟨b, w₁, h₁, h₂⟩ := Transition.returns_activateAll_cons.mp hact
            have hactive : ∀ q, (c.announce x z w).data.isActive q = w.data.isActive q :=
              fun q => by
              unfold Chart.announce
              split
              · exact isActive_registerRegion
              · rfl
            have hlegal : c.Legal none (c.announce x z w) := by
              unfold Chart.announce
              split
              · exact (h.mono.registerRegion hr.actions ‹_›).of_active hh
                  (isActive_registerRegion.trans hxa)
              · exact h
            have hin : c.Inside x w (c.announce x z w) := by
              unfold Chart.announce
              split
              · intro q hq
                refine ⟨isActive_registerRegion, ?_, fun _ => current_registerRegion⟩
                rw [stateset_registerRegion, if_neg]
                rintro ⟨rfl, -⟩
                exact hq (Forest.below_refl _)
              · exact Inside.of_data rfl
            obtain rfl := eq_of_activate_active hxk ((hactive x).trans hxa) h₁
            obtain ⟨hlegal', hxa', hin', hend⟩ := ih hl.2 (by simp) hlegal ((hactive x).trans hxa)
              (fun hb hq hqx hk hz hzk hza => hv hb hq
                (Forest.below_trans hqx (Forest.below_of_parent hxp)) hk hz hzk
                ((hactive _).symm.trans hza)) h₂
            exact ⟨hlegal', hlegal'.upward hh hxa' hxp,
              (hin.trans hin').mono (Forest.below_of_parent hxp), hend⟩

section Firing

variable (hr : c.Standard) (hE : c.Activates (c.methods k)) (h : c.Legal none w)
variable (hs : c.Reached (c.source t) w) (hu : c.Orderly w'.trace)
variable (hf : Returns (Transition.fire c (c.methods k) t) w u w')

include hr hE h hs hu hf

/-- The firing of a transition whose lists lead up to a child `d` of `m` and down from a child
`e`. -/
lemma Transition.fire_beside {l l' : List S} (hint : c.internal t = false)
    (hlist : c.calculateStateSet (c.source t) (c.target t) = ((d :: l).reverse, e :: l'))
    (hd : c.forest.Descends m (d :: l) (c.source t))
    (he : c.forest.Descends m (e :: l') (c.target t)) (hconc : c.kind m = .concurrentState → d = e)
    (hde : d = e → c.source t = c.target t) : c.Exchanged m d e (c.target t) w w' := by
  obtain ⟨w₁, w₂, h₁, h₂, rfl⟩ := Transition.returns_fire.mp hf
  have hw : c.Legal none (w.log (.fire t w.data)) := h.of_idles rfl (World.Adds.of_cons rfl rfl)
  have hu₂ : c.Orderly w₂.trace := hu.of_extends (World.extends_log _ _)
  simp only [Chart.deactivates, hint, Bool.false_eq_true, ↓reduceIte, hlist] at h₁
  simp only [Chart.activates, hint, Bool.false_eq_true, ↓reduceIte, hlist] at h₂
  have hsd := (Forest.Descends.below_head hd d List.mem_cons_self).2
  obtain ⟨hm, hcur⟩ := hs.above h.toCoherent hd.1 hsd
  have hex := Transition.exchange hr hE hw hd.1 hconc hm hcur
    (fun y hy => (Forest.Descends.below_head hd y (List.mem_reverse.mp hy)).1)
      (by simp) he hu₂ h₁ h₂
  have hte := (Forest.Descends.below_head he e List.mem_cons_self).2
  refine ⟨hex.legal.log_fired (hex.carried h.connected hs.1 hd.1 he.1 hsd hte hconc hde),
    hex.parent,
    hex.inside.congr rfl rfl,
    fun hde hk => ?_, fun n hn => hex.left n ?_, hex.target, hex.empty, hex.recovers, hex.beside⟩
  · exact ⟨(hex.self hde hk).1, (hex.self hde hk).2.congr rfl rfl⟩
  · exact (World.Level.of_plain (World.Adds.of_cons rfl rfl)).inProgress.mpr hn

/-- The firing of a transition down a vacant way. -/
lemma Transition.fire_down (hint : c.internal t = false) (hst : c.source t ≠ c.target t)
    (hb : c.Below (c.target t) (c.source t)) (hv : c.Vacant (c.source t) (c.target t) w.data) :
    c.Legal none w' ∧ w'.data.isActive (c.source t) = true ∧ c.Inside (c.source t) w w'
      ∧ ((c.kind (c.target t)).isHistory = false → w'.data.isActive (c.target t) = true) := by
  obtain ⟨w₁, w₂, h₁, h₂, rfl⟩ := Transition.returns_fire.mp hf
  obtain ⟨hsa, p, hp, -⟩ := hs
  obtain ⟨l, hl⟩ := Forest.exists_descends hb
  have hne : l ≠ [] := by
    rintro rfl
    exact hst (show c.target t = c.source t from hl).symm
  have hlist := Chart.calculateStateSet_down (Chart.ne_root_of_context hp) hst hl
  simp only [Chart.deactivates, hint, Bool.false_eq_true, ↓reduceIte, hlist] at h₁
  simp only [Chart.activates, hint, Bool.false_eq_true, ↓reduceIte, hlist] at h₂
  obtain rfl := returns_forM_nil.mp h₁
  have hdata : ((w.log (.fire t w.data)).perform (.effect t) (c.action t)).data = w.data :=
    hr.actions.data_effect
  have hidle : w.Idles ((w.log (.fire t w.data)).perform (.effect t) (c.action t)) :=
    (show w.Idles (w.log (.fire t w.data)) from World.Adds.of_cons rfl rfl).trans
      (World.adds_perform rfl)
  obtain ⟨hlegal, ha, hin, hend, hrec⟩ := Transition.activateAll_down hr hE hl hne
    (h.of_idles hdata hidle)
    (by rwa [hdata]) (by rwa [hdata]) (hu.of_extends (World.extends_log _ _)) h₂
  have hcarried : c.Carried t w.data w₂.data :=
    ⟨h.connected, hlegal.connected, fun _ => hrec, hsa, fun _ => hend, fun _ _ _ _ _ _ hsd _ htd =>
      absurd (Forest.below_trans hb hsd) htd⟩
  exact ⟨hlegal.log_fired hcarried, ha, hin.congr hdata rfl, hend⟩

/-- A proper transition of a reached state fires. -/
lemma Transition.fire_moved (ht : t ∈ c.ownedTransitions) : c.Moved (c.source t) w w' := by
  obtain ⟨w₁, w₂, h₁, h₂, rfl⟩ := Transition.returns_fire.mp hf
  have hext := (compatible_extends c).methods k
  have hfired : .fire t w.data ∈ (w₂.log (.fired t w.data w₂.data)).trace := by
    obtain ⟨l, hl, -⟩ : (w.log (.fire t w.data)).Extends (w₂.log (.fired t w.data w₂.data)) :=
      (compatible_extends c).after_fire hext hf
    rw [hl]
    exact List.mem_append_right _ List.mem_cons_self
  by_cases hint : c.internal t = true
  · simp only [Chart.deactivates, hint, ↓reduceIte] at h₁
    simp only [Chart.activates, hint, ↓reduceIte] at h₂
    obtain rfl := returns_forM_nil.mp h₁
    obtain ⟨-, rfl⟩ := returns_pure.mp h₂
    have hdata : ((w.log (.fire t w.data)).perform (.effect t) (c.action t)).data = w.data :=
      hr.actions.data_effect
    have hbegin : w.Idles (w.log (.fire t w.data)) := World.Adds.of_cons rfl rfl
    have heffect : (w.log (.fire t w.data)).Idles _ :=
      World.adds_perform (a := c.action t) (o := .effect t) rfl
    have hlegal := h.of_idles hdata (hbegin.trans heffect)
    have hno : ¬ c.internal t = false := by simp [hint]
    exact .of_data (hlegal.log_fired ⟨h.connected, hlegal.connected, fun h => absurd h hno, hs.1,
      fun h => absurd h hno, fun h => absurd h hno⟩) hdata
  have hint' : c.internal t = false := by simpa using hint
  rcases (hu.proper hfired ht).2.resolve_left hint with hself | ⟨hab, ⟨hba, htog⟩ | ⟨hba, hv⟩⟩
  · -- the state is left and entered again
    obtain ⟨-, p, hp, hpa, hcur⟩ := id hs
    have hd : c.forest.Descends p [c.source t] (c.source t) := ⟨hp, rfl⟩
    have he : c.forest.Descends p [c.source t] (c.target t) := ⟨hp, hself.symm⟩
    have hlist : c.calculateStateSet (c.source t) (c.target t)
        = ([c.source t].reverse, [c.source t]) := by
      rw [← hself, calculateStateSet_self]
      rfl
    have hex := Transition.fire_beside hr hE h hs hu hf hint' hlist hd he (fun _ => rfl)
      fun _ => hself
    refine ⟨hex.legal, fun {n x} hx hn hb _ _ => ?_⟩
    by_cases hsx : c.source t = x
    · subst hsx
      obtain ⟨ha, hin⟩ := hex.self rfl (by rw [hr.regions hx hn]; rfl)
      exact ⟨hin, ha⟩
    · have hpx : c.Below p x := Forest.below_parent (F := c.forest) hb hsx hp
      exact ⟨hex.inside.mono hpx, hex.legal.active_of_below
        (isHistory_of_context hp) hex.parent hpx⟩
  · obtain ⟨m, d, e, l, l', hlist, hd, he, hde⟩ := calculateStateSet_branch hab hba
    have hsd := (Forest.Descends.below_head hd d List.mem_cons_self).2
    have hte := (Forest.Descends.below_head he e List.mem_cons_self).2
    have hconc : c.kind m ≠ .concurrentState := fun hk => hde (htog hk hd.1 he.1 hsd hte)
    have hex := Transition.fire_beside hr hE h hs hu hf hint' hlist hd he
      (fun hk => absurd hk hconc)
      fun h => absurd h hde
    refine .of_inside hex.legal hex.inside hex.parent (isHistory_of_context hd.1) ?_
    intro n x hx hn hb hp
    refine (Forest.below_or_below_of_parent hd.1 hsd hb).resolve_left fun hxd => ?_
    -- the concurrent state would be left while it is being entered
    by_cases hxd' : x = d
    · subst hxd'
      obtain rfl := Option.some.inj (hx.symm.trans hd.1)
      exact hconc hn
    · exact hex.left n hp (Forest.below_parent (F := c.forest) hxd hxd' hx)
  · have hst : c.source t ≠ c.target t := fun hst => hab (hst ▸ Forest.below_refl _)
    obtain ⟨hlegal, ha, hin, -⟩ := Transition.fire_down hr hE h hs hu hf hint' hst hba hv
    have hk : (c.kind (c.source t)).isHistory = false := by
      obtain ⟨z, hz, -⟩ := Forest.exists_child_of_below hba hst.symm
      exact isHistory_of_context hz
    exact .of_inside hlegal hin ha hk fun _ _ hb _ => hb

end Firing

end CppStatecharts
