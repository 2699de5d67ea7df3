import CppStatecharts.Configuration.Chronicle
import CppStatecharts.Semantics.Retrace

/-!
The execution of a single transition in a legal configuration.

* `Transition.fire_settled`, `Transition.fire_up`, `Transition.fire_occupied`: where a transition
  leads to a legal configuration, and where it does not.
* `Transition.execute_legal_iff`: between states of one region, the configuration is legal again,
  with the target active, exactly when the transition does not lead up, nor down an occupied way.
* `Chart.Meet`, `Chart.Effect`, `Transition.execute_effect`: what a transition changes, and what
  not.
* `Climbing`: a chart with a transition that leads up.
-/

namespace CppStatecharts

variable {S T E P : Type} [DecidableEq S] {c : Chart S T E P}
variable {w w₁ w₂ w' : World S T E P} {s x y p q d e m n : S} {t : T} {k : ℕ} {b : Bool} {u : PUnit}
variable {ev : Option E}

open Chart

/-! ### Where a transition may lead -/

lemma Transition.level_fire (hf : Returns (Transition.fire c (c.methods k) t) w u w') :
    w.Level w' :=
  (World.Level.of_plain (World.Adds.of_cons rfl rfl)).trans
    ((compatible_level (c := c)).after_fire ((compatible_level (c := c)).methods k) hf)

lemma isActive_announce (w : World S T E P) : (c.announce x y w).data.isActive q =
    w.data.isActive q := by
  unfold Chart.announce
  split
  · exact isActive_registerRegion
  · rfl

lemma trace_announce (w : World S T E P) : (c.announce x y w).trace = w.trace := by
  unfold Chart.announce
  split <;> rfl

/-- In a sealed run, a way down leaves no active state beside it. -/
lemma Transition.activateAll_stays (hc : c.ActionsKeepData) {l : List S}
    (hl : c.forest.Descends p l y) (hk : ∀ x ∈ l, (c.kind x).isPseudo = false)
    (hq : (c.kind q).isHistory = false) (ha : w.data.isActive q = true)
    (hup : ∀ x ∈ l, c.Below q x → w.data.isActive x = true) (hi : ∀ n, ¬ Obs.inProgress n w.trace)
    (hseal : c.Sealed w'.trace)
    (hact : Returns (Transition.activateAll c (c.methods k) l) w u w') :
    w'.data.isActive q = true := by
  have hext := (compatible_extends c).methods k
  -- one state is entered, with nothing or its region announced
  have hone : ∀ {x : S} {w w₁ : World S T E P} {b : Bool}, (c.kind x).isPseudo = false →
      w.data.isActive q = true → (c.Below q x → w.data.isActive x = true) →
      ¬ Obs.inProgress x w.trace → c.Sealed w₁.trace →
      Returns ((c.methods k).activate x) w b w₁ → w₁.data.isActive q = true
        ∧ (c.Below q x → w₁ = w) := by
    intro x w w₁ b hx ha hup hi hseal h
    by_cases hqx : c.Below q x
    · obtain rfl := eq_of_activate_active hx (hup hqx) h
      exact ⟨ha, fun _ => rfl⟩
    · exact ⟨activate_stays hc hx hq (fun h => absurd h hqx) hi hseal ha h, fun h => absurd h hqx⟩
  induction l generalizing p w with
  | nil =>
      obtain ⟨-, rfl⟩ := returns_pure.mp hact
      exact ha
  | cons x l ih =>
      have hx := hk x List.mem_cons_self
      cases l with
      | nil =>
          obtain ⟨b, w₁, h₁, h₂⟩ := returns_bind.mp hact
          obtain ⟨-, rfl⟩ := returns_pure.mp h₂
          exact (hone hx ha (hup x List.mem_cons_self) (hi x) hseal h₁).1
      | cons z l =>
          obtain ⟨b, w₁, h₁, h₂⟩ := Transition.returns_activateAll_cons.mp hact
          have hsealed : c.Sealed w₁.trace :=
            hseal.of_extends ((compatible_extends c).activateAll hext.toEnter _ _ _ _ h₂)
          have hlevel := ((compatible_level (c := c)).methods k).activate x _ _ _ h₁
          obtain ⟨ha₁, hsame⟩ := hone hx ((isActive_announce w).trans ha)
            (fun hb => (isActive_announce w).trans (hup x List.mem_cons_self hb))
            (by rw [trace_announce]; exact hi x) hsealed h₁
          refine ih hl.2 (fun z' hz => hk z' (List.mem_cons_of_mem x hz)) ha₁ (fun z' hz hb => ?_)
            (fun n hn => ?_) h₂
          · have hzx := (Forest.Descends.below_head hl z' (List.mem_cons_of_mem x hz)).1
            rw [hsame (Forest.below_trans hb hzx), isActive_announce]
            exact hup z' (List.mem_cons_of_mem x hz) hb
          · have := hlevel.inProgress.mp hn
            rw [trace_announce] at this
            exact hi n this

section Firing

variable (hr : c.Standard) (h : c.Settled w) (hs : c.Reached (c.source t) w)
variable (hint : c.internal t = false)
variable (hf : Returns (Transition.fire c (c.methods k) t) w u w')

include hr h hs hint hf

/-- Beside the source, or to the source itself, a transition exchanges what is active below the
innermost common context. -/
lemma Transition.fire_exchanged (hu : c.Orderly w'.trace)
    (hst : c.Below (c.source t) (c.target t) → c.source t = c.target t)
    (hts : c.Below (c.target t) (c.source t) → c.source t = c.target t)
    (htog : c.source t = c.target t ∨ c.Together (c.source t) (c.target t)) :
    ∃ m d e, c.context d = some m ∧ c.context e = some m ∧ c.Below (c.source t) d
      ∧ c.Below (c.target t) e
      ∧ (c.source t = c.target t ∧ d = c.source t ∧ e = c.source t
        ∨ c.source t ≠ c.target t ∧ d ≠ e)
      ∧ c.Exchanged m d e (c.target t) w w' := by
  have hE : c.Activates (c.methods k) := (legal_methods hr k).1
  obtain ⟨-, p, hp, -⟩ := id hs
  obtain ⟨m, d, e, l, l', hlist, hd, he, hde⟩ :=
    calculateStateSet_beside (Chart.ne_root_of_context hp) hst hts
  have hsd := (Forest.Descends.below_head hd d List.mem_cons_self).2
  have hte := (Forest.Descends.below_head he e List.mem_cons_self).2
  have hconc : c.kind m = .concurrentState → d = e := fun hk => by
    rcases hde with ⟨-, rfl, rfl⟩ | ⟨hne, -⟩
    · rfl
    · exact htog.resolve_left hne hk hd.1 he.1 hsd hte
  exact ⟨m, d, e, hd.1, he.1, hsd, hte, hde,
    Transition.fire_beside hr hE h.legal hs hu hf hint hlist hd
    he hconc fun heq => hde.elim And.left fun hde => absurd heq hde.2⟩

/-- A transition that may fire leads to a settled configuration. -/
lemma Transition.fire_settled (hu : c.Orderly w'.trace)
    (hl : c.Leads (c.source t) (c.target t) w.data) :
    c.Settled w'
      ∧ ((c.kind (c.target t)).isHistory = false → w'.data.isActive (c.target t) = true) := by
  have hE : c.Activates (c.methods k) := (legal_methods hr k).1
  have hidle : ∀ n, ¬ Obs.inProgress n w'.trace := fun n hn =>
    h.idle n ((Transition.level_fire hf).inProgress.mp hn)
  by_cases hts : c.Below (c.target t) (c.source t) → c.source t = c.target t
  · have hst : c.Below (c.source t) (c.target t) → c.source t = c.target t := fun hb =>
      hl.elim id fun hl => absurd hb hl.1
    have htog : c.source t = c.target t ∨ c.Together (c.source t) (c.target t) := by
      rcases hl with hl | ⟨-, ⟨-, htog⟩ | ⟨hb, -⟩⟩
      · exact Or.inl hl
      · exact Or.inr htog
      · exact Or.inl (hts hb)
    obtain ⟨m, d, e, -, -, -, -, -, hex⟩ :=
      Transition.fire_exchanged hr h hs hint hf hu hst hts htog
    exact ⟨⟨hex.legal, hidle⟩, hex.target⟩
  · obtain ⟨hb, hne⟩ := Classical.not_imp.mp hts
    have hv : c.Vacant (c.source t) (c.target t) w.data :=
      ((hl.resolve_left hne).2.resolve_left fun hbeside => hbeside.1 hb).2
    obtain ⟨hlegal, -, -, hend⟩ := Transition.fire_down hr hE h.legal hs hu hf hint hne hb hv
    exact ⟨⟨hlegal, hidle⟩, hend⟩

/-! ### Where it may not -/

/-- A transition up the tree leaves the target with a current state, or a region, that is not
active. -/
lemma Transition.fire_up (hk : (c.kind (c.source t)).isHistory = false)
    (hne : c.source t ≠ c.target t) (hb : c.Below (c.source t) (c.target t)) :
    ¬ c.LegalConfiguration w'.data := by
  obtain ⟨w₁, w₂, h₁, h₂, rfl⟩ := Transition.returns_fire.mp hf
  obtain ⟨l, hl⟩ := Forest.exists_descends hb
  have hlist := calculateStateSet_up hne hl
  cases l with
  | nil => exact absurd hl hne
  | cons d l =>
      simp only [Chart.deactivates, hint, Bool.false_eq_true, ↓reduceIte, hlist] at h₁
      simp only [Chart.activates, hint, Bool.false_eq_true, ↓reduceIte, hlist] at h₂
      have hd : c.context d = some (c.target t) := hl.1
      have hsd := (Forest.Descends.below_head hl d List.mem_cons_self).2
      obtain ⟨hta, hcur⟩ := hs.above h.legal.toCoherent hd hsd
      have hw : c.Coherent (w.log (.fire t w.data)) :=
        h.legal.toCoherent.of_idles rfl (World.Adds.of_cons rfl rfl)
      obtain ⟨hfade, hout⟩ := exits_fades hr.actions hr.regions hw hd
        (fun y hy => (Forest.Descends.below_head hl y (List.mem_reverse.mp hy)).1) (by simp) h₁
      -- nothing is entered, for the chart is active already
      have hdata : w₂.data = w₁.data := by
        have heffect : (w₁.perform (.effect t) (c.action t)).data = w₁.data :=
          hr.actions.data_effect
        by_cases hroot : c.target t = c.root
        · rw [if_pos hroot] at h₂
          obtain ⟨b, w₃, h₃, h₄⟩ := returns_bind.mp h₂
          obtain ⟨-, rfl⟩ := returns_pure.mp h₄
          have hta' : (w₁.perform (.effect t) (c.action t)).data.isActive (c.target t) = true := by
            rw [heffect, (hfade.frame (Forest.not_below_of_parent (F := c.forest) hd)).1]
            exact hta
          rw [eq_of_activate_active (Chart.isPseudo_of_context hd) hta' h₃, heffect]
        · rw [if_neg hroot] at h₂
          rw [(returns_pure.mp h₂).2, heffect]
      have hda : (w₂.log (.fired t w.data w₂.data)).data.isActive d = false := by
        rw [World.data_log, hdata]
        exact hout d (Forest.below_refl _) (isHistory_of_below hk hsd)
      have hframe := hfade.frame (Forest.not_below_of_parent (F := c.forest) hd)
      intro hlegal
      have hta' : (w₂.log (.fired t w.data w₂.data)).data.isActive (c.target t) = true := by
        rw [World.data_log, hdata, hframe.1]
        exact hta
      by_cases htk : c.kind (c.target t) = .concurrentState
      · have hra := hlegal.regions htk hta' (Chart.mem_regions.mpr ⟨hr.regions hd htk, hd⟩)
        rw [hda] at hra
        cases hra
      · have hqa := hlegal.current (Chart.kind_of_context hd htk hta')
          (by rw [World.data_log, hdata, hframe.2.1]; exact hcur htk)
        rw [hda] at hqa
        cases hqa

/-- A transition down an occupied way leaves two states active beside each other. -/
lemma Transition.fire_occupied (hk : (c.kind (c.target t)).isPseudo = false)
    (hne : c.source t ≠ c.target t) (hb : c.Below (c.target t) (c.source t))
    (hv : ¬ c.Vacant (c.source t) (c.target t) w.data) (hseal : c.Sealed w'.trace) :
    ¬ (c.LegalConfiguration w'.data ∧ w'.data.isActive (c.target t) = true) := by
  rintro ⟨hlegal, hta⟩
  apply hv
  intro e q x hte hq hqs hqk hx hxk hxa
  obtain ⟨w₁, w₂, h₁, h₂, rfl⟩ := Transition.returns_fire.mp hf
  obtain ⟨l, hl⟩ := Forest.exists_descends hb
  obtain ⟨-, p, hp, -⟩ := hs
  have hlist := calculateStateSet_down (Chart.ne_root_of_context hp) hne hl
  simp only [Chart.deactivates, hint, Bool.false_eq_true, ↓reduceIte, hlist] at h₁
  simp only [Chart.activates, hint, Bool.false_eq_true, ↓reduceIte, hlist] at h₂
  obtain rfl := returns_forM_nil.mp h₁
  have hdata : ((w.log (.fire t w.data)).perform (.effect t) (c.action t)).data = w.data :=
    hr.actions.data_effect
  have hidle : w.Idles ((w.log (.fire t w.data)).perform (.effect t) (c.action t)) :=
    (show w.Idles (w.log (.fire t w.data)) from World.Adds.of_cons rfl rfl).trans
      (World.adds_perform rfl)
  have hxa' : w₂.data.isActive x = true := by
    refine Transition.activateAll_stays hr.actions hl (isPseudo_of_descends hl hk) hxk
      (by rwa [hdata]) (fun z _ hxz => ?_)
      (fun n hn => h.idle n
        ((World.Level.of_plain (hidle.mono fun _ => Obs.isPlain_of_isIdle)).inProgress.mp hn))
      (hseal.of_extends (World.extends_log _ _)) h₂
    rw [hdata]
    exact h.legal.active_of_below hxk hxa hxz
  have hth := StateKind.isHistory_eq_false_of_isPseudo hk
  have hea := hlegal.active_of_below hth hta hte
  have hek := isHistory_of_below hth hte
  have hqa : w₂.data.isActive q = true := hlegal.upward hxk hxa' hx
  have hcur := hlegal.child (Chart.kind_of_context hx hqk hqa) hxk hxa' hx
  exact Option.some.inj
    (hcur.symm.trans (hlegal.child (Chart.kind_of_context hx hqk hqa) hek hea hq))

end Firing

/-! ### The results -/

/-- The firing of a transition in a legal configuration, with another past. -/
lemma Transition.exists_fire (hr : c.Standard) (h : c.LegalConfiguration w.data)
    (hc : c.Clean w.data)
    (he : Returned (fun k => Transition.execute c (c.methods k) t ev) w true w') :
    ∃ k v v' A l, v.data = w.data ∧ v'.data = w'.data ∧ c.Settled v
      ∧ Returns (Transition.fire c (c.methods k) t) v ⟨⟩ v' ∧ c.Chronicle A l
      ∧ v'.trace = (w.log (.fire t w.data)).since w' ++ .fire t w.data :: l := by
  obtain ⟨k, he⟩ := he
  obtain ⟨-, -, -, hf⟩ | ⟨hfalse, -⟩ := (Transition.returns_execute (pure_methods c k)).mp he
  · obtain ⟨A, l, hl, hs⟩ := h.exists_settled hr hc
    have hR : c.Similar (World.Retraced w.trace l) := similar_retraced c
    obtain ⟨v', hf', hB⟩ := hR.transition_fire (hR.methods k) t _ _ _ _ (World.retraced_with w l) hf
    refine ⟨k, { w with trace := l }, v', A, l, rfl, hB.data, hs, hf', hl, ?_⟩
    obtain ⟨l', hl', -⟩ : (w.log (.fire t w.data)).Extends w' :=
      (compatible_extends c).after_fire ((compatible_extends c).methods k) hf
    have hwhole : w'.trace = (l' ++ [.fire t w.data]) ++ w.trace := by
      rw [hl', World.trace_log]
      simp
    rw [hB.trace_eq, World.since_eq hl', World.since_eq hwhole, List.append_assoc]
    rfl
  · cases hfalse

/-- **From legal to legal.** Between two states that are no pseudo-states, and not in different
regions of a concurrent state, a transition leads from a legal configuration to a legal one in which
the target is active exactly when it leads neither up the tree nor down an occupied way, as long as
what happens meanwhile is orderly and sealed. -/
theorem Transition.execute_legal_iff (hr : c.Standard) (h : c.LegalConfiguration w.data)
    (hc : c.Clean w.data) (hsk : (c.kind (c.source t)).isPseudo = false)
    (htk : (c.kind (c.target t)).isPseudo = false) (hroot : c.source t ≠ c.root)
    (hsa : w.data.isActive (c.source t) = true) (hint : c.internal t = false)
    (htog : c.Together (c.source t) (c.target t))
    (he : Returned (fun k => Transition.execute c (c.methods k) t ev) w true w')
    (ho : c.Orderly ((w.log (.fire t w.data)).since w'))
    (hseal : c.Sealed ((w.log (.fire t w.data)).since w')) :
    c.LegalConfiguration w'.data ∧ w'.data.isActive (c.target t) = true
      ↔ c.Leads (c.source t) (c.target t) w.data := by
  obtain ⟨k, v, v', A, l, hv, hv', hs, hf, hl, htrace⟩ := Transition.exists_fire hr h hc he
  rw [← hv] at hsa ⊢
  rw [← hv']
  have hsh := StateKind.isHistory_eq_false_of_isPseudo hsk
  have hth := StateKind.isHistory_eq_false_of_isPseudo htk
  obtain ⟨p, hp⟩ := Chart.context_eq_some_of_ne_root hroot
  have hreach := hs.legal.reached hsh hsa hp
  constructor
  · intro hlegal
    by_cases hst : c.source t = c.target t
    · exact Or.inl hst
    by_cases hab : c.Below (c.source t) (c.target t)
    · exact absurd hlegal.1 (Transition.fire_up hr hs hreach hint hf hsh hst hab)
    refine Or.inr ⟨hab, ?_⟩
    by_cases hba : c.Below (c.target t) (c.source t)
    · refine Or.inr ⟨hba, ?_⟩
      by_contra hv
      exact Transition.fire_occupied hr hs hreach hint hf htk hst hba hv
        (htrace ▸ hl.isSealed hseal) hlegal
    · exact Or.inl ⟨hba, htog⟩
  · intro hlead
    have hproper : c.Proper t w.data := by
      refine ⟨fun hk => ?_, Or.inr (hv ▸ hlead)⟩
      rw [hk] at hsk
      cases hsk
    obtain ⟨hset, hta⟩ := Transition.fire_settled hr hs hreach hint hf
      (htrace ▸ hl.orderly (fun _ => hproper) ho) hlead
    exact ⟨hset.legal_data, hta hth⟩

/-! ### Frame and effect -/

namespace Chart

/-- The innermost state that contains both states and is neither of them. -/
structure Meet (c : Chart S T E P) (x y m : S) : Prop where
  left : c.Below x m ∧ x ≠ m
  right : c.Below y m ∧ y ≠ m
  innermost : ∀ {z}, c.Below x z → x ≠ z → c.Below y z → y ≠ z → c.Below m z

/-- Outside `m` nothing changes but the current state of `m`. Inside, the way down to `y` is active,
and next to it just the further regions of the concurrent states on this way, with what is active
there. -/
structure Effect (c : Chart S T E P) (m y : S) (a a' : Metadata S) : Prop where
  frame : ∀ {x}, ¬ (c.Below x m ∧ x ≠ m) →
    a'.isActive x = a.isActive x ∧ (x ≠ m → a'.current x = a.current x)
  path : ∀ {x}, c.Below y x → c.Below x m → a'.isActive x = true
  regions : ∀ {n r}, c.kind n = .concurrentState → c.Below y n → c.Below n m →
    c.context r = some n → a'.isActive r = true
  inside : ∀ {x}, (c.kind x).isHistory = false → c.Below x m → x ≠ m → a'.isActive x = true →
    c.Below y x ∨ ∃ n r, c.kind n = .concurrentState ∧ c.Below y n ∧ c.Below n m
      ∧ c.context r = some n ∧ ¬ c.Below y r ∧ c.Below x r

omit [DecidableEq S] in
/-- A state is the innermost one around two others when the ways down to them part there. -/
lemma Meet.eq (h : c.Meet x y m) (hd : c.context d = some n) (he : c.context e = some n)
    (hxd : c.Below x d) (hye : c.Below y e) (hde : x = y ∧ d = x ∧ e = x ∨ x ≠ y ∧ d ≠ e) :
    m = n := by
  have hxn : c.Below x n := Forest.below_trans hxd (Forest.below_of_parent hd)
  have hyn : c.Below y n := Forest.below_trans hye (Forest.below_of_parent he)
  have hxne : x ≠ n := fun hx => Forest.not_below_of_parent (F := c.forest) hd (hx ▸ hxd)
  have hyne : y ≠ n := fun hy => Forest.not_below_of_parent (F := c.forest) he (hy ▸ hye)
  refine Forest.below_antisymm (h.innermost hxn hxne hyn hyne) ?_
  rcases hde with ⟨-, rfl, -⟩ | ⟨-, hde⟩
  · exact Forest.below_parent (F := c.forest) h.left.1 h.left.2 hd
  · have hmd : ¬ c.Below m d := fun hmd => hde <|
      Forest.eq_of_below_children (F := c.forest) hd he (Forest.below_trans h.right.1 hmd) hye
    have hdm := (Forest.below_total hxd h.left.1).resolve_right hmd
    exact Forest.below_parent (F := c.forest) hdm (fun hdm => hmd (hdm ▸ Forest.below_refl _)) hd

omit [DecidableEq S] in
/-- Two states with no concurrent state between them and the innermost one around them are in no
different regions. -/
lemma Meet.together (h : c.Meet x y m) (hm : c.kind m ≠ .concurrentState) : c.Together x y := by
  intro n r r' hn hr hr' hxr hyr'
  by_contra hne
  refine hm ?_
  rw [h.eq hr hr' hxr hyr' (Or.inr ⟨fun hxy => hne ?_, hne⟩)]
  · exact hn
  · exact Forest.eq_of_below_children (F := c.forest) hr hr' hxr (hxy ▸ hyr')

/-- Beside a way down to an active state, only further regions are active. -/
lemma Legal.inside_of_path (h : c.Legal none w) (hy : (c.kind y).isHistory = false)
    (ha : w.data.isActive y = true) (hroot : y ≠ c.root)
    (hcur : c.kind y = .hierarchicalState → w.data.current y = none) (hb : c.Below y q)
    (hx : (c.kind x).isHistory = false) (hxq : c.Below x q) (hne : x ≠ q)
    (hxa : w.data.isActive x = true) :
    c.Below y x ∨ ∃ n r, c.kind n = .concurrentState ∧ c.Below y n ∧ c.Below n q
      ∧ c.context r = some n ∧ ¬ c.Below y r ∧ c.Below x r := by
  induction hb with
  | refl =>
      obtain ⟨z, hz, hxz⟩ := Forest.exists_child_of_below hxq hne
      have hza := h.active_of_below hx hxa hxz
      have hzk := isHistory_of_below hx hxz
      by_cases hk : c.kind y = .concurrentState
      · exact Or.inr ⟨y, z, hk, Forest.below_refl _, Forest.below_refl _, hz,
          Forest.not_below_of_parent hz, hxz⟩
      · rcases kind_of_context hz hk ha with hk' | ⟨hk', -⟩
        · exact absurd ((c.kind_statechart y).mp hk') hroot
        · have hsingle := h.single hzk hza hz hk
          rw [hcur hk'] at hsingle
          cases hsingle
  | @tail e q hye heq ih =>
      have heq : c.context e = some q := heq
      obtain ⟨z, hz, hxz⟩ := Forest.exists_child_of_below hxq hne
      have hza := h.active_of_below hx hxa hxz
      have hzk := isHistory_of_below hx hxz
      by_cases hze : z = e
      · subst hze
        by_cases hxe : x = z
        · exact Or.inl (hxe ▸ hye)
        · refine (ih hxz hxe).imp id ?_
          rintro ⟨n, r, hn, hyn, hnz, hrest⟩
          exact ⟨n, r, hn, hyn, Forest.below_trans hnz (Forest.below_of_parent hz), hrest⟩
      · by_cases hk : c.kind q = .concurrentState
        · refine Or.inr ⟨q, z, hk, Forest.below_trans hye (Forest.below_of_parent heq),
            Forest.below_refl _, hz, fun hyz => hze ?_, hxz⟩
          exact Forest.eq_of_below_children (F := c.forest) hz heq hyz hye
        · have hek := isHistory_of_below hy hye
          have hea := h.active_of_below hy ha hye
          exact absurd
            (Option.some.inj ((h.single hzk hza hz hk).symm.trans (h.single hek hea heq hk)))
            hze

end Chart

/-- **Frame and effect.** From a legal configuration, a transition between states neither of which
contains the other changes nothing outside the innermost state around them, unless that is
concurrent, but for the current state of this one; inside, the way down to the target is active, and
the further regions of the concurrent states on it with what is active there, and nothing else. -/
theorem Transition.execute_effect (hr : c.Standard) (h : c.LegalConfiguration w.data)
    (hc : c.Clean w.data) (hsa : w.data.isActive (c.source t) = true)
    (hsh : (c.kind (c.source t)).isHistory = true → ∀ p, c.context (c.source t) = some p →
      w.data.isActive p = true ∧ w.data.current p = some (c.source t))
    (hfork : c.kind (c.source t) ≠ .pseudoState .fork)
    (htk : (c.kind (c.target t)).isPseudo = false) (hint : c.internal t = false)
    (hst : c.Below (c.source t) (c.target t) → c.source t = c.target t)
    (hts : c.Below (c.target t) (c.source t) → c.source t = c.target t)
    (hm : c.Meet (c.source t) (c.target t) m) (hk : c.kind m ≠ .concurrentState)
    (he : Returned (fun k => Transition.execute c (c.methods k) t ev) w true w')
    (ho : c.Orderly ((w.log (.fire t w.data)).since w')) :
    c.Effect m (c.target t) w.data w'.data := by
  obtain ⟨k, v, v', A, l, hv, hv', hs, hf, hl, htrace⟩ := Transition.exists_fire hr h hc he
  rw [← hv] at hsa hsh ⊢
  rw [← hv']
  have hth := StateKind.isHistory_eq_false_of_isPseudo htk
  have hne : ∀ {x}, c.Below x m → x ≠ m → x ≠ c.root := by
    rintro x hx hxm rfl
    exact hxm (Forest.below_antisymm hx (below_root m))
  obtain ⟨p, hp⟩ := Chart.context_eq_some_of_ne_root (hne hm.left.1 hm.left.2)
  have hreach : c.Reached (c.source t) v := by
    cases hh : (c.kind (c.source t)).isHistory with
    | false => exact hs.legal.reached hh hsa hp
    | true => exact ⟨hsa, p, hp, (hsh hh p hp).1, fun _ => (hsh hh p hp).2⟩
  have htog : c.Together (c.source t) (c.target t) := hm.together hk
  have hlead : c.Leads (c.source t) (c.target t) w.data := by
    by_cases hsame : c.source t = c.target t
    · exact Or.inl hsame
    · exact Or.inr ⟨fun hb => hsame (hst hb), Or.inl ⟨fun hb => hsame (hts hb), htog⟩⟩
  obtain ⟨n, d, e, hd, hen, hsd, hte, hde, hex⟩ := Transition.fire_exchanged hr hs hreach hint hf
    (htrace ▸ hl.orderly (fun _ => ⟨hfork, Or.inr hlead⟩) ho) hst hts (Or.inr htog)
  obtain rfl := hm.eq hd hen hsd hte hde
  have hta := hex.target hth
  have hset : c.Settled v' := ⟨hex.legal, fun n hn =>
    hs.idle n ((Transition.level_fire hf).inProgress.mp hn)⟩
  refine ⟨fun {x} hx => ?_, fun {x} hyx hxm => hex.legal.active_of_below hth hta hyx,
    fun {n r} hn hyn _ hrn => ?_, fun {x} hxk hxm hxne hxa => ?_⟩
  · have hout : ∀ {z}, c.context z = some m → ¬ c.Below x z := fun hz hxz => hx
      ⟨Forest.below_trans hxz (Forest.below_of_parent hz),
        fun hxm => Forest.not_below_of_parent (F := c.forest) hz (hxm ▸ hxz)⟩
    exact hex.beside (isHistory_of_below hth hte) x (hout hd) (hout hen)
  · have hna := hex.legal.active_of_below hth hta hyn
    exact hset.legal_data.regions hn hna (Chart.mem_regions.mpr ⟨hr.regions hrn hn, hrn⟩)
  · exact hex.legal.inside_of_path hth hta (hne hm.right.1 hm.right.2) hex.empty hm.right.1 hxk hxm
      hxne hxa

namespace Climbing

/-- A hierarchical state `a` with the states `a1` and `b1`. -/
inductive St where
  | chart | a | a1 | b1
  deriving DecidableEq

instance : Fintype St := ⟨{.chart, .a, .a1, .b1}, fun x => by cases x <;> decide⟩

inductive Tr where
  | climb | move
  deriving DecidableEq

instance : Fintype Tr := ⟨{.climb, .move}, fun t => by cases t <;> decide⟩

/-- From `a1`, one transition leads up to `a`, and one beside to `b1`. -/
def chart : Chart St Tr Event Unit where
  name := "climbing"
  root := .chart
  ownedStates := [.a, .a1, .b1]
  ownedTransitions := [.climb, .move]
  kind
    | .chart => .statechart
    | .a => .hierarchicalState
    | .a1 | .b1 => .state
  context
    | .chart => none
    | .a => some .chart
    | .a1 | .b1 => some .a
  depth
    | .chart => 0
    | .a => 1
    | .a1 | .b1 => 2
  source _ := .a1
  target
    | .climb => .a
    | .move => .b1
  equals ev e _ _ := ev.equals e
  timeout := Event.timeout

/-- The configuration in which `a1` is active. -/
def data : Metadata St where
  activeStates
    | .chart => some { active := true, currentState := some .a }
    | .a => some { active := true, currentState := some .a1 }
    | .a1 => some { active := true }
    | .b1 => none

def world : World St Tr Event Unit := { World.fresh () with data := data }

lemma standard : chart.Standard := by
  refine ⟨by decide, fun h => ?_, fun h => ?_, fun h => ?_, fun h => ?_⟩ <;> cases h

lemma legal_before : chart.LegalConfiguration data :=
  ⟨by decide, by decide, by decide, by decide⟩

lemma clean : chart.Clean data :=
  ⟨⟨fun p q hq => by cases p <;> cases hq <;> rfl, fun y p hy => by cases y <;> cases hy⟩,
    by decide⟩

lemma together (x y : St) : chart.Together x y := by
  intro n r r' hn
  cases n <;> cases hn

/-- The firing of a transition, in which no other one fires, is orderly. -/
lemma orderly {l : List (Obs St Tr)} (hu : Obs.Unbroken l)
    (hl : ∀ o ∈ l, (match o with | .fire .. => false | _ => true) = true) : chart.Orderly l where
  unbroken := hu
  proper {t m} hm := by cases hl _ hm
  noFork {x} _ := by cases x <;> decide

set_option maxRecDepth 4000 in
/-- **A dangling current state.** The transition up the tree leaves `a` active with the current
state `a1`, which is not. -/
theorem not_legal : chart.LegalConfiguration data ∧ data.isActive .a1 = true ∧ chart.Together .a1 .a
    ∧ ∃ w', Returned (fun k => Transition.execute chart (chart.methods k) .climb none)
      world true w'
    ∧ ¬ (chart.LegalConfiguration w'.data ∧ w'.data.isActive .a = true) := by
  refine ⟨legal_before, rfl, together _ _, _, ⟨20, rfl⟩, fun h => ?_⟩
  exact absurd (h.1.current (p := .a) (q := .a1) (Or.inr ⟨rfl, h.2⟩) rfl) (by decide)

set_option maxRecDepth 4000 in
/-- The transition to `b1` leads to a legal configuration. -/
theorem legal_move : ∃ w', Returned (fun k => Transition.execute chart (chart.methods k) .move none)
      world true w'
    ∧ chart.LegalConfiguration w'.data ∧ w'.data.isActive .b1 = true := by
  have h : Returned (fun k => Transition.execute chart (chart.methods k) .move none) world true _ :=
    ⟨20, rfl⟩
  have hleads : chart.Leads .a1 .b1 data :=
    Or.inr ⟨by decide, Or.inl ⟨by decide, together _ _⟩⟩
  exact ⟨_, h, (Transition.execute_legal_iff standard legal_before clean rfl rfl (by decide) rfl rfl
    (together _ _) h (orderly (by decide) (by decide)) (by decide)).mpr hleads⟩

set_option maxRecDepth 4000 in
/-- Outside `a`, nothing changes. -/
theorem effect_move : ∃ w', Returned
    (fun k => Transition.execute chart (chart.methods k) .move none)
      world true w'
    ∧ chart.Effect .a .b1 data w'.data := by
  have h : Returned (fun k => Transition.execute chart (chart.methods k) .move none) world true _ :=
    ⟨20, rfl⟩
  have hm : chart.Meet (chart.source .move) (chart.target .move) .a :=
    ⟨by decide, by decide, by decide⟩
  exact ⟨_, h, Transition.execute_effect standard legal_before clean rfl (fun h => by cases h)
    (by decide) rfl rfl (by decide) (by decide) hm (by decide) h (orderly (by decide) (by decide))⟩

end Climbing

namespace Abandoned

set_option maxRecDepth 4000 in
/-- **The target is gone.** The transition to `n` enters its first region, and is left from there
for `z` before the second one is entered. -/
theorem not_effect : chart.LegalConfiguration (Statechart.enter chart (World.fresh true)).data
    ∧ chart.Meet .s .n .chart
    ∧ ∃ w', Returned (fun k => Transition.execute chart (chart.methods k) .begin none)
      (Statechart.enter chart (World.fresh true)) true w'
    ∧ ¬ chart.Effect .chart .n (Statechart.enter chart (World.fresh true)).data w'.data := by
  have hfresh : chart.Settled (World.fresh true) := Statechart.settled_fresh true
  have hstart := Statechart.settled_enter regular.actions hfresh.legal.toRecorded hfresh.idle
  refine ⟨hstart.legal_data, ⟨by decide, by decide, by decide⟩, _, ⟨20, rfl⟩, fun h => ?_⟩
  exact absurd (h.path (x := .n) (Forest.below_refl _) (by decide)) (by decide)

end Abandoned

end CppStatecharts
