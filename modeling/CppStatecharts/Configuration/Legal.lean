import CppStatecharts.Configuration.Exit

/-!
Legal configurations.

* `Chart.Legal`: a coherent configuration in which current states are active and an active
  concurrent state has all its regions active, unless its own entry is in progress. A state that is
  going to be entered next may be missing.
* `Chart.Enterable`: nothing stands where the state is to be entered.
* `Legal.of_fades`, `Legal.arrive`, `Legal.close`: what the exit of a state, the entry of a state
  and the end of the entry into a concurrent state make of a legal configuration.
-/

namespace CppStatecharts

variable {S T E P : Type} [DecidableEq S] {c : Chart S T E P}
variable {w w₁ w₂ w' : World S T E P} {s x p q d e n m r : S} {next : Option S}

/-- A coherent configuration in which, except for a state to be entered next, current states are
active and an active concurrent state has all its regions active once its entry has ended. -/
structure Chart.Legal (c : Chart S T E P) (next : Option S) (w : World S T E P) : Prop
    extends Chart.Coherent c w where
  live : ∀ {p q}, c.kind p ≠ .concurrentState → w.data.isActive p = true →
    w.data.current p = some q → w.data.isActive q = true ∨ ∃ x ∈ next, c.context x = some p
  regions : ∀ {n r}, c.kind n = .concurrentState → w.data.isActive n = true →
    ¬ Obs.inProgress n w.trace → c.context r = some n → w.data.isActive r = true ∨ r ∈ next
  clear : ∀ {n}, c.kind n = .concurrentState → w.data.isActive n = false → n ∉ next →
    w.data.hasData n = false
  progress : ∀ {n}, Obs.inProgress n w.trace →
    c.kind n = .concurrentState ∧ w.data.isActive n = true

/-- The state is inactive, and no active state stands beside it, in an active context. -/
structure Chart.Enterable (c : Chart S T E P) (p s : S) (w : World S T E P) : Prop where
  context : c.context s = some p
  parent : w.data.isActive p = true
  vacant : ∀ {y}, c.kind p ≠ .concurrentState → c.context y = some p →
    (c.kind y).isHistory = false → w.data.isActive y = true → y = s
  fresh : (c.kind s).isPseudo = false → w.data.isActive s = false

namespace Chart

lemma Coherent.of_idles (h : c.Coherent w) (hd : w'.data = w.data) (ht : w.Idles w') :
    c.Coherent w' := by
  refine ⟨h.toRecorded.of_idles (fun _ => by rw [hd]) ht, hd ▸ h.links, ?_, ?_, ?_, ?_⟩
  · rw [hd]
    exact h.upward
  · rw [hd]
    exact h.single
  · rw [hd]
    exact h.rooted
  · intro x p
    rw [hd]
    exact fun hx ha hp => (h.anchored hx ha hp).imp id ht.extends.mem

lemma Legal.of_idles (h : c.Legal next w) (hd : w'.data = w.data) (ht : w.Idles w') :
    c.Legal next w' := by
  have hlevel : ∀ n, Obs.inProgress n w'.trace ↔ Obs.inProgress n w.trace := fun n =>
    (World.Level.of_plain (ht.mono fun _ => Obs.isPlain_of_isIdle)).inProgress
  refine ⟨h.toCoherent.of_idles hd ht, ?_, ?_, ?_, ?_⟩
  · rw [hd]
    exact h.live
  · intro n r
    rw [hd, hlevel]
    exact h.regions
  · rw [hd]
    exact h.clear
  · intro n
    rw [hd, hlevel]
    exact h.progress

/-- The firing of a transition ends. -/
lemma Legal.log_fired (h : c.Legal next w) {t : T} {a : Metadata S} (ht : c.Carried t a w.data) :
    c.Legal next (w.log (.fired t a w.data)) := by
  have hlevel : ∀ n, Obs.inProgress n (w.log (.fired t a w.data)).trace ↔
    Obs.inProgress n w.trace :=
    fun n => (World.Level.of_plain (World.Adds.of_cons rfl rfl)).inProgress
  refine ⟨⟨h.toRecorded.log_fired ht, h.links, h.upward, h.single, h.rooted, fun hx ha hp =>
    (h.anchored hx ha hp).imp id (List.mem_cons_of_mem _)⟩, h.live, fun hn ha hi => ?_, h.clear,
    fun hn => h.progress ((hlevel _).mp hn)⟩
  exact h.regions hn ha fun hp => hi ((hlevel _).mpr hp)

lemma Legal.mono (h : c.Legal none w) : c.Legal next w where
  toCoherent := h.toCoherent
  live hp ha hq := (h.live hp ha hq).imp id fun ⟨_, hx, _⟩ => by cases hx
  regions hn ha hi hr := (h.regions hn ha hi hr).imp id fun hx => by cases hx
  clear hn hi _ := h.clear hn hi (by simp)
  progress := h.progress

lemma Legal.connected (h : c.Legal none w) : c.Connected w.data where
  upward := h.upward
  single := h.single
  live hk ha hq := (h.live hk ha hq).resolve_right (by simp)

/-- Being entered, a concurrent state is not left. -/
lemma Legal.alive (h : c.Legal next w) (hf : c.Fades d w w') (hu : Obs.Unbroken w'.trace)
    (hn : Obs.inProgress n w.trace) : w'.data.isActive n = true := by
  obtain ⟨hk, ha⟩ := h.progress hn
  have hh : (c.kind n).isPseudo = false := by rw [hk]; rfl
  obtain ⟨l, hl, hplain⟩ := hf.plain
  rw [show w.data.isActive n = _ from h.told n hh] at ha
  rw [show w'.data.isActive n = _ from hf.coherent.told n hh, hl]
  exact Obs.Unbroken.activeIn (hl ▸ hu) hplain hn ha

/-- After everything inside `d` was left, `e` beside it may be entered next. -/
lemma Legal.of_fades (h : c.Legal none w) (hf : c.Fades d w w')
    (hout : ∀ x, c.Below x d → (c.kind x).isHistory = false → w'.data.isActive x = false)
    (hu : Obs.Unbroken w'.trace) (hd : c.context d = some m) (he : c.context e = some m)
    (hconc : c.kind m = .concurrentState → d = e) : c.Legal (some e) w' := by
  have hlevel : ∀ n, Obs.inProgress n w'.trace ↔ Obs.inProgress n w.trace := fun n =>
    (World.Level.of_plain hf.plain).inProgress
  have hnot : ∀ {x}, (c.kind x).isHistory = false → w'.data.isActive x = true → ¬ c.Below x d := by
    intro x hx ha hb
    rw [hout x hb hx] at ha
    cases ha
  -- an active context of a state inside `d` is `m`, and the state is `d`
  have hedge : ∀ {x p}, c.context x = some p → ¬ c.Below p d → c.Below x d → x = d ∧ p = m := by
    intro x p hp hpd hxd
    have hxd' : x = d := by
      by_contra hne
      exact hpd (Forest.below_parent (F := c.forest) hxd hne hp)
    subst hxd'
    exact ⟨rfl, Option.some.inj (hp.symm.trans hd)⟩
  refine ⟨hf.coherent, ?_, ?_, ?_, ?_⟩
  · intro p q hp ha hq
    have hqp := hf.coherent.links.pointers p q hq
    have hpd := hnot (isHistory_of_context hqp) ha
    obtain ⟨hap, hcur, -⟩ := hf.frame hpd
    have hqa := (h.live hp (hap ▸ ha) (hcur ▸ hq)).resolve_right (by simp)
    by_cases hqd : c.Below q d
    · exact Or.inr ⟨e, rfl, (hedge hqp hpd hqd).2 ▸ he⟩
    · exact Or.inl ((hf.frame hqd).1.trans hqa)
  · intro n r hn ha hi hr
    have hnd := hnot (by rw [hn]; rfl) ha
    have hra :=
      (h.regions hn ((hf.frame hnd).1 ▸ ha) (fun h => hi ((hlevel n).mpr h)) hr).resolve_right
      (by simp)
    by_cases hrd : c.Below r d
    · obtain ⟨rfl, rfl⟩ := hedge hr hnd hrd
      exact Or.inr (by rw [hconc hn]; rfl)
    · exact Or.inl ((hf.frame hrd).1.trans hra)
  · intro n hn hi _
    exact hf.clear hn (fun hi => h.clear hn hi (by simp)) hi
  · intro n hn
    have hn' := (hlevel n).mp hn
    exact ⟨(h.progress hn').1, h.alive hf hu hn'⟩

lemma Enterable.of_fades (h : c.Legal none w) (hf : c.Fades d w w')
    (hout : ∀ x, c.Below x d → (c.kind x).isHistory = false → w'.data.isActive x = false)
    (hd : c.context d = some m) (he : c.context e = some m) (hm : w.data.isActive m = true)
    (hcur : c.kind m ≠ .concurrentState → w.data.current m = some d)
    (hconc : c.kind m = .concurrentState → d = e) : c.Enterable m e w' := by
  have hnone : ∀ {y}, c.kind m ≠ .concurrentState → c.context y = some m →
      (c.kind y).isHistory = false → w'.data.isActive y = false := by
    intro y hk hy hyk
    by_contra ha
    have hyd := h.single hyk (hf.lower (by simpa using ha)) hy hk
    obtain rfl := Option.some.inj ((hcur hk).symm.trans hyd)
    exact ha (hout d (Forest.below_refl _) hyk)
  refine ⟨he, ?_, fun hk hy hyk ha => ?_, fun hk => ?_⟩
  · rw [(hf.frame (Forest.not_below_of_parent (F := c.forest) hd)).1]
    exact hm
  · rw [hnone hk hy hyk] at ha
    cases ha
  · have hh := StateKind.isHistory_eq_false_of_isPseudo hk
    by_cases hc : c.kind m = .concurrentState
    · exact hout e (hconc hc ▸ Forest.below_refl _) hh
    · exact hnone hc he hh

/-- A state is entered: it is active, and the current state of its context. A concurrent state
begins its own entry. -/
lemma Legal.enter (h : c.Legal (some s) w) (he : c.Enterable p s w) (hw : c.Links w'.data)
    (hrec : c.Recorded w') (hext : w.Extends w')
    (hact : ∀ x, w'.data.isActive x = (decide (x = s) || w.data.isActive x))
    (hcur : ∀ x, w'.data.current x = if x = s then none
      else if x = p ∧ (w.data.getData p).isSome then some s else w.data.current x)
    (hdata : ∀ x, x ≠ s → w'.data.hasData x = w.data.hasData x)
    (hin : ∀ n, Obs.inProgress n w'.trace → Obs.inProgress n w.trace
      ∨ n = s ∧ c.kind s = .concurrentState)
    (hkeep : ∀ n, Obs.inProgress n w.trace → Obs.inProgress n w'.trace)
    (hself : c.kind s = .concurrentState → Obs.inProgress s w'.trace) : c.Legal none w' := by
  have hps : p ≠ s := fun h => Forest.ne_of_parent (F := c.forest) he.context h.symm
  have hsome : (w.data.getData p).isSome = true := by
    obtain ⟨d, hd, -⟩ := w.data.exists_of_isActive he.parent
    simp [hd]
  have hcurp : w'.data.current p = some s := by
    rw [hcur, if_neg hps, if_pos ⟨rfl, hsome⟩]
  have hcur' : ∀ {x}, x ≠ s → x ≠ p → w'.data.current x = w.data.current x := by
    intro x hx hxp
    rw [hcur, if_neg hx, if_neg fun h => hxp h.1]
  have hactive : ∀ {x}, w'.data.isActive x = true → x = s ∨ w.data.isActive x = true := by
    intro x hx
    simpa [hact] using hx
  have hrise : ∀ {x}, w.data.isActive x = true → w'.data.isActive x = true := by
    intro x hx
    simp [hact, hx]
  have hselfa : w'.data.isActive s = true := by simp [hact]
  -- nothing was active inside `s`
  have hempty : ∀ {x}, (c.kind x).isHistory = false → w.data.isActive x = true →
      c.context x ≠ some s := by
    intro x hx hxa hxs
    have hk := c.context_kind hxs
    have hs : (c.kind s).isPseudo = false := by
      cases hks : c.kind s <;> simp_all [StateKind.isPseudo, StateKind.isContext]
    have hsa := h.upward hx hxa hxs
    rw [he.fresh hs] at hsa
    cases hsa
  refine ⟨⟨hrec, hw, ?_, ?_, ?_, ?_⟩, ?_, ?_, ?_, ?_⟩
  · intro x q hx hxa hq
    rcases hactive hxa with rfl | hxa
    · obtain rfl := Option.some.inj (he.context.symm.trans hq)
      exact hrise he.parent
    · exact hrise (h.upward hx hxa hq)
  · intro x q hx hxa hq hk
    rcases hactive hxa with rfl | hxa
    · obtain rfl := Option.some.inj (he.context.symm.trans hq)
      exact hcurp
    · by_cases hqp : q = p
      · subst hqp
        rw [he.vacant hk hq hx hxa]
        exact hcurp
      · have hqs : q ≠ s := fun hqs => hempty hx hxa (hqs ▸ hq)
        rw [hcur' hqs hqp]
        exact h.single hx hxa hq hk
  · intro q hq
    by_cases hrp : c.root = p
    · exact hrise (hrp ▸ he.parent)
    · have hrs : c.root ≠ s := fun h => ne_root_of_context he.context h.symm
      rw [hcur' hrs hrp] at hq
      exact hrise (h.rooted hq)
  · intro x q hx hxa hq
    rcases hactive hxa with rfl | hxa
    · obtain rfl := Option.some.inj (he.context.symm.trans hq)
      exact Or.inl (hrise he.parent)
    · exact (h.anchored hx hxa hq).imp hrise hext.mem
  · intro y q hk hya hq
    refine Or.inl ?_
    by_cases hys : y = s
    · rw [hcur, if_pos hys] at hq
      cases hq
    by_cases hyp : y = p
    · rw [hyp, hcurp] at hq
      exact Option.some.inj hq ▸ hselfa
    · rw [hcur' hys hyp] at hq
      refine hrise ((h.live hk ((hactive hya).resolve_left hys) hq).resolve_right ?_)
      rintro ⟨x, hx, hxy⟩
      obtain rfl := Option.mem_some_iff.mp hx
      exact hyp (Option.some.inj (hxy.symm.trans he.context))
  · intro n r hn hna hi hr
    refine Or.inl ?_
    rcases hactive hna with rfl | hna
    · exact absurd (hself hn) hi
    · rcases h.regions hn hna (fun h => hi (hkeep n h)) hr with hra | hrs
      · exact hrise hra
      · rw [← Option.mem_some_iff.mp hrs]
        exact hselfa
  · intro n hn hna _
    have hns : n ≠ s := by
      rintro rfl
      rw [hselfa] at hna
      cases hna
    rw [hdata n hns]
    refine h.clear hn ?_ fun hm => hns (Option.mem_some_iff.mp hm).symm
    by_contra hna'
    rw [hrise (by simpa using hna')] at hna
    cases hna
  · intro n hn
    rcases hin n hn with hn | ⟨rfl, hk⟩
    · exact ⟨(h.progress hn).1, hrise (h.progress hn).2⟩
    · exact ⟨hk, hselfa⟩

/-- A concurrent state that is going to be entered is told which region comes next. -/
lemma Legal.registerRegion (hc : c.ActionsKeepData) (h : c.Legal (some n) w)
    (hk : c.kind n = .concurrentState) : c.Legal (some n) (registerRegion n r w) := by
  have ha : ∀ x, (Chart.registerRegion n r w).data.isActive x = w.data.isActive x := fun _ =>
    isActive_registerRegion
  have hcur : ∀ x, (Chart.registerRegion n r w).data.current x = w.data.current x := fun _ =>
    current_registerRegion
  refine ⟨⟨h.toRecorded.of_eq ha rfl, (compatible_links hc).registerRegion n r w hk h.links,
    ?_, ?_, ?_, ?_⟩, ?_, ?_, ?_, ?_⟩
  · intro x p
    rw [ha, ha]
    exact h.upward
  · intro x p
    rw [ha, hcur]
    exact h.single
  · intro q
    rw [ha, hcur]
    exact h.rooted
  · intro x p
    rw [ha, ha]
    exact h.anchored
  · intro p q
    rw [ha, ha, hcur]
    exact h.live
  · intro m r'
    rw [ha, ha]
    exact h.regions
  · intro m hm hi hmn
    rw [ha] at hi
    have hne : m ≠ n := fun h => hmn (by rw [h]; rfl)
    simpa [hne] using h.clear hm hi hmn
  · intro m
    rw [ha]
    exact h.progress

/-- A state to be entered next that is active already is nothing special. -/
lemma Legal.of_active (h : c.Legal (some s) w) (hs : (c.kind s).isHistory = false)
    (ha : w.data.isActive s = true) : c.Legal none w where
  toCoherent := h.toCoherent
  live {p q} hp hpa hq := by
    refine Or.inl ((h.live hp hpa hq).elim id ?_)
    rintro ⟨x, hx, hxp⟩
    obtain rfl := Option.mem_some_iff.mp hx
    obtain rfl := Option.some.inj (hq.symm.trans (h.single hs ha hxp hp))
    exact ha
  regions hn hna hi hr := Or.inl <| (h.regions hn hna hi hr).elim id fun hrs =>
    Option.mem_some_iff.mp hrs ▸ ha
  clear {n} hn hi _ := by
    refine h.clear hn hi fun hns => ?_
    rw [← Option.mem_some_iff.mp hns, ha] at hi
    cases hi
  progress := h.progress

/-- The entry into a concurrent state ends once all its regions are active, but for one to be
entered next. -/
lemma Legal.close (h : c.Legal none w)
    (hr : ∀ r, c.context r = some n → w.data.isActive r = true ∨ r ∈ next)
    (hn : ¬ Obs.inProgress n (Obs.entered n :: w.trace)) : c.Legal next (w.log (.entered n)) := by
  have hother : ∀ {x}, x ≠ n →
      (Obs.inProgress x (Obs.entered n :: w.trace) ↔ Obs.inProgress x w.trace) := by
    intro x hx
    simp [Obs.inProgress, Obs.isEntering, Obs.isEntered, Ne.symm hx]
  refine ⟨⟨h.toRecorded.log_entered, h.links, h.upward, h.single, h.rooted,
    fun hx ha hp => (h.anchored hx ha hp).imp id (List.mem_cons_of_mem _)⟩, (h.mono).live, ?_,
      (h.mono).clear, ?_⟩
  · intro m r hm hma hi hmr
    by_cases hmn : m = n
    · exact hr r (hmn ▸ hmr)
    · exact (h.mono).regions hm hma (fun hp => hi ((hother hmn).mpr hp)) hmr
  · intro m hm
    by_cases hmn : m = n
    · exact absurd (hmn ▸ hm) hn
    · exact h.progress ((hother hmn).mp hm)

/-! ### Orderly runs -/

/-- No concurrent state has `x` and `y` in different regions. -/
def Together (c : Chart S T E P) (x y : S) : Prop := ∀ {n r r'}, c.kind n = .concurrentState →
  c.context r = some n → c.context r' = some n → c.Below x r → c.Below y r' → r = r'

/-- On the way down from `s` to `y`, nothing active stands beside the next state. -/
def Vacant (c : Chart S T E P) (s y : S) (m : Metadata S) : Prop := ∀ {b q x}, c.Below y b →
  c.context b = some q → c.Below q s → c.kind q ≠ .concurrentState → c.context x = some q →
  (c.kind x).isHistory = false → m.isActive x = true → x = b

/-- A transition may lead from `x` to `y`: to `x` itself, beside it without a change of the region,
or down a vacant way. -/
def Leads (c : Chart S T E P) (x y : S) (m : Metadata S) : Prop :=
  x = y ∨ ¬ c.Below x y ∧ (¬ c.Below y x ∧ c.Together x y ∨ c.Below y x ∧ c.Vacant x y m)

/-- The transition leaves no fork, and is internal or leads somewhere it may. -/
def Proper (c : Chart S T E P) (t : T) (m : Metadata S) : Prop :=
  c.kind (c.source t) ≠ .pseudoState .fork
    ∧ (c.internal t = true ∨ c.Leads (c.source t) (c.target t) m)

/-- No concurrent state is left while it is being entered, the transitions that fire are proper
ones, and no fork is entered. -/
structure Orderly (c : Chart S T E P) (l : List (Obs S T)) : Prop where
  unbroken : Obs.Unbroken l
  proper : ∀ {t m}, .fire t m ∈ l → t ∈ c.ownedTransitions → c.Proper t m
  noFork : ∀ {s}, .activated s ∈ l → c.kind s ≠ .pseudoState .fork

/-- Regions are hierarchical, and actions leave the metadata alone. -/
structure Standard (c : Chart S T E P) : Prop where
  regions : ∀ {s n}, c.context s = some n → c.kind n = .concurrentState →
    c.kind s = .hierarchicalState
  actions : c.ActionsKeepData

lemma Orderly.of_append {l l' : List (Obs S T)} (h : c.Orderly (l' ++ l)) : c.Orderly l where
  unbroken := h.unbroken.of_append
  proper hm := h.proper (List.mem_append_right _ hm)
  noFork hm := h.noFork (List.mem_append_right _ hm)

lemma Orderly.of_extends (h : c.Orderly w'.trace) (hw : w.Extends w') : c.Orderly w.trace := by
  obtain ⟨l, hl, -⟩ := hw
  exact (hl ▸ h).of_append

end Chart

end CppStatecharts
