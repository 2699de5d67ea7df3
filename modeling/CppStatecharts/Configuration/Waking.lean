import CppStatecharts.Configuration.Memory

/-!
Histories that are the current state of their context.

* `Chart.Woken`: where a history is the current state, the first state it has stored is active.
* `Chart.Blank`: where a history is the current state, it has stored nothing. In connected metadata
  this is the same (`Chart.Woken.blank`).
* `Chart.Waking`: the invariant of a run, as long as its firings begin with connected metadata. The
  entry of a history breaks it for a moment, until the first state it has stored is entered
  (`PseudoState.activate_waking`).
* `Statechart.blank_session`: in orderly sessions, whenever a firing began, a history that was the
  current state had stored nothing.
-/

namespace CppStatecharts

variable {S T E P : Type} [DecidableEq S] {c : Chart S T E P}
variable {w w₁ w' : World S T E P} {m m' : Metadata S} {s x p q h : S} {t : T} {k : ℕ} {u : PUnit}
variable {l : List (Obs S T)}

/-! ### The invariant -/

/-- Where a history is the current state, the first state it has stored is active. -/
def Chart.Woken (c : Chart S T E P) (m : Metadata S) : Prop :=
  ∀ p h, c.history p = some h → m.current p = some h →
    ∀ q ∈ (m.stateset h).head?, m.isActive q = true

/-- Where a history is the current state, it has stored nothing. -/
def Chart.Blank (c : Chart S T E P) (m : Metadata S) : Prop :=
  ∀ p h, c.history p = some h → m.current p = some h → m.stateset h = []

/-- Every firing began with connected metadata. -/
def Chart.Connects (c : Chart S T E P) (l : List (Obs S T)) : Prop :=
  ∀ t m, .fire t m ∈ l → c.Connected m

/-- As long as firings begin with connected metadata, histories that are the current state have
woken what they have stored, and had nothing to wake whenever a firing began. -/
structure Chart.Waking (c : Chart S T E P) (w : World S T E P) : Prop where
  links : c.Links w.data
  woken : c.Connects w.trace → c.Woken w.data
  blank : c.Connects w.trace → ∀ t m, .fire t m ∈ w.trace → c.Blank m

namespace Chart

omit [DecidableEq S] in
/-- The first state that a history may store is a child of its context, and no history. -/
lemma HistoryChain.head_spec {l : List S} (hl : c.HistoryChain h p (q :: l))
    (hh : (c.kind h).isHistory = true) (hp : c.context h = some p) :
    c.context q = some p ∧ (c.kind q).isHistory = false := by
  obtain ⟨z, hz⟩ := hl.descends
  refine ⟨hz.1, ?_⟩
  by_contra hq
  refine hl.head ?_
  have hqp : c.context q = some p := hz.1
  rw [List.head?_cons, c.history_unique (by simpa using hq) hh (hqp.trans hp.symm)]

/-- Where just the current state of a state may be active inside, a history has nothing to wake. -/
lemma Woken.blank (h : c.Woken m) (hm : c.Connected m) (hl : c.Links m) : c.Blank m := by
  intro p h' hph hcur
  obtain ⟨hh, hctx⟩ := history_eq_some_iff.mp hph
  have hchain := hl.histories h' p hh hctx
  cases hset : m.stateset h' with
  | nil => rfl
  | cons q l =>
      rw [hset] at hchain
      obtain ⟨hqp, hq⟩ := hchain.head_spec hh hctx
      have hsingle := hm.single hq (h p h' hph hcur q (by simp [hset])) hqp
        (by rw [c.history_context hh hctx]; decide)
      obtain rfl := Option.some.inj (hcur.symm.trans hsingle)
      rw [hh] at hq
      cases hq

lemma Woken.of_le (h : c.Woken m)
    (hcur : ∀ {p h}, c.history p = some h → m'.current p = some h → m.current p = some h)
    (hset : ∀ {p h}, c.history p = some h → m'.stateset h = m.stateset h)
    (hact : ∀ {x}, m.isActive x = true → m'.isActive x = true) : c.Woken m' :=
  fun p h' hp hc q hq => hact (h p h' hp (hcur hp hc) q (hset hp ▸ hq))

/-- What the first change of an activation does. -/
lemma Receives.spec (hr : c.Receives s w w₁) : w₁.data.isActive s = true
    ∧ (∀ {x}, w.data.isActive x = true → w₁.data.isActive x = true)
    ∧ (∀ {x q}, w₁.data.current x = some q → q = s ∨ w.data.current x = some q)
    ∧ ∀ {x}, w₁.data.stateset x = w.data.stateset x := by
  cases hr with
  | active ha => exact ⟨ha, id, Or.inr, rfl⟩
  | arrive =>
      refine ⟨by simp, fun ha => by simp [ha], fun hc => ?_, stateset_arrive⟩
      rw [current_arrive] at hc
      exact (current_activateData_cases hc).imp And.left id
  | visit =>
      exact ⟨by simp, fun ha => by simp [ha], fun hc => (current_activateData_cases hc).imp
        And.left id, Metadata.stateset_activate⟩

namespace Waking

/-- Nothing fires. -/
lemma of_adds (hw : c.Waking w) (hl : c.Links w'.data) (hk : c.Woken w.data → c.Woken w'.data)
    (ht : w.Adds (fun o => ∀ t m, o ≠ .fire t m) w') : c.Waking w' := by
  obtain ⟨l, htrace, hn⟩ := ht
  have hmem : ∀ t m, .fire t m ∈ w'.trace → .fire t m ∈ w.trace := fun t m hm => by
    rw [htrace] at hm
    exact (List.mem_append.mp hm).resolve_left fun hm => hn _ hm _ _ rfl
  have hconn : c.Connects w'.trace → c.Connects w.trace := fun h t m hm =>
    h t m (htrace ▸ List.mem_append_right _ hm)
  exact ⟨hl, fun h => hk (hw.woken (hconn h)),
    fun h t m hm => hw.blank (hconn h) t m (hmem t m hm)⟩

lemma of_data (hw : c.Waking w) (hd : w'.data = w.data)
    (ht : w.Adds (fun o => ∀ t m, o ≠ .fire t m) w') : c.Waking w' :=
  hw.of_adds (hd ▸ hw.links) (by rw [hd]; exact id) ht

lemma receives (hc : c.ActionsKeepData) (hw : c.Waking w) (hs : (c.kind s).isHistory = false)
    (hr : c.Receives s w w₁) : c.Waking w₁ := by
  obtain ⟨-, hact, hcur, hset⟩ := hr.spec
  refine hw.of_adds ((compatible_links hc).receives hs hr hw.links) (fun h => ?_)
    (steady_unfired.receives hs hr)
  refine h.of_le (fun hp hcp => (hcur hcp).resolve_left ?_) (fun _ => hset) hact
  rintro rfl
  rw [(history_eq_some_iff.mp hp).1] at hs
  cases hs

end Waking

end Chart

open Chart

/-! ### Along a run -/

section Methods

variable (hc : c.ActionsKeepData)

include hc

lemma arriving_waking : Arriving c Set.univ fun w w' => c.Waking w → c.Waking w' where
  null := trivial
  refl _ := id
  trans h h' := h' ∘ h
  fallThrough _ _ _ _ hw := hw.of_data rfl (World.Adds.of_cons rfl (by simp))
  bracket _ _ _ h hw := (h (hw.of_data rfl (World.Adds.of_cons rfl (by simp)))).of_data rfl
    (World.Adds.of_cons rfl (by simp))
  entry _ _ hw := hw.of_data hc.data_entry (World.adds_perform (by simp))
  doing _ _ hw := hw.of_data hc.data_doing (World.adds_perform (by simp))
  visit _ _ hs hh hw := hw.receives hc hh (.visit hs)
  arrive _ _ hs hi hw :=
    hw.receives hc (StateKind.isHistory_eq_false_of_isPseudo hs) (.arrive hs hi)
  registerRegion n r w hn hw := by
    refine hw.of_adds ((compatible_links hc).registerRegion n r w hn hw.links) (fun h => ?_)
      (World.Adds.of_eq rfl)
    refine h.of_le (fun _ => current_registerRegion.symm.trans) (fun hp => ?_)
      fun ha => isActive_registerRegion.trans ha
    rw [stateset_registerRegion, if_neg]
    rintro ⟨rfl, -⟩
    have hh := (history_eq_some_iff.mp hp).1
    rw [hn] at hh
    cases hh

/-- The entry of a history makes it the current state, but then the first state it has stored, if
any, is entered at once. -/
lemma PseudoState.activate_waking
    (hk : ∀ j ≤ k, (c.methods j).Enter Set.univ fun w w' => c.Waking w → c.Waking w')
    (hs : (c.kind s).isHistory = true) :
    Keeps (fun w w' => c.Waking w → c.Waking w') (PseudoState.activate c (c.methods k) s) := by
  have := (arriving_waking hc).std_refl
  have := (arriving_waking hc).isTrans
  intro w b w' ha hw
  have hps : (c.kind s).isPseudo = true := by
    rcases StateKind.eq_of_isHistory hs with hk | hk <;> rw [hk] <;> rfl
  obtain ⟨p, hp⟩ := context_eq_some_of_ne_root fun hroot => by
    rw [(c.kind_statechart s).mpr hroot] at hs
    cases hs
  have hlinks : c.Links (c.visit s w).data :=
    hc.data_visit ▸ (compatible_links hc).activateData s w hps hw.links
  have hadds : w.Adds (fun o => ∀ t m, o ≠ .fire t m) (c.visit s w) :=
    (World.Adds.of_cons rfl (by simp)).trans (World.adds_perform (by simp))
  obtain ⟨-, hact, hcur, hset⟩ := (Receives.visit (c := c) (w := w) hps).spec
  rw [← hc.data_visit] at hact hcur hset
  rcases (PseudoState.returns_activate.mp ha).2 with ⟨-, ha⟩ | ⟨hh, -⟩ | ⟨hh, -⟩
  · have hchain := hlinks.histories s p hs hp
    cases hl : (c.visit s w).data.stateset s with
    | nil =>
        rw [hl] at ha
        rw [returns_forM_nil.mp ha]
        refine hw.of_adds hlinks (fun hwoken p' h hph hc' q hq => ?_) hadds
        rcases hcur hc' with rfl | hc'
        · rw [hl] at hq
          cases hq
        · exact hact (hwoken p' h hph hc' q (hset ▸ hq))
    | cons q l =>
        rw [hl] at ha hchain
        obtain ⟨-, hq⟩ := hchain.head_spec hs hp
        obtain ⟨w₂, h₁, h₂⟩ := returns_forM_cons.mp ha
        obtain ⟨b, w₃, h₁, h₃⟩ := returns_bind.mp h₁
        obtain ⟨-, rfl⟩ := returns_pure.mp h₃
        cases k with
        | zero => exact absurd h₁ (by simp [Chart.methods])
        | succ k =>
        obtain ⟨w₁, hr, hrest⟩ := (arriving_waking hc).activate_receives (hk k k.le_succ) hq h₁
        obtain ⟨hqa, hact₁, hcur₁, hset₁⟩ := hr.spec
        have hw₁ : c.Waking w₁ := by
          refine hw.of_adds ((compatible_links hc).receives hq hr hlinks)
            (fun hwoken p' h hph hc' y hy => ?_) (hadds.trans (steady_unfired.receives hq hr))
          rw [hset₁] at hy
          rcases hcur₁ hc' with rfl | hc'
          · rw [(history_eq_some_iff.mp hph).1] at hq
            cases hq
          rcases hcur hc' with rfl | hc'
          · rw [hl] at hy
            obtain rfl := Option.some.inj hy
            exact hqa
          · exact hact₁ (hact (hwoken p' h hph hc' y (hset ▸ hy)))
        have hloop := keeps_forM (fun q _ =>
          keeps_bind ((hk _ le_rfl).activate q) fun _ => keeps_pure _) _ _ _ h₂
        exact hloop (hrest hw₁)
  · rw [hs] at hh
    cases hh
  · rw [hs] at hh
    cases hh

/-- A firing that begins with connected metadata finds nothing to wake, and what it leaves stores
nothing in a history that is the current state. -/
lemma Transition.fire_waking
    (hv : (c.methods k).Enter Set.univ fun w w' => c.Waking w → c.Waking w')
    (hw : c.Waking w) (hf : Returns (Transition.fire c (c.methods k) t) w u w') : c.Waking w' := by
  obtain ⟨w₁, w₂, h₁, h₂, rfl⟩ := Transition.returns_fire.mp hf
  have hw₀ : c.Waking (w.log (.fire t w.data)) := by
    have hold : c.Connects (w.log (.fire t w.data)).trace → c.Connects w.trace := fun h t m hm =>
      h t m (List.mem_cons_of_mem _ hm)
    refine ⟨hw.links, fun h => hw.woken (hold h), fun h t' m' hm => ?_⟩
    rcases List.mem_cons.mp hm with heq | hm
    · obtain ⟨rfl, rfl⟩ := Obs.fire.inj heq
      exact (hw.woken (hold h)).blank (h _ _ List.mem_cons_self) hw.links
    · exact hw.blank (hold h) t' m' hm
  have hw₁ : c.Waking w₁ := by
    have := (compatible_links hc).std_refl
    have := (compatible_links hc).isTrans
    have hrec := exits_recedes hc hw₀.links.pointers h₁
    obtain ⟨l, hl, hpart⟩ := hrec.adds
    have hconn : c.Connects w₁.trace → c.Connects (w.log (.fire t w.data)).trace :=
      fun h t m hm => h t m (hl ▸ List.mem_append_right _ hm)
    refine ⟨keeps_forM (fun s _ => (compatible_links hc).deactivate k s) _ _ _ h₁ hw₀.links,
      fun h p q hpq hcur y hy => ?_, fun h t' m' hm => hw₀.blank (hconn h) t' m' ?_⟩
    · obtain ⟨hcur₀, hset⟩ := hrec.resting hpq hcur
      rw [hset, show (w.log _).data.stateset q = [] from
        hw₀.blank (hconn h) t w.data List.mem_cons_self p q hpq hcur₀] at hy
      cases hy
    · rw [hl] at hm
      refine (List.mem_append.mp hm).resolve_left fun hm => ?_
      rcases hpart _ hm with ⟨x, -, hx⟩ | ⟨id, hx⟩ | ⟨x, hx⟩ <;> cases hx
  have hw₂ := (arriving_waking hc).activateAll hv _ _ _ _ h₂
    (hw₁.of_data hc.data_effect (World.adds_perform (by simp)))
  exact hw₂.of_data rfl (World.Adds.of_cons rfl (by simp))

lemma enter_waking : ∀ k, (c.methods k).Enter Set.univ fun w w' => c.Waking w → c.Waking w' :=
  (arriving_waking hc).methods (fun _ hk _ hs => PseudoState.activate_waking hc hk hs)
    fun k hv t e _ w b w' _ hx hw => by
      rcases (Transition.returns_execute (pure_methods c k)).mp hx with ⟨-, -, -, hf⟩ | ⟨-, rfl, -⟩
      · exact Transition.fire_waking hc hv hw hf
      · exact hw

end Methods

namespace Statechart

/-- The beginning of a call makes no history the current state. -/
lemma waking_enter (hw : c.Waking w) : c.Waking (enter c w) := by
  refine hw.of_adds (links_enter w) (fun _ p h hph hcur => ?_) (adds_enter w)
  obtain ⟨hh, -⟩ := history_eq_some_iff.mp hph
  have hroot : ∀ {w₀ : World S T E P}, w₀.data = .reset →
      ¬ (c.activateData c.root w₀).data.current p = some h := fun hd hcur => by
    rcases current_activateData_cases hcur with ⟨rfl, -⟩ | hcur
    · rw [(c.kind_statechart c.root).mpr rfl] at hh
      cases hh
    · rw [hd] at hcur
      cases hcur
  unfold enter at hcur
  split at hcur
  · exact absurd hcur (hroot rfl)
  · rename_i st hst
    rcases current_activateData_cases hcur with ⟨rfl, -⟩ | hcur
    · rw [(startState_eq_some hst).1] at hh
      cases hh
    · exact absurd hcur (hroot rfl)

lemma waking_session {ok : S → World S T E P → Prop} (hc : c.ActionsKeepData)
    (hw : Session c ok w) : c.Waking w := by
  obtain ⟨a, hw⟩ := Session.rule (arriving_waking hc) (enter_waking hc)
    (fun a w hw => hw.of_data rfl (World.Adds.of_eq rfl)) (fun w hw => waking_enter hw)
    (fun w hw => hw.of_adds links_reset (fun _ _ _ _ hcur => by cases hcur)
      (World.Adds.of_cons rfl (by simp))) hw
  exact hw ⟨links_reset, fun _ _ _ _ hcur => (by cases hcur), fun _ _ _ hm => (by cases hm)⟩

/-- **Nothing to wake.** In every orderly session, whenever a firing began, a history that was the
current state of its context had stored nothing. -/
theorem blank_session (hr : c.Standard) (hw : Unhampered c w) (ho : c.Orderly w.trace)
    (hm : .fire t m ∈ w.trace) : c.Blank m := by
  refine (waking_session hr.actions hw).blank (fun t' m' hm => ?_) t m hm
  obtain ⟨b, hended⟩ := ended_session hw hm
  exact ((settled_session hr hw ho).1.legal.carried hended).connected

end Statechart

end CppStatecharts
