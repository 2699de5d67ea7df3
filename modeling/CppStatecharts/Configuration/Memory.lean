import CppStatecharts.Configuration.Recollection
import CppStatecharts.Configuration.RoundTrip
import CppStatecharts.Configuration.Sessions

/-!
What a history remembers over whole runs.

* `Chart.Remembering`: a history has stored what it remembers according to the record of the run,
  now and whenever a firing began or ended.
* `entering_remembering`, `Transition.fire_remembering`: everything outside firings keeps this, and
  firings do.
* `Statechart.remembers_session`: it holds after every sequence of calls.
* `Statechart.reinstates_session`: in orderly sessions, a firing that leads to the history makes
  active just what the history remembers.
-/

namespace CppStatecharts

variable {S T E P : Type} [DecidableEq S] {c : Chart S T E P}
variable {w w₁ w' : World S T E P} {m : Metadata S} {s x p q n h : S} {t : T} {k : ℕ} {u : PUnit}
variable {l l' newer older : List (Obs S T)}

/-- Current states are children, histories have stored a way down, and of the states that are
neither concurrent nor histories just the active ones have a record. -/
structure Chart.Sound (c : Chart S T E P) (m : Metadata S) : Prop where
  links : c.Links m
  active : ∀ {x}, c.kind x ≠ .concurrentState → (c.kind x).isHistory = false →
    m.hasData x = true → m.isActive x = true

/-- Every firing began with sound metadata, and when it began and when it ended, histories had
stored a way down and the history `h` of `p` had stored what it remembered. -/
def Chart.Recalls (c : Chart S T E P) (p h : S) : List (Obs S T) → Prop
  | [] => True
  | .fire _ m :: l => (c.Sound m ∧ m.stateset h = c.memory p h l) ∧ c.Recalls p h l
  | .fired _ _ b :: l => (c.Links b ∧ b.stateset h = c.memory p h l) ∧ c.Recalls p h l
  | _ :: l => c.Recalls p h l

/-- The marks of `fire` and `fired` are the ones that `Recalls` looks at. -/
def Obs.isFiring : Obs S T → Bool
  | .fire .. | .fired .. => true
  | _ => false

lemma Chart.recalls_append (hl : ∀ o ∈ l', Obs.isFiring o = false) :
    c.Recalls p h (l' ++ l) ↔ c.Recalls p h l := by
  induction l' with
  | nil => rfl
  | cons o l' ih =>
      rw [← ih fun o ho => hl o (List.mem_cons_of_mem _ ho)]
      have ho := hl o List.mem_cons_self
      cases o <;> first | rfl | cases ho

lemma Chart.Recalls.of_append (hl : c.Recalls p h (newer ++ l)) : c.Recalls p h l := by
  induction newer with
  | nil => exact hl
  | cons o newer ih => cases o <;> first | exact ih hl | exact ih hl.2

/-- The history has stored what it remembers. -/
structure Chart.Remembering (c : Chart S T E P) (p h : S) (w : World S T E P) : Prop where
  links : c.Links w.data
  kept : c.Kept w
  stateset : w.data.stateset h = c.memory p h w.trace
  recalls : c.Recalls p h w.trace

namespace Chart.Remembering

variable (hc : c.ActionsKeepData) (hph : c.history p = some h)

/-- Nothing was stored or forgotten, and no firing began or ended. -/
lemma of_adds (hw : c.Remembering p h w) (hm : c.Links w'.data) (hk : c.Kept w')
    (hs : w'.data.stateset h = w.data.stateset h)
    (ht : w.Adds (fun o => o.isMum p = true ∧ o.isFiring = false) w') :
    c.Remembering p h w' := by
  obtain ⟨l, hl, hmum⟩ := ht
  refine ⟨hm, hk, ?_, ?_⟩
  · rw [hs, hl, memory_append fun o ho => (hmum o ho).1]
    exact hw.stateset
  · rw [hl, recalls_append fun o ho => (hmum o ho).2]
    exact hw.recalls

lemma log {o : Obs S T} (hw : c.Remembering p h w) (ho : o.isMum p = true)
    (hf : o.isFiring = false) : c.Remembering p h (w.log o) :=
  hw.of_adds hw.links (hw.kept.of_eq (World.extends_log _ _) (fun _ _ => rfl) fun _ => rfl) rfl
    (World.Adds.of_cons rfl ⟨ho, hf⟩)

lemma perform {o : Obs S T} {a : Option (Action S P)} (hw : c.Remembering p h w)
    (hd : (w.perform o a).data = w.data) (ho : o.isMum p = true) (hf : o.isFiring = false) :
    c.Remembering p h (w.perform o a) :=
  hw.of_adds (hd ▸ hw.links)
    (hw.kept.of_eq (World.adds_perform trivial) (fun _ _ => by rw [hd]) fun _ => by rw [hd])
    (by rw [hd]) (World.adds_perform ⟨ho, hf⟩)

end Chart.Remembering

open Chart

section Remembering

variable (hc : c.ActionsKeepData) (hph : c.history p = some h)

include hc hph

/-- Nothing that happens outside firings makes a history store or forget anything. -/
lemma entering_remembering :
    Entering c Set.univ fun w w' => c.Remembering p h w → c.Remembering p h w' where
  null := trivial
  refl _ := id
  trans h h' := h' ∘ h
  fallThrough _ _ _ _ hw := hw.log rfl rfl
  bracket _ _ _ h hw := (h (hw.log rfl rfl)).log rfl rfl
  entry _ _ hw := hw.perform hc.data_entry rfl rfl
  doing _ _ hw := hw.perform hc.data_doing rfl rfl
  activateData s w hs hw := hw.of_adds ((compatible_links hc).activateData s w hs hw.links)
    ((compatible_kept hc).activateData s w hs hw.kept) Metadata.stateset_activate
    (World.Adds.of_cons rfl ⟨rfl, rfl⟩)
  arrive s w hs hi hw := hw.of_adds ((compatible_links hc).arrive s w hs hi hw.links)
    ((compatible_kept hc).arrive s w hs hi hw.kept) stateset_arrive
    ((World.Adds.of_cons rfl ⟨rfl, rfl⟩).trans (adds_scheduleTimeouts fun _ _ _ => ⟨rfl, rfl⟩))
  registerRegion n r w hn hw := by
    refine hw.of_adds ((compatible_links hc).registerRegion n r w hn hw.links)
      ((compatible_kept hc).registerRegion n r w hn hw.kept) ?_ (World.Adds.of_eq rfl)
    rw [stateset_registerRegion, if_neg]
    rintro ⟨rfl, -⟩
    have hh := (history_eq_some_iff.mp hph).1
    rw [hn] at hh
    cases hh

/-- A firing makes the history store what it will remember. -/
lemma Transition.fire_remembering
    (hv : (c.methods k).Enter Set.univ fun w w' => c.Remembering p h w → c.Remembering p h w')
    (hw : c.Remembering p h w) (hf : Returns (Transition.fire c (c.methods k) t) w u w') :
    c.Remembering p h w' := by
  obtain ⟨w₁, w₂, h₁, h₂, rfl⟩ := Transition.returns_fire.mp hf
  have hkept : c.Kept (w.log (.fire t w.data)) :=
    hw.kept.of_eq (World.extends_log _ _) (fun _ _ => rfl) fun _ => rfl
  have hstart : c.Recollecting p h t w.data (w.log (.fire t w.data)) :=
    ⟨hw.links.pointers, hkept, rfl, rfl, hw.stateset⟩
  have hexits := hstart.exits hc hph hw.links.pointers (fun _ => rfl) h₁
  have hw₁ : c.Remembering p h w₁ := by
    have := (compatible_links hc).std_refl
    have := (compatible_links hc).isTrans
    refine ⟨keeps_forM (fun s _ => (compatible_links hc).deactivate k s) _ _ _ h₁ hw.links,
      hexits.kept, hexits.stateset, ?_⟩
    obtain ⟨l, hl, hpart⟩ :=
      (exits_recedes hc (show c.Pointers (w.log _).data from hw.links.pointers) h₁).adds
    rw [hl, recalls_append]
    · exact ⟨⟨⟨hw.links, hw.kept.active⟩, hw.stateset⟩, hw.recalls⟩
    · intro o ho
      rcases hpart o ho with ⟨x, -, rfl⟩ | ⟨id, rfl⟩ | ⟨x, rfl⟩ <;> rfl
  have hw₂ := (entering_remembering hc hph).activateAll hv _ _ _ _ h₂
    (hw₁.perform hc.data_effect rfl rfl)
  exact ⟨hw₂.links, hw₂.kept.of_eq (World.extends_log _ _) (fun _ _ => rfl) fun _ => rfl,
    hw₂.stateset, ⟨hw₂.links, hw₂.stateset⟩, hw₂.recalls⟩

lemma enter_remembering : ∀ k, (c.methods k).Enter Set.univ fun w w' =>
    c.Remembering p h w → c.Remembering p h w' :=
  (entering_remembering hc hph).methods fun k hv t e _ w b w' _ hx hw => by
    rcases (Transition.returns_execute (pure_methods c k)).mp hx with ⟨-, -, -, hf⟩ | ⟨-, rfl, -⟩
    · exact Transition.fire_remembering hc hph hv hw hf
    · exact hw

namespace Statechart

variable {ok : S → World S T E P → Prop}

omit hc hph in
/-- A start makes every history forget. -/
lemma remembering_enter (hw : c.Remembering p h w) : c.Remembering p h (enter c w) := by
  refine ⟨links_enter w, kept_enter w, ?_, ?_⟩ <;> unfold enter <;> split
  · exact Metadata.stateset_activate
  · exact Metadata.stateset_activate.trans Metadata.stateset_activate
  · exact hw.recalls
  · exact hw.recalls

omit hc hph in
lemma remembering_forget (hw : c.Remembering p h w) : c.Remembering p h (forget w) where
  links := links_reset
  kept := Chart.Kept.of_empty fun _ => rfl
  stateset := rfl
  recalls := hw.recalls

lemma remembering_session (hw : Session c ok w) : c.Remembering p h w := by
  obtain ⟨a, hw⟩ := Session.rule (entering_remembering hc hph).toArriving
    (enter_remembering hc hph)
    (fun a w hw => hw.of_adds hw.links (hw.kept.of_eq (World.Adds.of_eq rfl) (fun _ _ => rfl)
      fun _ => rfl) rfl (World.Adds.of_eq rfl))
    (fun w hw => remembering_enter hw) (fun w hw => remembering_forget hw) hw
  exact hw ⟨links_reset, Chart.Kept.of_empty fun _ => rfl, rfl, trivial⟩

/-- What a history had stored when a firing ended. -/
lemma stateset_of_fired {t : T} {a b : Metadata S} (hw : Session c ok w)
    (heq : w.trace = newer ++ .fired t a b :: older) : b.stateset h = c.memory p h older := by
  have hrec := (remembering_session hc hph hw).recalls
  rw [heq] at hrec
  exact hrec.of_append.1.2

/-- **What a history has stored.** In every session, and whenever a firing ended in its course, the
history of a state holds what was stored when the state was left last, as far as this was worth
storing. -/
theorem remembers_session (hw : Session c ok w) : w.data.stateset h = c.memory p h w.trace
    ∧ ∀ newer t a b older, w.trace = newer ++ .fired t a b :: older →
      b.stateset h = c.memory p h older :=
  ⟨(remembering_session hc hph hw).stateset, fun _ _ _ _ _ heq => stateset_of_fired hc hph hw heq⟩

end Statechart

end Remembering

/-! ### What is restored -/

section Connected

omit [DecidableEq S]

/-- The states on the way up from an active one are active. -/
lemma Chart.Connected.active_of_below (hm : c.Connected m) (hx : (c.kind x).isHistory = false)
    (ha : m.isActive x = true) (hb : c.Below x s) : m.isActive s = true := by
  induction hb using Relation.ReflTransGen.head_induction_on with
  | refl => exact ha
  | head hq _ ih => exact ih (isHistory_of_context hq) (hm.upward hx ha hq)

/-- Where no state is concurrent, the active states inside `p` lie on the way down from it. -/
lemma Chart.Chain.mem_of_active {l : List S} (hm : c.Connected m)
    (hseq : ∀ {x}, c.Below x p → c.kind x ≠ .concurrentState) (hl : Chart.Chain m p l)
    (hx : c.Below x p) (hne : x ≠ p) (hk : (c.kind x).isHistory = false)
    (ha : m.isActive x = true) : x ∈ l := by
  obtain ⟨way, hway⟩ := Forest.exists_descends hx
  induction way generalizing p l with
  | nil => exact absurd hway hne
  | cons q way ih =>
      have hqp : c.context q = some p := hway.1
      have hxq : c.Below x q := hway.2.below
      have hqa := hm.active_of_below hk ha hxq
      have hcur := hm.single (isHistory_of_below hk hxq) hqa hqp (hseq (Forest.below_refl p))
      cases l with
      | nil => exact absurd (hcur.symm.trans hl) (by simp)
      | cons r l =>
          obtain rfl : q = r := Option.some.inj (hcur.symm.trans hl.1)
          by_cases hxq' : x = q
          · exact hxq' ▸ List.mem_cons_self
          · have hsub {y} (hy : c.Below y q) : c.kind y ≠ .concurrentState :=
              hseq (Forest.below_trans hy (Forest.below_of_parent (F := c.forest) hqp))
            exact List.mem_cons_of_mem q (ih hsub hl.2 hxq hxq' hway.2)

/-- The way down leads through active states, as a state with a current state has a record. -/
lemma Chart.Chain.isActive {l : List S} (hm : c.Connected m) (hs : c.Sound m)
    (hseq : ∀ {x}, c.Below x p → c.kind x ≠ .concurrentState) (hl : Chart.Chain m p l) :
    ∀ q ∈ l, m.isActive q = true := by
  induction l generalizing p with
  | nil => simp
  | cons q l ih =>
      have hqp : c.context q = some p := hs.links.pointers p q hl.1
      have hd : m.hasData p = true := by
        cases hd : m.getData p with
        | none => simpa [Metadata.current, hd] using hl.1
        | some d => simp [Metadata.hasData, hd]
      have hp := hseq (Forest.below_refl p)
      have hq := hm.live hp (hs.active hp (isHistory_of_context hqp) hd) hl.1
      have hsub {y} (hy : c.Below y q) : c.kind y ≠ .concurrentState :=
        hseq (Forest.below_trans hy (Forest.below_of_parent (F := c.forest) hqp))
      intro y hy
      rcases List.mem_cons.mp hy with rfl | hy
      · exact hq
      · exact ih hsub hl.2 y hy

end Connected

section Restored

variable {t' : T} {a b : Metadata S}

lemma Chart.Recalls.sound (hl : c.Recalls p h l) (hf : Obs.fire t m ∈ l) : c.Sound m := by
  induction l with
  | nil => cases hf
  | cons o l ih =>
      cases o <;> simp only [List.mem_cons, reduceCtorEq, false_or, Chart.Recalls] at hf hl
      case fire t' m' =>
        rcases hf with hf | hf
        · exact (Obs.fire.inj hf).2 ▸ hl.1.1
        · exact ih hl.2 hf
      case fired => exact ih hl.2 hf
      all_goals exact ih hl hf

omit [DecidableEq S] in
lemma Obs.mem_of_lastFire (hl : Obs.lastFire l = some (t, m)) : .fire t m ∈ l := by
  induction l with
  | nil => cases hl
  | cons o l ih =>
      by_cases ho : ∃ t m, o = .fire t m
      · obtain ⟨t', m', rfl⟩ := ho
        obtain ⟨rfl, rfl⟩ := Prod.mk.inj (Option.some.inj hl)
        exact List.mem_cons_self
      · rw [Obs.lastFire_cons fun t m h => ho ⟨t, m, h⟩] at hl
        exact List.mem_cons_of_mem o (ih hl)

/-- The firing of `t'` with the metadata `m` takes a deep history `h` of `p` for the whole way down:
`t'` does not leave the current state of `p` on its own account. -/
def Chart.Deep (c : Chart S T E P) (p h : S) (t' : T) (m : Metadata S) : Prop :=
  c.kind h = .pseudoState .deepHistory ∧ ∀ q, m.current p = some q → q ∉ c.deactivates t'

lemma recollection_eq_map {type : PseudoStateType} (hk : c.kind h = .pseudoState type)
    (hd : m.hasData h = true)
    (hst : HierarchicalState.storesHistory c p h (m.current p) = true) :
    c.recollection p h t' m
      = (c.calculateHistoryChain m type c.chainBound (m.current p)).map fun chain =>
        if (m.current p).any fun q => q ∈ c.deactivates t' then chain.take 1 else chain := by
  simp only [Chart.recollection, hk, hd, hst, Bool.and_self, ↓reduceIte]

/-- Where something is worth storing, it is found. -/
lemma exists_recollection (t' : T) (hm : c.Pointers m) (hh : (c.kind h).isHistory = true)
    (hd : m.hasData h = true)
    (hst : HierarchicalState.storesHistory c p h (m.current p) = true) :
    ∃ chain, c.recollection p h t' m = some chain := by
  obtain ⟨type, hk⟩ : ∃ type, c.kind h = .pseudoState type := by
    rcases StateKind.eq_of_isHistory hh with hk | hk <;> exact ⟨_, hk⟩
  obtain ⟨l, hl⟩ : ∃ l, c.calculateHistoryChain m type c.chainBound (m.current p) = some l :=
    exists_calculateHistoryChain hm (fun r hr => hm p r hr) (by unfold Chart.chainBound; omega)
  exact ⟨_, by rw [recollection_eq_map hk hd hst, hl, Option.map_some]⟩

/-- What is stored is the way down or its first state. -/
lemma recollection_cases {way chain : List S} (hm : c.Pointers m)
    (hph : c.history p = some h) (hseq : ∀ {x}, c.Below x p → c.kind x ≠ .concurrentState)
    (hway : Chart.Chain m p way) (hd : m.hasData h = true)
    (hst : HierarchicalState.storesHistory c p h (m.current p) = true)
    (hchain : c.recollection p h t' m = some chain) :
    (c.Deep p h t' m → chain = way) ∧ (¬ c.Deep p h t' m → chain = way.take 1) := by
  have hkinds := StateKind.eq_of_isHistory (Chart.history_eq_some_iff.mp hph).1
  obtain ⟨type, hk⟩ : ∃ type, c.kind h = .pseudoState type := by
    rcases hkinds with hk | hk <;> exact ⟨_, hk⟩
  rw [recollection_eq_map hk hd hst] at hchain
  obtain ⟨l, hl, rfl⟩ := Option.map_eq_some_iff.mp hchain
  cases way with
  | nil =>
      rw [show m.current p = none from hway, calculateHistoryChain_none] at hl
      simp [← Option.some.inj hl]
  | cons q way =>
      rw [hway.1] at hl ⊢
      simp only [Option.any_some, decide_eq_true_eq]
      rcases hkinds with hkh | hkh <;> obtain rfl := StateKind.pseudoState.inj (hk.symm.trans hkh)
      · refine ⟨fun hdeep => ?_, fun _ => ?_⟩
        · rw [hdeep.1] at hk
          cases hk
        · have hone : l = [q] := by
            rw [show c.chainBound = c.ownedStates.length + c.maxDepth + 1 by
              unfold Chart.chainBound; omega, Chart.calculateHistoryChain, if_pos rfl] at hl
            exact (Option.some.inj hl).symm
          split <;> simp [hone]
      · have hall : l = q :: way := by
          refine calculateHistoryChain_deep hm hway (fun x hx => ?_) (hway.1 ▸ hl)
          obtain ⟨z, hz⟩ := hway.descends hm
          exact hseq (hz.mem_iff.mp hx).2.1
        refine ⟨fun hdeep => ?_, fun hdeep => ?_⟩
        · rw [if_neg (hdeep.2 q hway.1), hall]
        · have hq : q ∈ c.deactivates t' := by
            by_contra hq
            exact hdeep ⟨hk, fun r hr => Option.some.inj (hway.1.symm.trans hr) ▸ hq⟩
          rw [if_pos hq, hall]

omit [DecidableEq S] in
/-- In a configuration without active histories inside `p`, the states of the way down are active,
and the others are not. -/
lemma isActive_iff_mem {way : List S} (hm : c.Connected m) (hs : c.Sound m)
    (hseq : ∀ {x}, c.Below x p → c.kind x ≠ .concurrentState) (hway : Chart.Chain m p way)
    (hx : c.Below x p) (hne : x ≠ p) (hk : (c.kind x).isHistory = false) :
    m.isActive x = true ↔ x ∈ way :=
  ⟨hway.mem_of_active hm hseq hx hne hk, hway.isActive hm hs hseq x⟩

end Restored

namespace Statechart

variable {t' : T} {a b : Metadata S} {ok : S → World S T E P → Prop}

/-- The sessions in which nothing is in the way of what is restored. -/
abbrev Unhampered (c : Chart S T E P) : World S T E P → Prop :=
  Session c fun s w => w.data.isActive c.root = false → Unhindered c s w

/-- At the end of a firing that leads to a history, this has restored what it has stored. -/
lemma regained_of_fired (hr : c.Standard) (hph : c.history p = some h) (hw : Unhampered c w)
    (ho : c.Orderly w.trace) (hf : .fired t a b ∈ w.trace) (ht : c.target t = h)
    (hint : c.internal t = false) : c.Regained p (b.stateset h) b := by
  have hback := ((settled_session hr hw ho).1.legal.carried hf).recovers hint
  rw [ht] at hback
  obtain ⟨hh, hctx⟩ := Chart.history_eq_some_iff.mp hph
  exact hback hh p hctx

/-- What a history has stored at the end of a firing that leads to it is active. -/
lemma reinstated_of_fired (hr : c.Standard) (hph : c.history p = some h) (hw : Unhampered c w)
    (ho : c.Orderly w.trace) (hf : .fired t a b ∈ w.trace) (ht : c.target t = h)
    (hint : c.internal t = false) (hplain : ∀ q ∈ b.stateset h, (c.kind q).isHistory = false) :
    c.Reinstated p (b.stateset h) b := by
  have hback := regained_of_fired hr hph hw ho hf ht hint
  refine ⟨fun q hq => hback.active q hq (hplain q hq), hback.only fun q hq hk => ?_⟩
  rw [hplain q hq] at hk
  cases hk

/-- **What a history restores.** In every orderly session, when a transition that leads to a history
has fired, just the states that the history remembers are active inside its context. -/
theorem reinstates_session (hr : c.Standard) (hph : c.history p = some h) (hw : Unhampered c w)
    (ho : c.Orderly w.trace) (heq : w.trace = newer ++ .fired t a b :: older)
    (ht : c.target t = h) (hint : c.internal t = false)
    (hmem : ∀ q ∈ c.memory p h older, (c.kind q).isHistory = false) :
    c.Reinstated p (c.memory p h older) b := by
  have hfired : Obs.fired t a b ∈ w.trace := by simp [heq]
  have hset := stateset_of_fired hr.actions hph hw heq
  rw [← hset] at hmem ⊢
  exact reinstated_of_fired hr hph hw ho hfired ht hint hmem

/-- **Back where it was left.** Let no state inside `p` be concurrent, let `t'` be the transition in
whose firing `h`, the history of `p`, was written last, and let `m` be the metadata before this
firing. In every orderly session, when a transition that leads to `h` has fired, the same states
are active inside `p` as in `m`, if `h` is deep and `t'` does not itself leave the current state of
`p`, and otherwise just the current state that `p` had in `m`. -/
theorem resumes_session (newer since before : List (Obs S T)) (hr : c.Standard)
    (hph : c.history p = some h) (hw : Unhampered c w) (ho : c.Orderly w.trace)
    (heq : w.trace = newer ++ .fired t a b :: (since ++ .deactivated p :: before))
    (ht : c.target t = h) (hint : c.internal t = false)
    (hsince : Mute (c.remembers p h) (.deactivated p :: before) since)
    (hfire : Obs.lastFire before = some (t', m)) (hd : m.hasData h = true)
    (hst : HierarchicalState.storesHistory c p h (m.current p) = true)
    (hseq : ∀ {x}, c.Below x p → c.kind x ≠ .concurrentState)
    (hplain : ∀ {x}, c.Below x p → m.isActive x = true → (c.kind x).isHistory = false) :
    ∀ x, c.Below x p → x ≠ p → (c.kind x).isHistory = false →
      (c.Deep p h t' m → b.isActive x = m.isActive x)
        ∧ (¬ c.Deep p h t' m → (b.isActive x = true ↔ m.current p = some x)) := by
  -- the firing in which `p` was left
  have hmem : .fire t' m ∈ w.trace := by
    rw [heq]
    have := Obs.mem_of_lastFire hfire
    simp [this]
  have hsound := (remembering_session hr.actions hph hw).recalls.sound hmem
  obtain ⟨m', hended⟩ := ended_session hw hmem
  have hm := ((settled_session hr hw ho).1.legal.carried hended).connected
  obtain ⟨way, hway⟩ := CppStatecharts.exists_chain hsound.links.pointers p
  have hbelow : ∀ {y}, y ∈ way → c.Below y p ∧ y ≠ p := fun hy => by
    obtain ⟨z, hz⟩ := hway.descends hsound.links.pointers
    exact (hz.mem_iff.mp hy).2
  have hactive {y} (hy : c.Below y p) (hyp : y ≠ p) (hk : (c.kind y).isHistory = false) :
      m.isActive y = true ↔ y ∈ way := isActive_iff_mem hm hsound hseq hway hy hyp hk
  -- what was stored then
  obtain ⟨chain, hchain⟩ := exists_recollection t' hsound.links.pointers
    (Chart.history_eq_some_iff.mp hph).1 hd hst
  obtain ⟨hdeep, hshallow⟩ := recollection_cases hsound.links.pointers hph hseq hway hd hst hchain
  have hstored : c.memory p h (since ++ .deactivated p :: before) = chain := by
    rw [Chart.memory, lastWritten_append hsince, lastWritten_cons, Chart.remembers, if_pos rfl,
      hfire, Option.bind_some, hchain, Option.getD_some]
  have hsub : ∀ q ∈ chain, q ∈ way := fun q hq => by
    by_cases h' : c.Deep p h t' m
    · exact hdeep h' ▸ hq
    · exact List.mem_of_mem_take (hshallow h' ▸ hq)
  have hset := (stateset_of_fired hr.actions hph hw heq).trans hstored
  have hfired : Obs.fired t a b ∈ w.trace := by simp [heq]
  have hback := reinstated_of_fired hr hph hw ho hfired ht hint fun q hq => by
    rw [hset] at hq
    exact hplain (hbelow (hsub q hq)).1 (hway.isActive hm hsound hseq q (hsub q hq))
  rw [hset] at hback
  intro x hx hne hkx
  have hiff : b.isActive x = true ↔ x ∈ chain := by
    refine ⟨fun ha => (hback.only hkx hx hne ha).resolve_right ?_, hback.active x⟩
    rintro ⟨q, hq, hconc, -⟩
    exact hseq (hbelow (hsub q hq)).1 hconc
  refine ⟨fun h' => ?_, fun h' => ?_⟩
  · rw [Bool.eq_iff_iff, hiff, hdeep h', hactive hx hne hkx]
  · rw [hiff, hshallow h']
    cases way with
    | nil => simp [show m.current p = none from hway]
    | cons q way => simp [hway.1, eq_comm]

end Statechart

namespace Resumed

/-- A hierarchical state `box` with a deep history `past` and the state `inner`, which has the state
`leaf`; the state `away` beside it. -/
inductive St where
  | chart | s | box | past | inner | i | leaf | away
  deriving DecidableEq

instance : Fintype St :=
  ⟨{.chart, .s, .box, .past, .inner, .i, .leaf, .away}, fun x => by cases x <;> decide⟩

inductive Tr where
  | begin | default | nest | leave | slip | resume
  deriving DecidableEq

instance : Fintype Tr :=
  ⟨{.begin, .default, .nest, .leave, .slip, .resume}, fun t => by cases t <;> decide⟩

/-- The start enters `box` through its history. Two events lead out, one from `box` and one from
`leaf`, and a third one back to the history. -/
def chart : Chart St Tr Event Unit where
  name := "resumed"
  root := .chart
  ownedStates := [.s, .box, .past, .inner, .i, .leaf, .away]
  ownedTransitions := [.begin, .default, .nest, .leave, .slip, .resume]
  kind
    | .chart => .statechart
    | .s | .i => .pseudoState .start
    | .box | .inner => .hierarchicalState
    | .past => .pseudoState .deepHistory
    | .leaf | .away => .state
  context
    | .chart => none
    | .s | .box | .away => some .chart
    | .past | .inner => some .box
    | .i | .leaf => some .inner
  depth
    | .chart => 0
    | .s | .box | .away => 1
    | .past | .inner => 2
    | .i | .leaf => 3
  source
    | .begin => .s
    | .default => .past
    | .nest => .i
    | .leave => .box
    | .slip => .leaf
    | .resume => .away
  target
    | .begin | .resume => .past
    | .default => .inner
    | .nest => .leaf
    | .leave | .slip => .away
  event
    | .leave => some (.event "leave")
    | .slip => some (.event "slip")
    | .resume => some (.event "resume")
    | _ => none
  equals ev e _ _ := ev.equals e
  timeout := Event.timeout

lemma regular : chart.Regular := by
  refine ⟨by decide, by decide, by decide, ?_, by decide, fun h => ?_, fun h => ?_, fun h => ?_,
    fun h => ?_⟩
  · intro t _ n r r' hn
    cases n <;> cases hn
  all_goals cases h

set_option maxRecDepth 8000 in
/-- The history has stored the way down to `leaf`. -/
theorem remembers_leave : ∃ w : World St Tr Event Unit,
    Statechart.Session chart (fun _ _ => True) w
      ∧ w.data.stateset .past = [.inner, .leaf]
      ∧ chart.memory .box .past w.trace = [.inner, .leaf] := by
  have hw : Statechart.Session chart (fun _ _ => True) (_ : World St Tr Event Unit) :=
    .call (.dispatch (some (.event "leave")) ()) (.call (.start ()) (.fresh ()) ⟨20, rfl⟩) ⟨20, rfl⟩
  obtain ⟨h, -⟩ := Statechart.remembers_session (h := .past) (p := .box) regular.actions rfl hw
  exact ⟨_, hw, rfl, h.symm.trans rfl⟩

set_option maxRecDepth 8000 in
/-- The way back makes `inner` and `leaf` active, and nothing else inside `box`. -/
theorem reinstates_resume : ∃ w : World St Tr Event Unit, Statechart.Unhampered chart w
    ∧ ∃ a b older, w.trace = .fired .resume a b :: older
      ∧ chart.Reinstated .box [.inner, .leaf] b := by
  have hw : Statechart.Unhampered chart (_ : World St Tr Event Unit) :=
    .call (.dispatch (some (.event "resume")) ())
      (.call (.dispatch (some (.event "leave")) ()) (.call (.start ()) (.fresh ()) ⟨20, rfl⟩)
        ⟨20, rfl⟩) ⟨20, rfl⟩
  exact ⟨_, hw, _, _, _, rfl, Statechart.reinstates_session regular.standard rfl hw
    (regular.orderly (by decide)) (List.nil_append _).symm rfl rfl (by decide)⟩

set_option maxRecDepth 8000 in
/-- The way back finds `leaf` active, as it was when `box` was left. -/
theorem resumes_resume : ∃ w : World St Tr Event Unit, Statechart.Unhampered chart w
    ∧ ∃ a b older, w.trace = .fired .resume a b :: older ∧ b.isActive .leaf = true := by
  have hw : Statechart.Unhampered chart (_ : World St Tr Event Unit) :=
    .call (.dispatch (some (.event "resume")) ())
      (.call (.dispatch (some (.event "leave")) ()) (.call (.start ()) (.fresh ()) ⟨20, rfl⟩)
        ⟨20, rfl⟩) ⟨20, rfl⟩
  have h := Statechart.resumes_session (p := .box) (h := .past) []
    [.activated .leaf, .activated .inner, .activated .past, .activated .box, .deactivated .away,
      .fire .resume _, .fired .leave _ _, .activated .away] _
    regular.standard rfl hw (regular.orderly (by decide)) rfl rfl rfl
      ⟨rfl, rfl, rfl, rfl, rfl, rfl, rfl, rfl, trivial⟩ rfl rfl rfl
    (fun {x} _ => by cases x <;> decide) (fun {x} _ => by cases x <;> decide)
    .leaf (by decide) (by decide) rfl
  exact ⟨_, hw, _, _, _, rfl, (h.1 ⟨rfl, by rintro q ⟨⟩; decide⟩).trans rfl⟩

end Resumed

end CppStatecharts
