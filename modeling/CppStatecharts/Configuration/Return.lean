import CppStatecharts.Configuration.Memory

/-!
Back into a state through its history.

* `Chart.lastChild`: the child of a state that was activated last; `Chart.lastExit`: the firing in
  which a state was left last while it was not completed.
* `Obs.Departs`: states are left by firings alone; `Chart.memory_eq`: what a history remembers then
  goes back to the last exit.
* `Chart.Followed`: the current state is the child activated last, now and whenever a firing began.
* `Statechart.leads_back_iff`: when the way through a shallow history leads back to the child that
  was active last.
* `Unvisited`: a state that is left before its history was ever entered.
-/

namespace CppStatecharts

variable {S T E P : Type} [DecidableEq S] {c : Chart S T E P}
variable {w w₁ w' : World S T E P} {m b : Metadata S} {s x y p q h : S} {t : T} {k : ℕ} {u : PUnit}
variable {l l' newer older before : List (Obs S T)}

/-! ### The record -/

namespace Obs

/-- The firing that began last, with the metadata and the record before it. -/
def begun : List (Obs S T) → Option (T × Metadata S × List (Obs S T))
  | [] | .reset :: _ => none
  | .fire t m :: l => some (t, m, l)
  | _ :: l => begun l

/-- States are left by firings alone. -/
def Departs : List (Obs S T) → Prop
  | [] => True
  | .deactivated _ :: l => (begun l).isSome = true ∧ Departs l
  | _ :: l => Departs l

/-- Neither an activation nor a reset, nor the beginning of a firing. -/
def isTame : Obs S T → Bool
  | .activated _ | .reset | .fire .. => false
  | _ => true

end Obs

/-- The child of `p` that was activated last, pseudo-states apart. -/
def Chart.lastChild (c : Chart S T E P) (p : S) : List (Obs S T) → Option S
  | [] | .reset :: _ => none
  | .activated x :: l =>
      if c.context x = some p ∧ (c.kind x).isPseudo = false then some x else c.lastChild p l
  | _ :: l => c.lastChild p l

/-- The firing in which `p` was left last while its current state was not final, with the metadata
and the record before it. -/
def Chart.lastExit (c : Chart S T E P) (p : S) :
    List (Obs S T) → Option (T × Metadata S × List (Obs S T))
  | [] | .reset :: _ => none
  | .deactivated x :: l =>
      match Obs.begun l with
      | none => c.lastExit p l
      | some (t, m, before) =>
          if x = p ∧ c.isFinal (m.current p) = false then some (t, m, before) else c.lastExit p l
  | _ :: l => c.lastExit p l

/-- Whenever a firing began, the current state of `p` was the child activated last, unless it was a
pseudo-state. -/
def Chart.Follows (c : Chart S T E P) (p : S) : List (Obs S T) → Prop
  | [] => True
  | .fire _ m :: l => (∀ y, m.current p = some y → (c.kind y).isPseudo = false →
      c.lastChild p l = some y) ∧ c.Follows p l
  | _ :: l => c.Follows p l

section Lists

omit [DecidableEq S] in
lemma Obs.lastFire_of_begun (hl : Obs.begun l = some (t, m, before)) :
    Obs.lastFire l = some (t, m) := by
  induction l with
  | nil => cases hl
  | cons o l ih =>
      cases o with
      | reset => cases hl
      | fire t' m' =>
          cases hl
          rfl
      | _ => exact ih hl

omit [DecidableEq S] in
lemma Obs.isSome_begun_append (hl : ∀ o ∈ l', o ≠ .reset) (h : (Obs.begun l).isSome = true) :
    (Obs.begun (l' ++ l)).isSome = true := by
  induction l' with
  | nil => exact h
  | cons o l' ih =>
      have ih := ih fun o ho => hl o (List.mem_cons_of_mem _ ho)
      cases o with
      | reset => exact absurd rfl (hl _ List.mem_cons_self)
      | fire => rfl
      | _ => exact ih

omit [DecidableEq S] in
/-- In the course of a firing, any state may be left. -/
lemma Obs.Departs.append (hd : Obs.Departs l) (h : (Obs.begun l).isSome = true)
    (hl : ∀ o ∈ l', o ≠ .reset) : Obs.Departs (l' ++ l) := by
  induction l' with
  | nil => exact hd
  | cons o l' ih =>
      have hl' : ∀ o ∈ l', o ≠ .reset := fun o ho => hl o (List.mem_cons_of_mem _ ho)
      cases o with
      | deactivated x => exact ⟨Obs.isSome_begun_append hl' h, ih hl'⟩
      | _ => exact ih hl'

omit [DecidableEq S] in
lemma Obs.Departs.of_forall (hd : Obs.Departs l) (hl : ∀ o ∈ l', ∀ x, o ≠ .deactivated x) :
    Obs.Departs (l' ++ l) := by
  induction l' with
  | nil => exact hd
  | cons o l' ih =>
      have ih := ih fun o ho => hl o (List.mem_cons_of_mem _ ho)
      cases o with
      | deactivated x => exact absurd rfl (hl _ List.mem_cons_self x)
      | _ => exact ih

omit [DecidableEq S] in
lemma Obs.Departs.of_append (h : Obs.Departs (l' ++ l)) : Obs.Departs l := by
  induction l' with
  | nil => exact h
  | cons o l' ih => cases o <;> first | exact ih h | exact ih h.2

omit [DecidableEq S] in
lemma Obs.suffix_of_begun (hl : Obs.begun l = some (t, m, before)) : .fire t m :: before <:+ l := by
  induction l with
  | nil => cases hl
  | cons o l ih =>
      cases o with
      | reset => cases hl
      | fire t' m' =>
          cases hl
          exact List.suffix_rfl
      | _ => exact (ih hl).trans (List.suffix_cons _ _)

lemma Chart.suffix_of_lastExit (hl : c.lastExit p l = some (t, m, before)) :
    .fire t m :: before <:+ l := by
  induction l with
  | nil => cases hl
  | cons o l ih =>
      refine List.IsSuffix.trans ?_ (List.suffix_cons o l)
      cases o with
      | reset => cases hl
      | deactivated x =>
          rw [lastExit] at hl
          cases hb : Obs.begun l with
          | none => exact ih (by simpa [hb] using hl)
          | some f =>
              simp only [hb] at hl
              split at hl
              · exact Obs.suffix_of_begun (by rw [hb]; simpa using hl)
              · exact ih hl
      | _ => exact ih hl

lemma Chart.lastChild_spec (hl : c.lastChild p l = some q) :
    c.context q = some p ∧ (c.kind q).isPseudo = false := by
  induction l with
  | nil => cases hl
  | cons o l ih =>
      cases o with
      | reset => cases hl
      | activated x =>
          rw [lastChild] at hl
          split at hl
          · rename_i hx
            obtain rfl := Option.some.inj hl
            exact hx
          · exact ih hl
      | _ => exact ih hl

lemma Chart.Follows.of_append (h : c.Follows p (l' ++ l)) : c.Follows p l := by
  induction l' with
  | nil => exact h
  | cons o l' ih => cases o <;> first | exact ih h | exact ih h.2

lemma Chart.lastChild_append (hl : ∀ o ∈ l', o.isTame = true) :
    c.lastChild p (l' ++ l) = c.lastChild p l := by
  induction l' with
  | nil => rfl
  | cons o l' ih =>
      have ho := hl o List.mem_cons_self
      rw [← ih fun o ho => hl o (List.mem_cons_of_mem _ ho)]
      cases o <;> first | rfl | cases ho

lemma Chart.follows_append (hl : ∀ o ∈ l', o.isTame = true) :
    c.Follows p (l' ++ l) ↔ c.Follows p l := by
  induction l' with
  | nil => rfl
  | cons o l' ih =>
      have ho := hl o List.mem_cons_self
      rw [← ih fun o ho => hl o (List.mem_cons_of_mem _ ho)]
      cases o <;> first | rfl | cases ho

end Lists

/-! ### What is remembered, and since when -/

lemma storesHistory_of_isFinal {cur : Option S} (hf : c.isFinal cur = true) :
    HierarchicalState.storesHistory c p h cur = false := by
  simp [HierarchicalState.storesHistory, hf]

lemma recollection_of_not (hst : ¬ (m.hasData h = true
      ∧ HierarchicalState.storesHistory c p h (m.current p) = true)) :
    c.recollection p h t m = none := by
  unfold Chart.recollection
  split
  · rw [← Bool.and_eq_true] at hst
    simp [hst]
  · rfl

/-- Until the firing stores something, the history remembers what it had stored before. -/
lemma Chart.memory_of_begun (hl : c.Recalls p h l) (hb : Obs.begun l = some (t, m, before))
    (hrec : c.recollection p h t m = none) : c.memory p h l = m.stateset h := by
  induction l with
  | nil => cases hb
  | cons o l ih =>
      cases o with
      | reset => cases hb
      | fire t' m' =>
          cases hb
          exact hl.1.2.symm
      | deactivated x =>
          have hnone : c.remembers p h (.deactivated x) l = none := by
            simp [remembers, Obs.lastFire_of_begun (show Obs.begun l = _ from hb), hrec]
          rw [memory, lastWritten_cons, hnone]
          exact ih hl hb
      | fired => exact ih hl.2 hb
      | _ => exact ih hl hb

/-- What a history remembers was written by the last exit from its context that did not find the
context completed, unless nothing was worth storing then. -/
lemma Chart.memory_eq (hl : c.Recalls p h l) (hd : Obs.Departs l) :
    c.memory p h l = match c.lastExit p l with
      | none => []
      | some (t, m, _) => (c.recollection p h t m).getD (m.stateset h) := by
  induction l with
  | nil => rfl
  | cons o l ih =>
      cases o with
      | reset => rfl
      | fire => exact ih hl.2 hd
      | fired => exact ih hl.2 hd
      | deactivated x =>
          have ih := ih hl hd.2
          obtain ⟨⟨t, m, before⟩, hb⟩ := Option.isSome_iff_exists.mp hd.1
          have hmem : c.memory p h (.deactivated x :: l)
              = (if x = p then c.recollection p h t m else none).getD (c.memory p h l) := by
            rw [memory, lastWritten_cons, remembers, Obs.lastFire_of_begun hb]
            rfl
          rw [hmem]
          simp only [lastExit, hb]
          by_cases hx : x = p ∧ c.isFinal (m.current p) = false
          · rw [if_pos hx, if_pos hx.1]
            cases hrec : c.recollection p h t m with
            | none =>
                simp only [hrec, Option.getD_none]
                exact memory_of_begun (l := l) hl hb hrec
            | some chain => simp only [hrec, Option.getD_some]
          · rw [if_neg hx]
            split
            · rw [recollection_of_not fun h => hx ⟨‹_›, ?_⟩]
              · exact ih
              · by_contra hf
                simp [storesHistory_of_isFinal (Bool.eq_true_of_not_eq_false hf)] at h
            · exact ih
      | _ => exact ih hl hd

/-! ### Along a run -/

/-- The current state of `p` is the child activated last, unless it is a pseudo-state, now and
whenever a firing began. -/
structure Chart.Followed (c : Chart S T E P) (p : S) (w : World S T E P) : Prop where
  child : ∀ y, w.data.current p = some y → (c.kind y).isPseudo = false →
    c.lastChild p w.trace = some y
  follows : c.Follows p w.trace

namespace Chart.Followed

lemma of_adds (h : c.Followed p w)
    (hcur : ∀ y, w'.data.current p = some y → w.data.current p = some y)
    (ht : w.Adds (fun o => o.isTame = true) w') : c.Followed p w' := by
  obtain ⟨l, hl, htame⟩ := ht
  refine ⟨fun y hy hk => ?_, ?_⟩
  · rw [hl, lastChild_append htame]
    exact h.child y (hcur y hy) hk
  · rw [hl, follows_append htame]
    exact h.follows

lemma perform {o : Obs S T} {a : Option (Action S P)} (h : c.Followed p w)
    (hd : (w.perform o a).data = w.data) (ho : o.isTame = true) : c.Followed p (w.perform o a) :=
  h.of_adds (fun y hy => by rwa [hd] at hy) (World.adds_perform ho)

/-- An activation makes its state the current one of its context. -/
lemma activateData (h : c.Followed p w) : c.Followed p (c.activateData s w) := by
  refine ⟨fun y hy hk => ?_, h.follows⟩
  rw [show (c.activateData s w).trace = .activated s :: w.trace from rfl, lastChild]
  by_cases hs : c.context s = some p
  · rw [current_activateData hs] at hy
    by_cases hd : (w.data.getData p).isSome = true
    · rw [if_neg fun h => Forest.ne_of_parent (F := c.forest) hs h.symm, if_pos ⟨rfl, hd⟩] at hy
      obtain rfl := Option.some.inj hy
      rw [if_pos ⟨hs, hk⟩]
    · simp_all [Metadata.current]
  · rw [if_neg fun h => hs h.1]
    rcases current_activateData_cases hy with ⟨-, hs'⟩ | hy
    · exact absurd hs' hs
    · exact h.child y hy hk

end Chart.Followed

lemma compatible_followed (hc : c.ActionsKeepData) :
    Compatible c Set.univ fun w w' => c.Followed p w → c.Followed p w' where
  null := trivial
  refl _ := id
  trans h h' := h' ∘ h
  fire t w _ _ _ h := ⟨h.child, h.child, h.follows⟩
  fired _ _ _ h := h.of_adds (fun _ => id) (World.Adds.of_cons rfl rfl)
  fallThrough _ _ _ _ h := h.of_adds (fun _ => id) (World.Adds.of_cons rfl rfl)
  bracket _ _ _ h hw := (h (hw.of_adds (fun _ => id) (World.Adds.of_cons rfl rfl))).of_adds
    (fun _ => id) (World.Adds.of_cons rfl rfl)
  effect _ _ h := h.perform hc.data_effect rfl
  entry _ _ h := h.perform hc.data_entry rfl
  doing _ _ h := h.perform hc.data_doing rfl
  exit _ _ h := h.perform hc.data_exit rfl
  activateData _ _ _ h := h.activateData
  arrive s w _ _ h := h.activateData.of_adds (fun _ hy => current_arrive.symm.trans hy)
    (adds_scheduleTimeouts fun _ _ _ => rfl)
  leave s w _ h := by
    refine h.of_adds (fun y hy => ?_)
      ((adds_cancelTimeouts fun _ => rfl).trans (adds_deactivateData rfl))
    rw [current_leave] at hy
    split at hy
    · cases hy
    · exact hy
  registerRegion _ _ _ _ h := h.of_adds (fun _ => current_registerRegion.symm.trans)
    (World.Adds.of_eq rfl)
  clearStateset _ _ _ h := h.of_adds (fun _ => current_clearStateset.symm.trans)
    (World.Adds.of_eq rfl)
  clearCurrent s w _ h := by
    refine h.of_adds (fun y hy => ?_) (World.Adds.of_eq rfl)
    rw [current_clearCurrent] at hy
    split at hy
    · cases hy
    · exact hy
  storeHistory _ _ _ w' _ _ hs h := by
    refine h.of_adds (fun _ => (current_storeHistory hs).symm.trans) (World.Adds.of_eq ?_)
    rcases Chart.returns_storeHistory hs with rfl | ⟨_, _, _, -, -, -, -, rfl⟩ <;> rfl

/-- Current states are children, and states were left by firings alone. -/
structure Chart.Departing (c : Chart S T E P) (w : World S T E P) : Prop where
  pointers : c.Pointers w.data
  departs : Obs.Departs w.trace

omit [DecidableEq S] in
lemma Chart.Departing.of_adds (h : c.Departing w) (hm : c.Pointers w'.data)
    (ht : w.Adds (fun o => ∀ x, o ≠ .deactivated x) w') : c.Departing w' := by
  obtain ⟨l, hl, hn⟩ := ht
  exact ⟨hm, hl ▸ h.departs.of_forall hn⟩

lemma entering_departing (hc : c.ActionsKeepData) :
    Entering c Set.univ fun w w' => c.Departing w → c.Departing w' :=
  have hm := compatible_pointers hc
  { null := trivial
    refl := fun _ => id
    trans := fun h h' => h' ∘ h
    fallThrough := fun _ _ _ _ h => h.of_adds h.pointers (World.Adds.of_cons rfl (by simp))
    bracket := fun _ _ _ h hw =>
      have hw := h (hw.of_adds hw.pointers (World.Adds.of_cons rfl (by simp)))
      hw.of_adds hw.pointers (World.Adds.of_cons rfl (by simp))
    entry := fun s w h => h.of_adds (hm.entry s w h.pointers) (World.adds_perform (by simp))
    doing := fun s w h => h.of_adds (hm.doing s w h.pointers) (World.adds_perform (by simp))
    activateData := fun s w hs h =>
      h.of_adds (hm.activateData s w hs h.pointers) (World.Adds.of_cons rfl (by simp))
    arrive := fun s w hs hi h => h.of_adds (hm.arrive s w hs hi h.pointers)
      (World.Adds.trans (World.Adds.of_cons rfl (by simp)) (adds_scheduleTimeouts (by simp)))
    registerRegion := fun n r w hn h =>
      h.of_adds (hm.registerRegion n r w hn h.pointers) (World.Adds.of_eq rfl) }

/-- The exits of a firing come after its beginning. -/
lemma Transition.fire_departing (hc : c.ActionsKeepData)
    (hv : (c.methods k).Enter Set.univ fun w w' => c.Departing w → c.Departing w')
    (h : c.Departing w) (hf : Returns (Transition.fire c (c.methods k) t) w u w') :
    c.Departing w' := by
  obtain ⟨w₁, w₂, h₁, h₂, rfl⟩ := Transition.returns_fire.mp hf
  obtain ⟨l, hl, hpart⟩ :=
    (exits_recedes hc (show c.Pointers (w.log _).data from h.pointers) h₁).adds
  have hplain : ∀ o ∈ l, o ≠ .reset := fun o ho => by
    rcases hpart o ho with ⟨x, -, rfl⟩ | ⟨id, rfl⟩ | ⟨x, rfl⟩ <;> simp
  have := (compatible_pointers hc).std_refl
  have := (compatible_pointers hc).isTrans
  have hw₁ : c.Departing w₁ :=
    ⟨keeps_forM (fun s _ => (compatible_pointers hc).deactivate k s) _ _ _ h₁ h.pointers,
      hl ▸ Obs.Departs.append (l := .fire t w.data :: w.trace) h.departs rfl hplain⟩
  have hw₂ := (entering_departing hc).activateAll hv _ _ _ _ h₂
    (hw₁.of_adds (by rw [hc.data_effect]; exact hw₁.pointers) (World.adds_perform (by simp)))
  exact hw₂.of_adds hw₂.pointers (World.Adds.of_cons rfl (by simp))

lemma enter_departing (hc : c.ActionsKeepData) : ∀ k, (c.methods k).Enter Set.univ fun w w' =>
    c.Departing w → c.Departing w' :=
  (entering_departing hc).methods fun k hv t e _ w b w' _ hx hw => by
    rcases (Transition.returns_execute (pure_methods c k)).mp hx with ⟨-, -, -, hf⟩ | ⟨-, rfl, -⟩
    · exact Transition.fire_departing hc hv hw hf
    · exact hw

namespace Statechart

variable {ok : S → World S T E P → Prop}

lemma departing_enter (h : c.Departing w) : c.Departing (enter c w) := by
  refine ⟨pointers_enter w, ?_⟩
  unfold enter
  split <;> exact h.departs

lemma departing_session (hc : c.ActionsKeepData) (hw : Session c ok w) : c.Departing w := by
  obtain ⟨a, hw⟩ := Session.rule (entering_departing hc).toArriving (enter_departing hc)
    (fun a w hw => hw.of_adds hw.pointers (World.Adds.of_eq rfl))
    (fun w hw => departing_enter hw)
    (fun w hw => hw.of_adds links_reset.pointers (World.Adds.of_cons rfl (by simp))) hw
  exact hw ⟨links_reset.pointers, trivial⟩

lemma followed_enter (h : c.Followed p w) : c.Followed p (enter c w) := by
  have hreset : c.Followed p ((w.onData fun _ => .reset).log .reset) :=
    ⟨fun y hy => (by cases hy), h.follows⟩
  unfold enter
  split
  · exact hreset.activateData
  · exact hreset.activateData.activateData

lemma followed_session (hc : c.ActionsKeepData) (hw : Session c ok w) : c.Followed p w := by
  have h := compatible_followed (p := p) hc
  obtain ⟨a, hw⟩ := Session.rule h.toArriving (fun k => (h.methods k).toEnter)
    (fun a w hw => hw.of_adds (fun _ => id) (World.Adds.of_eq rfl))
    (fun w hw => followed_enter hw)
    (fun w hw => ⟨fun y hy => (by cases hy), hw.follows⟩) hw
  exact hw ⟨fun y hy => (by cases hy), trivial⟩

end Statechart

/-! ### The way back -/

/-- The metadata `m`, in which a firing leaves `p`, makes sure that `h`, the shallow history of `p`,
leads back to `q`, the child of `p` that was active last: either it stores the current state, and
this is no pseudo-state, or it stores nothing, and holds `q` from an earlier exit. -/
def Chart.Retains (c : Chart S T E P) (p h q : S) (m : Metadata S) : Prop :=
  if m.hasData h = true ∧ HierarchicalState.storesHistory c p h (m.current p) = true then
    ∃ y, m.current p = some y ∧ (c.kind y).isPseudo = false
  else m.stateset h = [q]

/-- A shallow history stores the current state. -/
lemma recollection_shallow (hk : c.kind h = .pseudoState .history) (hd : m.hasData h = true)
    (hst : HierarchicalState.storesHistory c p h (m.current p) = true) :
    c.recollection p h t m = some (m.current p).toList := by
  rw [recollection_eq_map hk hd hst]
  cases hq : m.current p with
  | none => simp [calculateHistoryChain_none]
  | some q =>
      rw [show c.chainBound = c.ownedStates.length + c.maxDepth + 1 by
        unfold Chart.chainBound; omega, Chart.calculateHistoryChain, if_pos rfl]
      split <;> rfl

lemma Chart.Recalls.links (hl : c.Recalls p h l) {a : Metadata S} (hf : Obs.fired t a b ∈ l) :
    c.Links b := by
  induction l with
  | nil => cases hf
  | cons o l ih =>
      cases o <;> simp only [List.mem_cons, reduceCtorEq, false_or, Chart.Recalls] at hf hl
      case fired t' a' b' =>
        rcases hf with hf | hf
        · exact (Obs.fired.inj hf).2.2 ▸ hl.1.1
        · exact ih hl.2 hf
      case fire => exact ih hl.2 hf
      all_goals exact ih hl hf

namespace Statechart

variable {a : Metadata S} {t' : T}

/-- A shallow history makes just the state it has stored active, if any. -/
lemma active_children_of_fired (hr : c.Standard) (hph : c.history p = some h)
    (hk : c.kind h = .pseudoState .history) (hw : Unhampered c w) (ho : c.Orderly w.trace)
    (hf : .fired t a b ∈ w.trace) (ht : c.target t = h) (hint : c.internal t = false)
    (hx : c.context x = some p) (hkx : (c.kind x).isPseudo = false) :
    b.isActive x = true ↔ b.stateset h = [x] := by
  obtain ⟨hh, hctx⟩ := Chart.history_eq_some_iff.mp hph
  have hchain := ((remembering_session hr.actions hph hw).recalls.links hf).histories h p hh hctx
  have hlen := hchain.shallow hk
  -- what is stored is a child of `p`, and no history
  have hchild : ∀ q ∈ b.stateset h, b.stateset h = [q] ∧ c.context q = some p
      ∧ (c.kind q).isHistory = false := by
    intro q hq
    obtain ⟨z, hz⟩ := hchain.descends
    cases hl : b.stateset h with
    | nil => simp [hl] at hq
    | cons q' l =>
        rw [hl] at hlen hq hz
        obtain rfl : l = [] := List.eq_nil_of_length_eq_zero (by simpa using hlen)
        obtain rfl := List.mem_singleton.mp hq
        refine ⟨rfl, hz.1, ?_⟩
        by_contra hqk
        exact (hchain.below hctx q (hl ▸ hq)).2.2
          (c.history_unique (by simpa using hqk) hh (hz.1.trans hctx.symm))
  have hback := reinstated_of_fired hr hph hw ho hf ht hint fun q hq => (hchild q hq).2.2
  have hxp : c.Below x p := Forest.below_of_parent (F := c.forest) hx
  have hne : x ≠ p := Forest.ne_of_parent (F := c.forest) hx
  refine ⟨fun ha => ?_, fun hl => hback.active x (by simp [hl])⟩
  rcases hback.only (StateKind.isHistory_eq_false_of_isPseudo hkx) hxp hne ha with
    hmem | ⟨q, hq, -, hxq⟩
  · exact (hchild x hmem).1
  · have hqp := (hchild q hq).2.1
    obtain rfl : x = q :=
      Forest.eq_of_below_children (F := c.forest) hx hqp (Forest.below_refl x) hxq
    exact (hchild x hq).1

/-- **Back through a shallow history.** In every orderly session, when a transition that leads to
the shallow history of `p` has fired: if `p` was never left while it was not completed, no child of
`p` is active. Else the child that was active last before that exit is active again, as the only one
and as the current state, if and only if the metadata at that exit made sure of it. -/
theorem leads_back_iff (hr : c.Standard) (hph : c.history p = some h)
    (hk : c.kind h = .pseudoState .history) (hw : Unhampered c w) (ho : c.Orderly w.trace)
    (heq : w.trace = newer ++ .fired t a b :: older) (ht : c.target t = h)
    (hint : c.internal t = false) :
    (c.lastExit p older = none →
      ∀ x, c.context x = some p → (c.kind x).isPseudo = false → b.isActive x = false)
    ∧ ∀ t' m before q, c.lastExit p older = some (t', m, before) →
      c.lastChild p before = some q →
      ((∀ x, c.context x = some p → (c.kind x).isPseudo = false → (b.isActive x = true ↔ x = q))
        ∧ b.current p = some q ↔ c.Retains p h q m) := by
  have hf : Obs.fired t a b ∈ w.trace := by simp [heq]
  have hactive {x : S} := active_children_of_fired (x := x) hr hph hk hw ho hf ht hint
  have hrec := (remembering_session hr.actions hph hw).recalls
  have hdep := (departing_session hr.actions hw).departs
  rw [heq] at hrec hdep
  have hset : b.stateset h = c.memory p h older := stateset_of_fired hr.actions hph hw heq
  have hdep : Obs.Departs older :=
    (show Obs.Departs ((newer ++ [.fired t a b]) ++ older) by simpa using hdep).of_append
  rw [Chart.memory_eq hrec.of_append.2 hdep] at hset
  refine ⟨fun hnone x hx hkx => ?_, fun t' m before q hexit hchild => ?_⟩
  · rw [hnone] at hset
    rw [Bool.eq_false_iff, Ne, hactive hx hkx, hset]
    simp
  obtain ⟨hqp, hkq⟩ := Chart.lastChild_spec hchild
  simp only [hexit] at hset
  -- the current state, unless it is a pseudo-state, is the child that was active last
  have hlast : ∀ y, m.current p = some y → (c.kind y).isPseudo = false → y = q := by
    intro y hy hky
    have hfollows := (followed_session (p := p) hr.actions hw).follows
    obtain ⟨l, hl⟩ := Chart.suffix_of_lastExit hexit
    rw [heq, ← hl] at hfollows
    have hbegun : c.Follows p (.fire t' m :: before) :=
      (show c.Follows p ((newer ++ [.fired t a b] ++ l) ++ .fire t' m :: before) by
        simpa using hfollows).of_append
    exact Option.some.inj ((hbegun.1 y hy hky).symm.trans hchild)
  have hretains : b.stateset h = [q] ↔ c.Retains p h q m := by
    unfold Chart.Retains
    split
    · rw [hset, recollection_shallow hk ‹_ ∧ _›.1 ‹_ ∧ _›.2, Option.getD_some]
      cases hcur : m.current p with
      | none => simp
      | some y =>
          simp only [Option.toList_some, List.cons.injEq, and_true, Option.some.injEq,
            exists_eq_left']
          exact ⟨fun hy => hy ▸ hkq, hlast y hcur⟩
    · rw [hset, recollection_of_not ‹_›, Option.getD_none]
  rw [← hretains]
  constructor
  · rintro ⟨hall, -⟩
    exact (hactive hqp hkq).mp ((hall q hqp hkq).mpr rfl)
  · intro hl
    have hqa := (hactive hqp hkq).mpr hl
    have hcarried := (settled_session hr hw ho).1.legal.carried hf
    refine ⟨fun x hx hkx => ?_, ?_⟩
    · rw [hactive hx hkx, hl]
      simp [eq_comm]
    · refine hcarried.settled.single (StateKind.isHistory_eq_false_of_isPseudo hkq) hqa hqp ?_
      obtain ⟨hh, hctx⟩ := Chart.history_eq_some_iff.mp hph
      rw [c.history_context hh hctx]
      decide

end Statechart

namespace Unvisited

/-- A hierarchical state `box` with a shallow history `past` and the states `inner` and `other`; the
state `away` beside it. -/
inductive St where
  | chart | s | box | i | past | inner | other | away
  deriving DecidableEq

instance : Fintype St :=
  ⟨{.chart, .s, .box, .i, .past, .inner, .other, .away}, fun x => by cases x <;> decide⟩

inductive Tr where
  | begin | nest | default | leave | resume
  deriving DecidableEq

instance : Fintype Tr :=
  ⟨{.begin, .nest, .default, .leave, .resume}, fun t => by cases t <;> decide⟩

/-- The start enters `box` at `inner`. An event leads out of it, and another one to its history,
whose default transition leads to `other`. -/
def chart : Chart St Tr Event Unit where
  name := "unvisited"
  root := .chart
  ownedStates := [.s, .box, .i, .past, .inner, .other, .away]
  ownedTransitions := [.begin, .nest, .default, .leave, .resume]
  kind
    | .chart => .statechart
    | .s | .i => .pseudoState .start
    | .box => .hierarchicalState
    | .past => .pseudoState .history
    | .inner | .other | .away => .state
  context
    | .chart => none
    | .s | .box | .away => some .chart
    | .i | .past | .inner | .other => some .box
  depth
    | .chart => 0
    | .s | .box | .away => 1
    | .i | .past | .inner | .other => 2
  source
    | .begin => .s
    | .nest => .i
    | .default => .past
    | .leave => .box
    | .resume => .away
  target
    | .begin => .box
    | .nest => .inner
    | .default => .other
    | .leave => .away
    | .resume => .past
  event
    | .leave => some (.event "leave")
    | .resume => some (.event "resume")
    | _ => none
  equals ev e _ _ := ev.equals e
  timeout := Event.timeout

lemma regular : chart.Regular := by
  refine ⟨by decide, by decide, by decide, ?_, by decide, fun h => ?_, fun h => ?_, fun h => ?_,
    fun h => ?_⟩
  · intro t _ n r r' hn
    cases n <;> cases hn
  all_goals cases h

set_option maxRecDepth 8000 in
/-- **Nothing remembered.** `box` is left at `inner` before its history was entered for the first
time; the way back through the history does not find `inner`, and the default transition leads to
`other`. -/
theorem not_leads_back : chart.Regular
    ∧ ∃ w : World St Tr Event Unit, Statechart.Session chart (fun _ _ => False) w
      ∧ w.data.isActive .other = true
      ∧ ∃ newer a b older m before, w.trace = newer ++ .fired .resume a b :: older
        ∧ chart.lastExit .box older = some (.leave, m, before)
        ∧ chart.lastChild .box before = some .inner ∧ b.isActive .inner = false := by
  have hw : Statechart.Session chart (fun _ _ => False) (_ : World St Tr Event Unit) :=
    .call (.dispatch (some (.event "resume")) ())
      (.call (.dispatch (some (.event "leave")) ()) (.call (.start ()) (.fresh ()) ⟨20, rfl⟩)
        ⟨20, rfl⟩) ⟨20, rfl⟩
  exact ⟨regular, _, hw, rfl, [_, _, _], _, _, _, _, _, rfl, rfl, rfl, rfl⟩

set_option maxRecDepth 8000 in
/-- Once the history was entered, the way back finds `other`, where `box` was left the second
time. -/
theorem leads_back_other : ∃ w : World St Tr Event Unit, Statechart.Unhampered chart w
    ∧ ∃ a b older, w.trace = .fired .resume a b :: older
      ∧ b.isActive .other = true ∧ b.current .box = some .other := by
  have hw : Statechart.Unhampered chart (_ : World St Tr Event Unit) :=
    .call (.dispatch (some (.event "resume")) ())
      (.call (.dispatch (some (.event "leave")) ())
        (.call (.dispatch (some (.event "resume")) ())
          (.call (.dispatch (some (.event "leave")) ()) (.call (.start ()) (.fresh ()) ⟨20, rfl⟩)
            ⟨20, rfl⟩) ⟨20, rfl⟩) ⟨20, rfl⟩) ⟨20, rfl⟩
  have h := (Statechart.leads_back_iff (p := .box) (h := .past) (t := .resume) regular.standard rfl
    rfl hw (regular.orderly (by decide)) (List.nil_append _).symm rfl rfl).2
  have hback := (h _ _ _ .other rfl rfl).mpr ⟨_, rfl, rfl⟩
  exact ⟨_, hw, _, _, _, rfl, (hback.1 .other rfl rfl).mpr rfl, hback.2⟩

end Unvisited

end CppStatecharts
