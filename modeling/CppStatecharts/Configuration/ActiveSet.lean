import CppStatecharts.Configuration.Observers
import CppStatecharts.Configuration.Restore

/-!
The active set that is reported.

* `Chart.Exact`: `Metadata::getActiveStates` reports the active states, and with each its context.
* `Chart.Kept`: of the states that are not concurrent, only histories that were entered have a
  record without being active.
* `Statechart.Reachable`: what a client reaches by `start`, `dispatch` and `restoreState`.
* `Statechart.exact_session`: unless a history is entered, the report is exact.
-/

namespace CppStatecharts

variable {S T E P : Type} [DecidableEq S] {c : Chart S T E P}
variable {w w₁ w' : World S T E P} {s x p : S} {k : ℕ}

/-- The states reported are those that are active, and the context of each is among them. -/
structure Chart.Exact (c : Chart S T E P) (m : Metadata S) : Prop where
  active : ∀ x, x ∈ c.getActiveStates m ↔ m.isActive x = true
  upward : ∀ {x p}, x ∈ c.getActiveStates m → c.context x = some p → p ∈ c.getActiveStates m

/-! ### Records that are kept -/

/-- Neither a history nor a concurrent state has a record without being active, and a history has
one only after it was entered. -/
structure Chart.Kept (c : Chart S T E P) (w : World S T E P) : Prop where
  active : ∀ {x}, c.kind x ≠ .concurrentState → (c.kind x).isHistory = false →
    w.data.hasData x = true → w.data.isActive x = true
  entered : ∀ {x}, (c.kind x).isHistory = true → w.data.hasData x = true → .activated x ∈ w.trace

omit [DecidableEq S] in
lemma Chart.Kept.of_empty (h : ∀ x, w.data.hasData x = false) : c.Kept w := by
  refine ⟨fun {x} _ _ hx => ?_, fun {x} _ hx => ?_⟩ <;>
  · rw [h] at hx
    cases hx

omit [DecidableEq S] in
lemma Chart.Kept.of_eq (h : c.Kept w) (hw : w.Extends w')
    (hd : ∀ x, c.kind x ≠ .concurrentState → w'.data.hasData x = w.data.hasData x)
    (ha : ∀ x, w'.data.isActive x = w.data.isActive x) : c.Kept w' where
  active hc hk hx := (ha _).trans (h.active hc hk ((hd _ hc).symm.trans hx))
  entered hk hx := hw.mem (h.entered hk ((hd _ fun hc => by rw [hc] at hk; cases hk).symm.trans hx))

/-- A state becomes active, and is notified. -/
lemma Chart.Kept.activated (h : c.Kept w) (hw : w.Extends w')
    (hd : ∀ x, w'.data.hasData x = (decide (x = s) || w.data.hasData x))
    (ha : ∀ x, w'.data.isActive x = (decide (x = s) || w.data.isActive x))
    (hs : .activated s ∈ w'.trace) : c.Kept w' := by
  refine ⟨fun {x} hc hk hx => ?_, fun {x} hk hx => ?_⟩
  · rw [hd] at hx
    rw [ha]
    by_cases hxs : x = s
    · simp [hxs]
    · simp only [hxs, decide_false, Bool.false_or] at hx ⊢
      exact h.active hc hk hx
  · rw [hd] at hx
    by_cases hxs : x = s
    · exact hxs ▸ hs
    · simp only [hxs, decide_false, Bool.false_or] at hx
      exact hw.mem (h.entered hk hx)

lemma compatible_kept (hc : c.ActionsKeepData) :
    Compatible c Set.univ fun w w' => c.Kept w → c.Kept w' := by
  have hext := compatible_extends c
  have hperform : ∀ {w : World S T E P} {o : Obs S T} {a : Option (Action S P)},
      (w.perform o a).data = w.data → c.Kept w → c.Kept (w.perform o a) := fun hd h =>
    h.of_eq (World.adds_perform trivial) (fun x _ => by rw [hd]) fun x => by rw [hd]
  have hlog : ∀ {w : World S T E P} {o : Obs S T}, c.Kept w → c.Kept (w.log o) := fun h =>
    h.of_eq (World.extends_log _ _) (fun _ _ => rfl) fun _ => rfl
  exact
  { null := trivial
    refl := fun _ => id
    trans := fun h h' => h' ∘ h
    fire := fun _ _ _ _ _ => hlog
    fired := fun _ _ _ => hlog
    fallThrough := fun _ _ _ _ => hlog
    bracket := fun _ _ _ h h' => hlog (h (hlog h'))
    effect := fun _ _ => hperform hc.data_effect
    entry := fun _ _ => hperform hc.data_entry
    doing := fun _ _ => hperform hc.data_doing
    exit := fun _ _ => hperform hc.data_exit
    activateData := fun s w hs h => h.activated (hext.activateData s w hs)
      (fun x => Metadata.hasData_activate) (fun x => Metadata.isActive_activate) List.mem_cons_self
    arrive := fun s w hs hi h => by
      refine h.activated (hext.arrive s w hs hi) (fun x => hasData_arrive)
        (fun x => isActive_arrive) ?_
      obtain ⟨l, hl, -⟩ := trace_arrive c w s
      rw [hl]
      exact List.mem_append_right _ List.mem_cons_self
    leave := fun s w hs h => by
      refine ⟨fun {x} hxc hk hx => ?_, fun {x} hk hx => ?_⟩
      · rw [hasData_leave] at hx
        rw [isActive_leave]
        by_cases hsk : (c.kind s).isHistory = true
        · have hxs : x ≠ s := fun hxs => by rw [hxs, hsk] at hk; cases hk
          rw [if_pos hsk] at hx
          simp [hxs, h.active hxc hk hx]
        · rw [if_neg hsk, Bool.and_eq_true] at hx
          simp [h.active hxc hk hx.2, hx.1]
      · refine (hext.leave s w hs).mem (h.entered hk ?_)
        rw [hasData_leave] at hx
        split at hx
        · exact hx
        · exact (Bool.and_eq_true _ _ ▸ hx).2
    registerRegion := fun n r w hn h => by
      refine h.of_eq (hext.registerRegion n r w hn) (fun x hx => ?_)
        fun _ => isActive_registerRegion
      have hxn : x ≠ n := fun hxn => hx (hxn ▸ hn)
      simp [hxn]
    clearStateset := fun n w hn h =>
      h.of_eq (hext.clearStateset n w hn) (fun _ _ => hasData_clearStateset)
        fun _ => isActive_clearStateset
    clearCurrent := fun s w hs h =>
      h.of_eq (hext.clearCurrent s w hs) (fun _ _ => hasData_clearCurrent)
        fun _ => isActive_clearCurrent
    storeHistory := fun s q w w' hq hst hs h =>
      h.of_eq (hext.storeHistory s q w w' hq hst hs) (fun _ _ => hasData_storeHistory hs)
        fun _ => isActive_storeHistory hs }

/-- In a legal configuration with no history entered, the report is exact. -/
lemma Chart.Settled.exact (h : c.Settled w) (hk : c.Kept w)
    (hh : ∀ {x}, (c.kind x).isHistory = true → .activated x ∉ w.trace) : c.Exact w.data := by
  have hmem : ∀ x, x ∈ c.getActiveStates w.data ↔ w.data.hasData x = true :=
    fun x => mem_activeStates
  have hactive : ∀ {x}, w.data.hasData x = true →
      w.data.isActive x = true ∧ (c.kind x).isHistory = false := by
    intro x hx
    have hxh : (c.kind x).isHistory = false := by
      by_contra hxh
      have hxh : (c.kind x).isHistory = true := by simpa using hxh
      exact hh hxh (hk.entered hxh hx)
    refine ⟨?_, hxh⟩
    by_cases hxc : c.kind x = .concurrentState
    · by_contra ha
      rw [h.legal.clear hxc (by simpa using ha) (by simp)] at hx
      cases hx
    · exact hk.active hxc hxh hx
  refine ⟨fun x => ?_, fun {x p} hx hp => ?_⟩
  · rw [hmem]
    exact ⟨fun hx => (hactive hx).1, Metadata.hasData_of_isActive⟩
  · rw [hmem] at hx ⊢
    obtain ⟨ha, hxh⟩ := hactive hx
    exact Metadata.hasData_of_isActive (h.legal.upward hxh ha hp)

namespace Statechart

/-! ### Reachable configurations -/

/-- What a client reaches from a new metadata by `start`, `dispatch` and `restoreState`, with `ok`
for what is restored. -/
inductive Session (c : Chart S T E P) (ok : S → World S T E P → Prop) : World S T E P → Prop
  | fresh (a : P) : Session c ok (World.fresh a)
  | call {w w' : World S T E P} {o : Outcome} (l : Call E P) :
      Session c ok w → Returned (fun k => call c k l) w o w' → Session c ok w'
  | restoreState {w w' : World S T E P} {b : Bool} (s : S) (a : P) :
      Session c ok w → ok s { w with param := a } →
        Returned (fun k => restoreState c k s) { w with param := a } b w' → Session c ok w'

lemma kept_enter (w : World S T E P) : c.Kept (enter c w) := by
  have hreset : c.Kept ((w.onData fun _ => .reset).log .reset) :=
    .of_empty fun _ => rfl
  have hroot : c.Kept (c.activateData c.root ((w.onData fun _ => .reset).log .reset)) :=
    hreset.activated (World.Adds.of_cons rfl trivial) (fun x => Metadata.hasData_activate)
      (fun x => Metadata.isActive_activate) List.mem_cons_self
  unfold enter
  cases hst : c.startState c.root with
  | none => exact hroot
  | some st =>
      exact hroot.activated (World.Adds.of_cons rfl trivial) (fun x => Metadata.hasData_activate)
        (fun x => Metadata.isActive_activate) List.mem_cons_self

lemma extends_activateAll {l : List S} {u : PUnit} (h : Returns (activateAll c k l) w u w') :
    w.Extends w' :=
  (compatible_extends c).enterPath k l _ _ _ h

lemma kept_restore (hc : c.ActionsKeepData) {u : PUnit}
    (h : Returns (activateAll c k (restorePath c s)) (forget w) u w') : c.Kept w' :=
  (compatible_kept hc).enterPath k _ _ _ _ h (.of_empty fun _ => rfl)

/-- Every orderly session ends in a legal configuration, and keeps no further records. -/
lemma settled_session (hr : c.Standard)
    (h : Session c (fun s w => w.data.isActive c.root = false → Unhindered c s w) w)
    (ho : c.Orderly w.trace) : c.Settled w ∧ c.Kept w := by
  induction h with
  | fresh a => exact ⟨settled_fresh a, .of_empty fun _ => rfl⟩
  | call l _ hl ih =>
      obtain ⟨k, hl⟩ := hl
      obtain ⟨hs, hk⟩ := ih (ho.of_extends (extends_call hl))
      refine ⟨call_settled hr hs ho hl, (compatible_kept hr.actions).call (fun _ _ h => ?_)
        (fun w _ => kept_enter w) k l _ _ _ hl hk⟩
      exact h.of_eq (World.Adds.of_eq rfl) (fun _ _ => rfl) fun _ => rfl
  | @restoreState w w' b s a _ hv hl ih =>
      obtain ⟨k, hl⟩ := hl
      rcases returns_restoreState.mp hl with ⟨-, -, rfl⟩ | ⟨hroot, -, hl⟩
      · obtain ⟨hs, hk⟩ := ih ho
        exact ⟨settled_param hs a, hk.of_eq (World.Adds.of_eq rfl) (fun _ _ => rfl) fun _ => rfl⟩
      · have hext : w.Extends (forget { w with param := a }) := World.Adds.of_cons rfl trivial
        obtain ⟨hs, -⟩ := ih (ho.of_extends (hext.trans (extends_activateAll hl)))
        have hs' := settled_param hs a
        exact ⟨(settled_restore hr hs'.legal.nests hs'.legal.carried hs'.idle (hv hroot) ho hl).1,
          kept_restore hr.actions hl⟩

/-- **An exact report.** In every configuration that `start`, `dispatch` and `restoreState` reach in
an orderly way, with nothing in the way of what is restored and without entering a history, the
states reported are the active ones, and the context of each is reported, too. -/
theorem exact_session (hr : c.Standard)
    (h : Session c (fun s w => w.data.isActive c.root = false → Unhindered c s w) w)
    (ho : c.Orderly w.trace) (hh : ∀ {x}, (c.kind x).isHistory = true → .activated x ∉ w.trace) :
    c.Exact w.data := by
  obtain ⟨hs, hk⟩ := settled_session hr h ho
  exact hs.exact hk hh

end Statechart

namespace Recalled

set_option maxRecDepth 4000 in
/-- **An inactive state is reported.** After the start, which leaves `h` by its default transition,
`h` is reported all the same. -/
theorem not_exact : ∃ w, Statechart.Session (chart none) (fun _ _ => True) w
    ∧ ¬ (chart none).Exact w.data := by
  refine ⟨_, .call (.start ()) (.fresh ()) ⟨20, rfl⟩, fun h => ?_⟩
  exact absurd ((h.active .h).mp (by decide)) (by decide)

end Recalled

namespace Beside

set_option maxRecDepth 8000 in
/-- After a restoration the report is exact. -/
theorem exact_restored : ∃ w, Statechart.Session chart
    (fun s w => w.data.isActive chart.root = false → Statechart.Unhindered chart s w) w
      ∧ chart.Exact w.data := by
  have h : Statechart.Session chart
      (fun s w => w.data.isActive chart.root = false → Statechart.Unhindered chart s w) _ :=
    .restoreState .a1 () (.fresh ()) (fun _ => unhindered) ⟨20, rfl⟩
  refine ⟨_, h, Statechart.exact_session standard h (orderly (by decide)) fun {x} hx => ?_⟩
  cases x <;> cases hx

end Beside

end CppStatecharts
