import CppStatecharts.Model.Asynchron
import CppStatecharts.Semantics.Trace
import CppStatecharts.Timers.Booking

/-!
What every method does to the pending entries, whatever happened before.

* `World.Sorted`: the containers are coherent, and a state lists entries of its own only. Unlike
  `World.Booked` this does not say that a listed entry is still pending.
* `World.Turns`: the pending entries after a method are those before it, but for the ones that left
  states have cancelled, and new ones of this metadata (`compatible_turns`).
* `System.Sorted`: the same for the whole system, kept by every step (`System.Sorted.call` to
  `System.Sorted.terminate`).
-/

namespace CppStatecharts

variable {S T E P : Type} (c : Chart S T E P)

namespace World

/-- A state lists entries of its own only, as far as they are pending. -/
structure Sorted (w : World S T E P) : Prop where
  coherent : w.timers.Coherent
  listed : ∀ s, ∀ id ∈ w.data.timeouts s, id < w.timers.nextId ∧ (c.kind s).isPseudo = false
    ∧ ∀ e ∈ w.timers.pendingEntries, e.id = id → e.data = w.dataId ∧ e.state = s
  stopped : w.timers.running = false → w.timers.timeoutQueue.items = []

variable {c} in
/-- The parameter and the trace do not matter. -/
lemma Sorted.congr {w w' : World S T E P} (h : w.Sorted c) (hdata : w'.data = w.data)
    (ht : w'.timers = w.timers) (hid : w'.dataId = w.dataId) : w'.Sorted c where
  coherent := ht ▸ h.coherent
  listed s id hm := by
    rw [hdata] at hm
    rw [ht, hid]
    exact h.listed s id hm
  stopped := ht ▸ h.stopped

/-- The entry was scheduled between the two worlds, whose observations are `l`. -/
structure News (w : World S T E P) (l : List (Obs S T)) (e : EventQueueEntry S E) : Prop where
  id : w.timers.nextId ≤ e.id
  data : e.data = w.dataId
  param : e.param = some w.paramId
  scheduled : ∃ now delay, .scheduled e.id e.state now delay ∈ l

/-- What a part of a call with the observations `l` does to the entries. -/
structure Shifts (l : List (Obs S T)) (w w' : World S T E P) : Prop where
  dataId : w'.dataId = w.dataId
  paramId : w'.paramId = w.paramId
  nextId : w.timers.nextId ≤ w'.timers.nextId
  running : w'.timers.running = w.timers.running
  invalid : ∀ id ∈ w.timers.invalid, id ∈ w'.timers.invalid
  sorted : w'.Sorted c
  trace : w'.trace = l ++ w.trace
  unlisted : ∀ id < w.timers.nextId, (∀ s, id ∉ w.data.timeouts s) → ∀ s, id ∉ w'.data.timeouts s
  spared : ∀ e ∈ w.timers.pendingEntries, (∀ s, e.id ∉ w.data.timeouts s) →
    e ∈ w'.timers.pendingEntries
  pending : ∀ e ∈ w'.timers.pendingEntries, e ∈ w.timers.pendingEntries ∨ w.News l e
  items : ∀ e ∈ w'.timers.timeoutQueue.items, e ∈ w.timers.timeoutQueue.items ∨ w.News l e
  queued : ∀ e ∈ w'.timers.pendingEntries, e ∈ w'.timers.timeoutQueue.items
    ∨ e ∈ w.timers.pendingEntries ∧ e ∉ w.timers.timeoutQueue.items
  anchored : (∀ s, ∀ id ∈ w.data.timeouts s, ∃ e ∈ w.timers.pendingEntries, e.id = id) →
    ∀ s, ∀ id ∈ w'.data.timeouts s, ∃ e ∈ w'.timers.pendingEntries, e.id = id

/-- What the methods do to the entries. An entry that a state lists is cancelled when it is left. -/
def Turns (w w' : World S T E P) : Prop :=
  ∃ l, w.Shifts c l w' ∧ (∀ o ∈ l, ∀ id now, o ≠ .dispatched id now)
    ∧ ∀ s, ∀ id ∈ w.data.timeouts s,
      id ∈ w'.data.timeouts s ∧ .deactivated s ∉ l ∨ id ∈ w'.timers.invalid

variable {c} {w w₁ w' : World S T E P} {l l' : List (Obs S T)} {e : EventQueueEntry S E} {s : S}
variable {id : ℕ}

lemma News.mono (h : w.News l e) (hl : l ⊆ l') : w.News l' e := by
  obtain ⟨now, delay, hm⟩ := h.scheduled
  exact ⟨h.id, h.data, h.param, now, delay, hl hm⟩

lemma Shifts.others (h : w.Sorted c) (hs : w.Shifts c l w') (he : e ∈ w.timers.pendingEntries)
    (hd : e.data ≠ w.dataId) : e ∈ w'.timers.pendingEntries :=
  hs.spared e he fun s hm => hd ((h.listed s e.id hm).2.2 e he rfl).1

lemma Shifts.trans (h : w.Shifts c l w₁) (hw : w.Sorted c) (h' : w₁.Shifts c l' w') :
    w.Shifts c (l' ++ l) w' := by
  have hnews : ∀ {e}, w₁.News l' e → w.News (l' ++ l) e := fun hn =>
    ⟨h.nextId.trans hn.id, hn.data.trans h.dataId, h.paramId ▸ hn.param,
      (hn.mono (List.subset_append_left l' l)).scheduled⟩
  refine ⟨h'.dataId.trans h.dataId, h'.paramId.trans h.paramId, h.nextId.trans h'.nextId,
    h'.running.trans h.running, fun id hid => h'.invalid id (h.invalid id hid), h'.sorted,
    by rw [h'.trace, h.trace, List.append_assoc],
    fun id hid hx => h'.unlisted id (hid.trans_le h.nextId) (h.unlisted id hid hx),
    fun e he hx => h'.spared e (h.spared e he hx) (h.unlisted e.id (hw.coherent.used e he) hx),
    fun e he => ?_, fun e he => ?_, fun e he => ?_, fun ha => h'.anchored (h.anchored ha)⟩
  · rcases h'.pending e he with he | hn
    · exact (h.pending e he).imp (fun h => h) fun hn => hn.mono (List.subset_append_right l' l)
    · exact Or.inr (hnews hn)
  · rcases h'.items e he with he | hn
    · exact (h.items e he).imp (fun h => h) fun hn => hn.mono (List.subset_append_right l' l)
    · exact Or.inr (hnews hn)
  · rcases h'.queued e he with hq | ⟨hp, hq⟩
    · exact Or.inl hq
    · exact (h.queued e hp).imp (absurd · hq) fun h => h

lemma Turns.trans (h : w.Turns c w₁) (hw : w.Sorted c) (h' : w₁.Turns c w') : w.Turns c w' := by
  obtain ⟨l, hl, hnd, hkept⟩ := h
  obtain ⟨l', hl', hnd', hkept'⟩ := h'
  refine ⟨l' ++ l, hl.trans hw hl', fun o ho => ?_, fun s id hid => ?_⟩
  · exact (List.mem_append.mp ho).elim (hnd' o) (hnd o)
  · rcases hkept s id hid with ⟨hid, hnot⟩ | hinv
    · refine (hkept' s id hid).imp (fun h => ⟨h.1, ?_⟩) fun h => h
      rw [List.mem_append, not_or]
      exact ⟨h.2, hnot⟩
    · exact Or.inr (hl'.invalid id hinv)

lemma Turns.sorted (h : w.Turns c w') : w'.Sorted c := by
  obtain ⟨l, hl, -⟩ := h
  exact hl.sorted

end World

section Turns

variable [DecidableEq S] {c} {w w' : World S T E P} {s : S}

omit [DecidableEq S] in
lemma turns_quiet (h : w.Sorted c) (hq : w.Quiet c w') (hparam : w'.paramId = w.paramId) :
    w.Turns c w' := by
  obtain ⟨l, hl, hmarks⟩ := hq.trace
  have ht := hq.timers
  refine ⟨l, ⟨hq.dataId, hparam, by rw [ht], by rw [ht], by rw [ht]; exact fun _ h => h,
    ⟨by rw [ht]; exact h.coherent, fun s id hid => ?_, by rw [ht]; exact h.stopped⟩, hl,
    fun id _ hx s => by rw [hq.timeouts]; exact hx s, by rw [ht]; exact fun _ he _ => he,
    by rw [ht]; exact fun _ => Or.inl, by rw [ht]; exact fun _ => Or.inl, ?_,
      fun ha s id hid => ?_⟩,
    fun o ho id now => ?_, fun s id hid => Or.inl ⟨?_, fun ho => ?_⟩⟩
  · rw [hq.timeouts] at hid
    rw [ht, hq.dataId]
    exact h.listed s id hid
  · rw [ht]
    exact fun e he => (em _).imp (fun h => h) fun hq => ⟨he, hq⟩
  · rw [hq.timeouts] at hid
    rw [ht]
    exact ha s id hid
  · rintro rfl
    exact absurd (hmarks _ ho).1 (by simp [Obs.quiet])
  · rwa [hq.timeouts]
  · exact absurd (hmarks _ ho).1 (by simp [Obs.quiet])

lemma turns_leave (h : w.Sorted c) (s : S) : w.Turns c (c.leave s w) := by
  have hids : ∀ id ∈ w.data.timeouts s, id < w.timers.nextId := fun id hid => (h.listed s id hid).1
  have hd : Timers.Drops (w.data.timeouts s) w.timers (c.leave s w).timers :=
    (timers_leave (c := c)).1 ▸ h.coherent.drops rfl hids
  have hid : (c.leave s w).dataId = w.dataId :=
    (timers_leave (c := c)).2.trans (cancels_cancelTimeouts s w).dataId
  obtain ⟨l, hl, hmarks, -⟩ := trace_leave (c := c) (w := w) (s := s)
  have hmem : ∀ e, e ∈ (c.leave s w).timers.pendingEntries
      ↔ e ∈ w.timers.pendingEntries ∧ e.id ∉ w.data.timeouts s := by
    simp [hd.pending]
  have hitems : ∀ e, e ∈ (c.leave s w).timers.timeoutQueue.items
      ↔ e ∈ w.timers.timeoutQueue.items ∧ e.id ∉ w.data.timeouts s := by
    simp [hd.items]
  have hlisted : ∀ x, ∀ id ∈ (c.leave s w).data.timeouts x, x ≠ s ∧ id ∈ w.data.timeouts x := by
    intro x id hx
    rw [timeouts_leave] at hx
    split at hx
    · cases hx
    · refine ⟨?_, hx⟩
      rintro rfl
      have hp := (h.listed x id hx).2.1
      simp_all [StateKind.isHistory_eq_false_of_isPseudo hp]
  refine ⟨l, ⟨hid, paramId_leave, hd.nextId.ge, hd.running,
    fun id hid => (hd.invalid id).mpr (Or.inr hid),
    ⟨h.coherent.of_drops hd hids, fun x id hx => ?_, fun hrun => ?_⟩, hl,
    fun id _ hx x hm => hx x (hlisted x id hm).2, fun e he hx => (hmem e).mpr ⟨he, hx s⟩,
    fun e he => Or.inl ((hmem e).mp he).1, fun e he => Or.inl ((hitems e).mp he).1, fun e he => ?_,
    fun ha x id hx => ?_⟩, fun o ho id now => ?_, fun x id hx => ?_⟩
  · obtain ⟨hlt, hp, hown⟩ := h.listed x id (hlisted x id hx).2
    rw [hd.nextId, hid]
    exact ⟨hlt, hp, fun e he => hown e ((hmem e).mp he).1⟩
  · rw [hd.items, h.stopped (hd.running ▸ hrun)]
    rfl
  · obtain ⟨he, hnot⟩ := (hmem e).mp he
    by_cases hq : e ∈ w.timers.timeoutQueue.items
    · exact Or.inl ((hitems e).mpr ⟨hq, hnot⟩)
    · exact Or.inr ⟨he, hq⟩
  · obtain ⟨hxs, hx⟩ := hlisted x id hx
    obtain ⟨e, he, rfl⟩ := ha x id hx
    refine ⟨e, (hmem e).mpr ⟨he, fun hm => hxs ?_⟩, rfl⟩
    rw [← ((h.listed x e.id hx).2.2 e he rfl).2, ((h.listed s e.id hm).2.2 e he rfl).2]
  · rcases hmarks o ho with rfl | ⟨i, -, rfl⟩ <;> simp
  · by_cases hxs : x = s
    · subst hxs
      exact Or.inr ((hd.invalid id).mpr (Or.inl hx))
    · refine Or.inl ⟨?_, fun hmark => ?_⟩
      · rwa [timeouts_leave, if_neg fun h => hxs h.1]
      · rcases hmarks _ hmark with heq | ⟨i, -, heq⟩
        · exact hxs (Obs.deactivated.inj heq)
        · cases heq

lemma turns_scheduleTimeout (h : w.Sorted c) (hp : (c.kind s).isPseudo = false) (t : T) :
    w.Turns c (c.scheduleTimeout s w t) := by
  rcases scheduleTimeout_cases (c := c) s w t with hw | ⟨ev, ms, -, -, hw, hrun⟩
  · rw [hw]
    exact turns_quiet h (World.Quiet.refl w) rfl
  have hlisted : ∀ x, ∀ id ∈ (c.scheduleTimeout s w t).data.timeouts x,
      id ∈ w.data.timeouts x ∨ x = s ∧ id = w.timers.nextId := by
    intro x id hid
    rw [hw, Metadata.timeouts_modify] at hid
    by_cases hx : x = s
    · subst hx
      cases hd : w.data.getData x <;> simp_all [Metadata.timeouts]
    · simp only [hx, ↓reduceIte] at hid
      exact Or.inl hid
  have hkept : ∀ x, ∀ id ∈ w.data.timeouts x, id ∈ (c.scheduleTimeout s w t).data.timeouts x := by
    intro x id hid
    rw [hw, Metadata.timeouts_modify]
    by_cases hx : x = s
    · subst hx
      cases hd : w.data.getData x <;> simp_all [Metadata.timeouts]
    · simpa [hx] using hid
  set entry := w.timers.newEntry s w.dataId ev w.paramId ms with hentry
  have htm : (c.scheduleTimeout s w t).timers = { w.timers with
      pendingEntries := w.timers.pendingEntries ++ [entry]
      timeoutQueue := w.timers.timeoutQueue.add (·.deadline) entry
      nextId := w.timers.nextId + 1 } := by
    simp [hw, Timers.enqueueTimeout, hrun, hentry]
  have htr : (c.scheduleTimeout s w t).trace
      = [.scheduled entry.id entry.state w.timers.now ms] ++ w.trace := by rw [hw]; rfl
  have hid : (c.scheduleTimeout s w t).dataId = w.dataId := by rw [hw]
  have hparam : (c.scheduleTimeout s w t).paramId = w.paramId := by rw [hw]
  generalize c.scheduleTimeout s w t = w' at *
  have hmem : ∀ e, e ∈ w'.timers.pendingEntries ↔ e ∈ w.timers.pendingEntries ∨ e = entry := by
    simp [htm]
  have hitems : ∀ e, e ∈ w'.timers.timeoutQueue.items
      ↔ e = entry ∨ e ∈ w.timers.timeoutQueue.items := by
    rw [htm]
    exact fun e => DelayQueue.mem_add
  have hnews : w.News [.scheduled entry.id entry.state w.timers.now ms] entry :=
    ⟨le_rfl, rfl, rfl, w.timers.now, ms, by simp⟩
  refine ⟨_, ⟨hid, hparam, by simp [htm], by simp [htm], by simp [htm],
    ⟨by rw [htm]; exact h.coherent.add rfl, fun x id hx => ?_, by simp [htm, hrun]⟩, htr,
    fun id hlt hx x hm => (hlisted x id hm).elim (hx x) fun h => absurd h.2 hlt.ne,
    fun e he _ => (hmem e).mpr (Or.inl he), fun e he => ?_, fun e he => ?_, fun e he => ?_,
    fun ha x id hx => ?_⟩, by simp, fun x id hx => Or.inl ⟨hkept x id hx, by simp⟩⟩
  · have hnext : w'.timers.nextId = w.timers.nextId + 1 := by rw [htm]
    rw [hnext, hid]
    rcases hlisted x id hx with hx | ⟨rfl, rfl⟩
    · obtain ⟨hlt, hpx, hown⟩ := h.listed x id hx
      refine ⟨by omega, hpx, fun e he heq => ?_⟩
      rcases (hmem e).mp he with he | rfl
      · exact hown e he heq
      · exact absurd hlt (heq ▸ lt_irrefl _)
    · refine ⟨by omega, hp, fun e he heq => ?_⟩
      rcases (hmem e).mp he with he | rfl
      · exact absurd (h.coherent.used e he) (heq ▸ lt_irrefl _)
      · exact ⟨rfl, rfl⟩
  · rcases (hmem e).mp he with he | rfl
    · exact Or.inl he
    · exact Or.inr hnews
  · rcases (hitems e).mp he with rfl | he
    · exact Or.inr hnews
    · exact Or.inl he
  · rcases (hmem e).mp he with he | rfl
    · by_cases hq : e ∈ w.timers.timeoutQueue.items
      · exact Or.inl ((hitems e).mpr (Or.inr hq))
      · exact Or.inr ⟨he, hq⟩
    · exact Or.inl ((hitems _).mpr (Or.inl rfl))
  · rcases hlisted x id hx with hx | ⟨-, rfl⟩
    · obtain ⟨e, he, hid⟩ := ha x id hx
      exact ⟨e, (hmem e).mpr (Or.inl he), hid⟩
    · exact ⟨entry, (hmem entry).mpr (Or.inr rfl), rfl⟩

lemma compatible_turns (hc : c.ActionsKeepTimers) : Compatible c Set.univ
    fun w w' : World S T E P => w.Sorted c → w.Turns c w' :=
  compatible_of_quiet hc (fun h h' hw => (h hw).trans hw (h' (h hw).sorted))
    (fun _ _ hq hparam h => turns_quiet h hq hparam)
      (fun _ _ t hp _ h => turns_scheduleTimeout h hp t)
    fun s _ _ h => turns_leave h s

/-! ### Calls -/

variable {n : ℕ}

omit [DecidableEq S] in
lemma shifts_reset (h : w.Sorted c) :
    w.Shifts c [.reset] ((w.onData fun _ => .reset).log .reset) := by
  have hnone : ∀ s : S, (.reset : Metadata S).timeouts s = [] := fun _ => rfl
  refine ⟨rfl, rfl, le_rfl, rfl, fun _ hi => hi, ⟨h.coherent, ?_, h.stopped⟩, rfl, ?_,
    fun _ he _ => he, fun _ => Or.inl, fun _ => Or.inl,
    fun _ he => (em _).imp (fun h => h) fun hq => ⟨he, hq⟩, ?_⟩
  · simp [hnone]
  · simp [hnone]
  · simp [hnone]

omit [DecidableEq S] in
/-- A mark of a dispatch changes nothing. -/
lemma shifts_dispatched (h : w.Sorted c) (id : ℕ) (now : ℤ) :
    w.Shifts c [.dispatched id now] (w.log (.dispatched id now)) :=
  ⟨rfl, rfl, le_rfl, rfl, fun _ hi => hi, ⟨h.coherent, h.listed, h.stopped⟩, rfl, fun _ _ hx => hx,
    fun _ he _ => he, fun _ => Or.inl, fun _ => Or.inl,
    fun _ he => (em _).imp (fun h => h) fun hq => ⟨he, hq⟩, fun ha => ha⟩

/-- The change is a part of a call that dispatches no entry. -/
def World.Calls (c : Chart S T E P) (w w' : World S T E P) : Prop :=
  ∃ l, w.Shifts c l w' ∧ ∀ o ∈ l, ∀ id now, o ≠ .dispatched id now

omit [DecidableEq S] in
lemma World.Calls.trans {w₁ : World S T E P} (h : w.Calls c w₁) (hw : w.Sorted c)
    (h' : w₁.Calls c w') : w.Calls c w' := by
  obtain ⟨l, hl, hnd⟩ := h
  obtain ⟨l', hl', hnd'⟩ := h'
  exact ⟨l' ++ l, hl.trans hw hl', fun o ho => (List.mem_append.mp ho).elim (hnd' o) (hnd o)⟩

omit [DecidableEq S] in
lemma World.Calls.sorted (h : w.Calls c w') : w'.Sorted c := by
  obtain ⟨l, hl, -⟩ := h
  exact hl.sorted

omit [DecidableEq S] in
lemma World.Turns.calls (h : w.Turns c w') : w.Calls c w' := by
  obtain ⟨l, hl, hnd, -⟩ := h
  exact ⟨l, hl, hnd⟩

lemma calls_enter (h : w.Sorted c) : w.Calls c (Statechart.enter c w) := by
  have hreset : w.Calls c ((w.onData fun _ => .reset).log .reset) :=
    ⟨[.reset], shifts_reset h, by simp⟩
  have hroot : ((w.onData fun _ => .reset).log .reset).Turns c (c.activateData c.root
      ((w.onData fun _ => .reset).log .reset)) :=
    turns_quiet hreset.sorted (quiet_activateData (Or.inr rfl)) rfl
  have h₁ := hreset.trans h hroot.calls
  unfold Statechart.enter
  split
  · exact h₁
  · rename_i st hst
    refine h₁.trans h (turns_quiet h₁.sorted (quiet_activateData (Or.inl ?_)) rfl).calls
    rw [(Chart.startState_eq_some hst).1]
    rfl

variable (hc : c.ActionsKeepTimers) {e : Option E} {u : Outcome} {b : Bool}

include hc

lemma turns_dispatch (h : w.Sorted c) (hd : Returns (Statechart.dispatch c n e) w u w') :
    w.Turns c w' :=
  (compatible_turns hc).dispatch n (Set.mem_univ e) _ _ _ hd h

lemma calls_start (h : w.Sorted c) (hs : Returns (Statechart.start c n) w u w') : w.Calls c w' := by
  have henter := calls_enter h
  exact henter.trans h (turns_dispatch hc henter.sorted (Statechart.returns_start.mp hs)).calls

lemma calls_restoreState {w w' : World S T E P} (h : w.Sorted c)
    (hs : Returns (Statechart.restoreState c n s) w b w') : w.Calls c w' := by
  rcases Statechart.returns_restoreState.mp hs with ⟨-, -, rfl⟩ | ⟨-, -, hs⟩
  · exact (turns_quiet h (World.Quiet.refl _) rfl).calls
  have hreset : w.Calls c (Statechart.forget w) := ⟨[.reset], shifts_reset h, by simp⟩
  exact hreset.trans h ((compatible_turns hc).enterPath n _ _ _ _ hs hreset.sorted).calls

end Turns

/-! ### The system -/

/-- The metadata and the parameter of a client's call. -/
def Op.call : Op S E → Option (ℕ × Option ℕ)
  | .start d p | .dispatch d _ p => some (d, p)
  | .restoreState _ d p => some (d, some p)
  | _ => none

namespace System

variable [DecidableEq S] {c} {σ σ' : System S T E P} {w w' : World S T E P} {l : List (Obs S T)}

/-- What was observed on the metadata at `d` between two states. -/
def since (σ σ' : System S T E P) (d : ℕ) : List (Obs S T) :=
  (σ'.traces d).take ((σ'.traces d).length - (σ.traces d).length)

omit [DecidableEq S] in
lemma since_eq {d : ℕ} (h : σ'.traces d = l ++ σ.traces d) : since σ σ' d = l := by
  rw [since, h, List.length_append, Nat.add_sub_cancel, List.take_left]

variable (c) in
/-- Every metadata is sorted. -/
def Sorted (σ : System S T E P) : Prop := ∀ d p, (σ.world d p).Sorted c

omit [DecidableEq S] in
lemma Sorted.coherent (h : Sorted c σ) : σ.timers.Coherent := (h 0 0).coherent

omit [DecidableEq S] in
lemma Sorted.of_eq (h : Sorted c σ) (ht : σ'.timers = σ.timers) (hs : σ'.stores = σ.stores) :
    Sorted c σ' := fun d p =>
  (h d p).congr (congrFun hs d) ht rfl

omit [DecidableEq S] in
lemma Sorted.of_put (h : Sorted c (σ.put w)) : w.Sorted c := by
  have := h w.dataId w.paramId
  refine ⟨this.coherent, fun s id hid => ?_, this.stopped⟩
  exact this.listed s id (by simpa [System.put, world] using hid)

omit [DecidableEq S] in
/-- A part of a call on one metadata leaves the others sorted. -/
lemma Sorted.put (h : Sorted c (σ.put w)) (hs : w.Shifts c l w') : Sorted c (σ.put w') := by
  intro d p
  refine ⟨hs.sorted.coherent, fun s id hid => ?_, hs.sorted.stopped⟩
  by_cases hd : d = w.dataId
  · subst hd
    have := hs.sorted.listed s id (by simpa [System.put, world, ← hs.dataId] using hid)
    exact hs.dataId ▸ this
  · obtain ⟨hlt, hp, hown⟩ := (h d p).listed s id
      (by simpa [System.put, world, hs.dataId, hd] using hid)
    refine ⟨hlt.trans_le hs.nextId, hp, fun e he heq => ?_⟩
    rcases hs.pending e he with he | hn
    · exact hown e he heq
    · exact absurd hlt (not_lt.mpr (heq ▸ hn.id))

section Steps

variable [Inhabited P] {op : Op S E} {d : ℕ} {p : Option ℕ}

omit [DecidableEq S] in
lemma Sorted.argument (h : Sorted c σ) (p : Option ℕ) : Sorted c (σ.argument p).2 :=
  h.of_eq (argument_frame σ p).1 (argument_frame σ p).2.1

/-- A call of a client is a change of one world. -/
lemma Sorted.call (hc : c.ActionsKeepTimers) (h : Sorted c σ) (hop : op.call = some (d, p))
    (hs : Step c op σ σ') : ∃ l w', ((σ.argument p).2.world d (σ.argument p).1).Shifts c l w'
      ∧ (∀ o ∈ l, ∀ id now, o ≠ .dispatched id now) ∧ σ' = (σ.argument p).2.put w' := by
  have hw := h.argument p d (σ.argument p).1
  cases op <;> simp only [Op.call, Option.some.injEq, Prod.mk.injEq, reduceCtorEq] at hop
  case start =>
      obtain ⟨rfl, rfl⟩ := hop
      obtain ⟨o, w', ⟨n, hn⟩, rfl⟩ := hs
      obtain ⟨l, hl, hnd⟩ := calls_start hc hw hn
      exact ⟨l, w', hl, hnd, rfl⟩
  case restoreState =>
      obtain ⟨rfl, rfl⟩ := hop
      obtain ⟨o, w', ⟨n, hn⟩, rfl⟩ := hs
      obtain ⟨l, hl, hnd⟩ := calls_restoreState hc hw hn
      exact ⟨l, w', hl, hnd, rfl⟩
  case dispatch =>
      obtain ⟨rfl, rfl⟩ := hop
      obtain ⟨o, w', ⟨n, hn⟩, rfl⟩ := hs
      obtain ⟨l, hl, hnd, -⟩ := turns_dispatch hc hw hn
      exact ⟨l, w', hl, hnd, rfl⟩

/-- So is the dispatch of the worker's entry. -/
lemma Sorted.deliver (hc : c.ActionsKeepTimers) (h : Sorted c σ) (hs : Deliver c σ σ') :
    ∃ e, σ.worker = some e ∧ ∃ q τ, (q, τ) = ({ σ with worker := none }).argument e.param
      ∧ ∃ l w', (τ.world e.data q).Shifts c (l ++ [.dispatched e.id σ.timers.now]) w'
        ∧ (∀ o ∈ l, ∀ id now, o ≠ .dispatched id now)
        ∧ (∀ s, ∀ id ∈ (σ.stores e.data).timeouts s,
          .deactivated s ∈ l → id ∈ w'.timers.invalid) ∧ σ' = τ.put w' := by
  obtain ⟨e, q, τ, n, o, w', he, ha, ht, hn, rfl⟩ := hs.cases
  have hidle : Sorted c { σ with worker := none } := h.of_eq rfl rfl
  have hst : τ.stores = σ.stores := ht.2.1
  have hw : (τ.world e.data q).Sorted c := (ha ▸ hidle.argument e.param :) e.data q
  refine ⟨e, he, q, τ, ha.symm, ?_⟩
  have hmark := shifts_dispatched hw e.id σ.timers.now
  obtain ⟨l, hl, hnd, hkept⟩ := turns_dispatch hc hmark.sorted hn
  refine ⟨l, w', hmark.trans hw hl, hnd, fun s id hid hleft => ?_, rfl⟩
  refine (hkept s id ?_).resolve_left fun h => h.2 hleft
  rw [← hst] at hid
  exact hid

omit [DecidableEq S] [Inhabited P] in
lemma Sorted.tick (h : Sorted c σ) (ns : ℕ) :
    Sorted c { σ with timers := { σ.timers with now := σ.timers.now + ns } } := by
  intro d p
  have hc := (h d p).coherent
  exact ⟨⟨hc.1, hc.2, hc.3, hc.4, hc.5, hc.6⟩, (h d p).listed, (h d p).stopped⟩

omit [DecidableEq S] [Inhabited P] in
lemma Sorted.check (h : Sorted c σ) : Sorted c σ.check :=
  h.of_eq (check_frame σ).1 (check_frame σ).2.1

omit [DecidableEq S] [Inhabited P] in
/-- The timeout thread takes an entry out of the queue. -/
lemma expire_cases (σ : System S T E P) : σ.expire = σ ∨ ∃ e q,
    σ.timers.running = true ∧ σ.timers.timeoutQueue.items = e :: q.items
      ∧ σ.expire = { σ with
          timers := { σ.timers with timeoutQueue := q }
          pool := if e.id ∈ σ.timers.invalid then σ.pool else σ.pool ++ [e] } := by
  unfold System.expire
  split
  swap
  · exact Or.inl rfl
  split
  swap
  · exact Or.inl rfl
  rename_i hrun _ e q hq
  refine Or.inr ⟨e, q, hrun, (DelayQueue.items_of_take hq).1, ?_⟩
  simp only
  split <;> rfl

omit [DecidableEq S] [Inhabited P] in
lemma Sorted.expire (h : Sorted c σ) : Sorted c σ.expire := by
  rcases expire_cases σ with he | ⟨e, q, hrun, hitems, he⟩
  · rw [he]
    exact h
  rw [he]
  intro d p
  have hc := (h d p).coherent
  refine ⟨{ hc with queue_nodup := ?_, queued := ?_ }, (h d p).listed, fun hrun' => ?_⟩
  · exact (List.nodup_cons.mp (hitems ▸ hc.queue_nodup)).2
  · exact fun e he => hc.queued e (hitems ▸ List.mem_cons_of_mem _ he)
  · exact absurd (hrun'.symm.trans hrun) (by simp)

end Steps

/-! ### The other requests -/

omit [DecidableEq S] in
/-- Entries are only added to the pending list. -/
lemma Sorted.submit (h : Sorted c σ) (d : ℕ) (e : Option E) (p : Option ℕ) :
    Sorted c (σ.submit c d e p) := by
  rcases submit_cases c d e p σ with ⟨-, hσ⟩ | ⟨hrun, q, pool, hσ, hq⟩
  · rw [hσ]
    exact h
  rw [hσ]
  intro d' p'
  have hw := h d' p'
  refine ⟨?_, fun s id hid => ?_, fun h => absurd (h.symm.trans hrun) (by simp)⟩
  · rcases hq with ⟨rfl, -⟩ | ⟨rfl, -⟩
    · exact hw.coherent.add (e := newEntry c σ d e p) rfl
    · exact hw.coherent.keep (e := newEntry c σ d e p) rfl
  · obtain ⟨hlt, hp, hown⟩ := hw.listed s id hid
    refine ⟨hlt.trans (Nat.lt_succ_self _), hp, fun e' he' heq => ?_⟩
    rcases List.mem_append.mp he' with he' | he'
    · exact hown e' he' heq
    · rw [List.mem_singleton.mp he'] at heq
      exact absurd heq hlt.ne'

omit [DecidableEq S] in
lemma mem_pending_cancelTimeout {entry e : EventQueueEntry S E} (h : σ.timers.Coherent) :
    e ∈ (σ.cancelTimeout entry).timers.pendingEntries
      ↔ e ∈ σ.timers.pendingEntries ∧ e.id ≠ entry.id := by
  simp only [System.cancelTimeout, (h.drops_one entry.id (Or.inl rfl)).pending]
  simp

omit [DecidableEq S] in
/-- A client cancels an entry, listed or not. -/
lemma Sorted.cancelTimeout (h : Sorted c σ) {entry : EventQueueEntry S E}
    (hlt : entry.id < σ.timers.nextId) : Sorted c (σ.cancelTimeout entry) := by
  have hd := h.coherent.drops_one entry.id (Or.inl rfl)
  refine fun d p =>
    ⟨h.coherent.of_drops hd (by simpa using hlt), fun s id hid => ?_, fun hrun => ?_⟩
  · obtain ⟨hlt, hp, hown⟩ := (h d p).listed s id hid
    exact ⟨hlt.trans_eq hd.nextId.symm, hp,
      fun e he => hown e ((mem_pending_cancelTimeout h.coherent).mp he).1⟩
  · change (σ.timers.cancelTimeout entry.id).timeoutQueue.items = []
    have hempty : σ.timers.timeoutQueue.items = [] :=
      (h d p).stopped (hd.running.symm.trans hrun)
    rw [hd.items, hempty]
    rfl

omit [DecidableEq S] in
/-- The shutdown empties the timeout queue. -/
lemma Sorted.shutdown (h : Sorted c σ) : Sorted c σ.shutdown := by
  unfold System.shutdown
  split
  · intro d p
    have hc := (h d p).coherent
    exact ⟨{ hc with queue_nodup := List.nodup_nil, queued :=
      fun e he => absurd he (List.not_mem_nil) }, (h d p).listed, fun _ => rfl⟩
  · exact h

omit [DecidableEq S] in
/-- Its end releases the entries. -/
lemma Sorted.terminate (h : Sorted c σ) (hrun : σ.timers.running = false) :
    Sorted c σ.terminate := by
  intro d p
  have hc := (h d p).coherent
  have hempty := (h d p).stopped hrun
  refine ⟨⟨List.nodup_nil, hc.queue_nodup, fun e he => absurd he (List.not_mem_nil),
    fun e he => ?_, fun e he => absurd he (List.not_mem_nil), hc.invalid_used⟩, fun s id hid => ?_,
    fun _ => hempty⟩
  · exact absurd (hempty ▸ he) (List.not_mem_nil)
  · obtain ⟨hlt, hp, -⟩ := (h d p).listed s id hid
    exact ⟨hlt, hp, fun e he => absurd he (List.not_mem_nil)⟩

end System

end CppStatecharts
