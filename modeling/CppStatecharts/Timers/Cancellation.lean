import CppStatecharts.Semantics.Trace
import CppStatecharts.Timers.Frame

/-!
Cancelling a timer while the worker is about to dispatch it.

* `Obedient`: no entry is dispatched after it was cancelled.
* `World.Owned`: a state lists entries that it has scheduled itself only.
* `World.Handles`: what every method does to such entries; one that it cancels belongs to a state it
  leaves (`compatible_handles`).
* `System.obedient_of_uninterrupted`: every run is obedient in which no client leaves the state of
  an entry between the tests of the worker and its dispatch.
* `Interrupted.not_obedient`: between the two, a client leaves the state and enters it anew.
-/

namespace CppStatecharts

variable {S T E P : Type}

/-- No entry is dispatched after it was cancelled. The trace is newest first. -/
def Obedient (tr : List (Obs S T)) : Prop :=
  ∀ post id now old, tr = post ++ .dispatched id now :: old → .invalidated id ∉ old

lemma Obedient.append {tr l : List (Obs S T)} (h : Obedient tr)
    (hl : ∀ o ∈ l, ∀ id now, o ≠ .dispatched id now) : Obedient (l ++ tr) := by
  intro post id now old heq
  rcases List.append_eq_append_iff.mp heq with ⟨r, rfl, htr⟩ | ⟨r, rfl, htr⟩
  · exact h r id now old htr
  · cases r with
    | nil => exact h [] id now old htr.symm
    | cons o r =>
        obtain ⟨rfl, -⟩ := List.cons.inj htr
        exact absurd rfl (hl _ (by simp) id now)

lemma Obedient.dispatched {tr : List (Obs S T)} {id : ℕ} {now : ℤ} (h : Obedient tr)
    (hid : .invalidated id ∉ tr) : Obedient (.dispatched id now :: tr) := by
  intro post id' now' old heq
  cases post with
  | cons o post => exact h post id' now' old (List.cons.inj heq).2
  | nil =>
      obtain ⟨ho, rfl⟩ := List.cons.inj heq
      obtain ⟨rfl, rfl⟩ := Obs.dispatched.inj ho
      exact hid

/-! ### What the methods do to the entries they cancel -/

variable [DecidableEq S] (c : Chart S T E P)

namespace World

/-- The entries a state lists are its own, among those that satisfy `K` or are in the timeout queue,
and the cancelled ones are marked. -/
structure Owned (K : EventQueueEntry S E → Prop) (w : World S T E P) : Prop where
  listed : ∀ s, ∀ id ∈ w.data.timeouts s, id < w.timers.nextId ∧ (c.kind s).isPseudo = false
    ∧ ∀ e, K e ∨ e ∈ w.timers.timeoutQueue.items → e.id = id → e.data = w.dataId ∧ e.state = s
  used : ∀ e, K e ∨ e ∈ w.timers.timeoutQueue.items → e.id < w.timers.nextId
  marked : ∀ id, .invalidated id ∈ w.trace → id ∈ w.timers.invalid

/-- The methods keep the entries in order; they cancel an entry only when they leave its state, and
none that no state lists. -/
structure Handles (w w' : World S T E P) : Prop where
  dataId : w'.dataId = w.dataId
  nextId : w.timers.nextId ≤ w'.timers.nextId
  items : ∀ e ∈ w'.timers.timeoutQueue.items, e ∈ w.timers.timeoutQueue.items
    ∨ w.timers.nextId ≤ e.id ∧ e.data = w.dataId
  invalid : ∀ id ∈ w.timers.invalid, id ∈ w'.timers.invalid
  owned : ∀ K, w.Owned c K → w'.Owned c K
  unlisted : ∀ id < w.timers.nextId, (∀ x, id ∉ w.data.timeouts x) →
    (∀ x, id ∉ w'.data.timeouts x) ∧ (id ∈ w'.timers.invalid → id ∈ w.timers.invalid)
  trace : ∃ l, w'.trace = l ++ w.trace ∧ (∀ o ∈ l, ∀ id now, o ≠ .dispatched id now)
    ∧ ∀ K, w.Owned c K → ∀ e, K e → e.id ∈ w'.timers.invalid → e.id ∉ w.timers.invalid →
      .deactivated e.state ∈ l

variable {c} {w w₁ w' : World S T E P}

omit [DecidableEq S] in
lemma Handles.trans (h : w.Handles c w₁) (h' : w₁.Handles c w') : w.Handles c w' where
  dataId := h'.dataId.trans h.dataId
  nextId := h.nextId.trans h'.nextId
  items e he := by
    rcases h'.items e he with he | ⟨hid, hd⟩
    · exact h.items e he
    · exact Or.inr ⟨h.nextId.trans hid, hd.trans h.dataId⟩
  invalid id hid := h'.invalid id (h.invalid id hid)
  owned K hK := h'.owned K (h.owned K hK)
  unlisted id hid hx := by
    obtain ⟨hx₁, hi₁⟩ := h.unlisted id hid hx
    obtain ⟨hx', hi'⟩ := h'.unlisted id (hid.trans_le h.nextId) hx₁
    exact ⟨hx', hi₁ ∘ hi'⟩
  trace := by
    obtain ⟨l, hl, hnd, hleft⟩ := h.trace
    obtain ⟨l', hl', hnd', hleft'⟩ := h'.trace
    refine ⟨l' ++ l, by rw [hl', hl, List.append_assoc], fun o ho => ?_, fun K hK e he hi hni => ?_⟩
    · exact (List.mem_append.mp ho).elim (hnd' o) (hnd o)
    · by_cases hi₁ : e.id ∈ w₁.timers.invalid
      · exact List.mem_append_right _ (hleft K hK e he hi₁ hni)
      · exact List.mem_append_left _ (hleft' K (h.owned K hK) e he hi hi₁)

end World

variable {c} {w w' : World S T E P} {s : S}

omit [DecidableEq S] in
lemma handles_quiet (h : w.Quiet c w') : w.Handles c w' := by
  obtain ⟨l, hl, hq⟩ := h.trace
  have hnot : ∀ o ∈ l, ∀ id now, o ≠ .dispatched id now ∧ o ≠ .invalidated id := by
    intro o ho id now
    constructor
    · rintro rfl
      exact absurd (hq _ ho).1 (by simp [Obs.quiet])
    · rintro rfl
      exact absurd (hq _ ho).1 (by simp [Obs.quiet])
  refine ⟨h.dataId, by rw [h.timers], by rw [h.timers]; exact fun e => Or.inl,
    by rw [h.timers]; exact fun _ => id, fun K hK => ⟨?_, ?_, ?_⟩, fun id _ hx => ⟨?_, ?_⟩,
    l, hl, fun o ho id now => (hnot o ho id now).1, fun K hK e he hi hni => ?_⟩
  · intro s id hid
    rw [h.timeouts] at hid
    rw [h.timers, h.dataId]
    exact hK.listed s id hid
  · rw [h.timers]
    exact hK.used
  · intro id hid
    rw [hl] at hid
    rw [h.timers]
    rcases List.mem_append.mp hid with hid | hid
    · exact absurd rfl (hnot _ hid id 0).2
    · exact hK.marked id hid
  · intro x
    rw [h.timeouts]
    exact hx x
  · rw [h.timers]
    exact fun hi => hi
  · rw [h.timers] at hi
    exact absurd hi hni

/-- A state that is left cancels the entries it lists, which are its own. -/
lemma handles_leave : w.Handles c (c.leave s w) := by
  have hc := cancels_cancelTimeouts s w
  obtain ⟨ht, hid⟩ := timers_leave (c := c) (w := w) (s := s)
  obtain ⟨l, hl, hmarks, hleft⟩ := trace_leave (c := c) (w := w) (s := s)
  have hsub : ∀ x, ∀ id ∈ (c.leave s w).data.timeouts x, id ∈ w.data.timeouts x := by
    intro x id h
    rw [timeouts_leave] at h
    split at h
    · cases h
    · exact h
  refine ⟨hid.trans hc.dataId, by rw [ht]; exact hc.nextId.ge,
    by rw [ht]; exact fun e he => Or.inl (hc.items e he),
    by rw [ht]; exact fun id h => (hc.invalid id).mpr (Or.inr h), fun K hK => ⟨?_, ?_, ?_⟩,
    fun id _ hx => ⟨fun x h => hx x (hsub x id h), ?_⟩, l, hl, ?_, ?_⟩
  · intro x id h
    obtain ⟨hlt, hp, hown⟩ := hK.listed x id (hsub x id h)
    rw [ht, hc.nextId, hid, hc.dataId]
    exact ⟨hlt, hp, fun e he => hown e (he.imp (fun h => h) (hc.items e))⟩
  · intro e he
    rw [ht] at he ⊢
    rw [hc.nextId]
    exact hK.used e (he.imp (fun h => h) (hc.items e))
  · intro id h
    rw [hl] at h
    rw [ht, hc.invalid]
    rcases List.mem_append.mp h with h | h
    · rcases hmarks _ h with h | ⟨i, hi, h⟩
      · cases h
      · exact Or.inl (Obs.invalidated.inj h ▸ hi)
    · exact Or.inr (hK.marked id h)
  · rw [ht, hc.invalid]
    exact fun h => h.resolve_left (hx s)
  · intro o ho id now
    rcases hmarks o ho with rfl | ⟨i, -, rfl⟩ <;> simp
  · intro K hK e he hi hni
    rw [ht, hc.invalid] at hi
    have hlisted := hi.resolve_right hni
    obtain ⟨-, hp, hown⟩ := hK.listed s e.id hlisted
    rw [(hown e (Or.inl he) rfl).2]
    refine hleft (StateKind.isHistory_eq_false_of_isPseudo hp) ?_
    rw [Option.isSome_iff_ne_none]
    intro hnone
    simp [Metadata.timeouts, hnone] at hlisted

/-- A state lists the entry it schedules, whose number is new. -/
lemma handles_scheduleTimeout (hp : (c.kind s).isPseudo = false) (t : T) :
    w.Handles c (c.scheduleTimeout s w t) := by
  rcases scheduleTimeout_cases (c := c) s w t with h | ⟨ev, ms, -, -, h, hrun⟩
  · rw [h]
    exact handles_quiet (World.Quiet.refl w)
  have hlisted : ∀ x, ∀ id ∈ (c.scheduleTimeout s w t).data.timeouts x,
      id ∈ w.data.timeouts x ∨ x = s ∧ id = w.timers.nextId := by
    intro x id hid
    rw [h, Metadata.timeouts_modify] at hid
    by_cases hx : x = s
    · subst hx
      cases hd : w.data.getData x <;> simp_all [Metadata.timeouts]
    · simp only [hx, ↓reduceIte] at hid
      exact Or.inl hid
  have htimers : (c.scheduleTimeout s w t).timers
      = w.timers.enqueueTimeout s w.dataId ev w.paramId ms := by rw [h]
  simp only [Timers.enqueueTimeout, hrun, ↓reduceIte] at htimers
  have hdata : (c.scheduleTimeout s w t).dataId = w.dataId := by rw [h]
  have hitems : ∀ e ∈ (c.scheduleTimeout s w t).timers.timeoutQueue.items,
      e = w.timers.newEntry s w.dataId ev w.paramId ms ∨ e ∈ w.timers.timeoutQueue.items := by
    rw [htimers]
    exact fun e he => DelayQueue.mem_add.mp he
  have hnext : (c.scheduleTimeout s w t).timers.nextId = w.timers.nextId + 1 := by rw [htimers]
  have hinv : (c.scheduleTimeout s w t).timers.invalid = w.timers.invalid := by rw [htimers]
  refine ⟨hdata, by omega, fun e he => ?_, by rw [hinv]; exact fun _ h => h,
    fun K hK => ⟨fun x id hid => ?_, fun e he => ?_, fun id hid => ?_⟩, fun id hlt hx =>
      ⟨fun x hid => ?_, ?_⟩,
    [.scheduled w.timers.nextId s w.timers.now ms], by rw [h]; rfl, by simp,
      fun K hK e he hi hni => ?_⟩
  · rcases hitems e he with rfl | he
    · exact Or.inr ⟨le_rfl, rfl⟩
    · exact Or.inl he
  · rw [hnext, hdata]
    rcases hlisted x id hid with hid | ⟨rfl, rfl⟩
    · obtain ⟨hlt, hpx, hown⟩ := hK.listed x id hid
      refine ⟨by omega, hpx, fun e he heq => ?_⟩
      rcases he with he | he
      · exact hown e (Or.inl he) heq
      · rcases hitems e he with rfl | he
        · exact absurd hlt (heq ▸ lt_irrefl _)
        · exact hown e (Or.inr he) heq
    · refine ⟨by omega, hp, fun e he heq => ?_⟩
      have hold : ¬ (K e ∨ e ∈ w.timers.timeoutQueue.items) := fun h =>
        absurd (hK.used e h) (heq ▸ lt_irrefl _)
      rcases he with he | he
      · exact absurd (Or.inl he) hold
      · rcases hitems e he with rfl | he
        · exact ⟨rfl, rfl⟩
        · exact absurd (Or.inr he) hold
  · rw [hnext]
    rcases he with he | he
    · have := hK.used e (Or.inl he)
      omega
    · rcases hitems e he with rfl | he
      · exact Nat.lt_succ_self _
      · have := hK.used e (Or.inr he)
        omega
  · rw [hinv]
    rw [h] at hid
    exact hK.marked id ((List.mem_cons.mp hid).resolve_left (by simp))
  · rcases hlisted x id hid with hid | ⟨-, rfl⟩
    · exact hx x hid
    · omega
  · rw [hinv]
    exact fun h => h
  · rw [hinv] at hi
    exact absurd hi hni

lemma compatible_handles (hc : c.ActionsKeepTimers) :
    Compatible c Set.univ (World.Handles c) :=
  compatible_of_quiet hc World.Handles.trans (fun _ _ h _ => handles_quiet h)
    (fun _ _ t hp _ => handles_scheduleTimeout hp t) fun _ _ _ => handles_leave

/-! ### The invariant of the system -/

namespace System

variable {σ σ' : System S T E P} {d : ℕ} {op : Op S E} {e : EventQueueEntry S E}

variable (c) in
/-- Every state lists entries of its own, the cancelled ones are marked, the entry whose tests have
succeeded is valid, and every trace is obedient. -/
structure Ordered (σ : System S T E P) : Prop where
  listed : ∀ d s, ∀ id ∈ (σ.stores d).timeouts s, id < σ.timers.nextId
    ∧ (c.kind s).isPseudo = false ∧ ∀ e ∈ σ.outstanding, e.id = id → e.data = d ∧ e.state = s
  used : ∀ e ∈ σ.outstanding, e.id < σ.timers.nextId
  marked : ∀ d id, .invalidated id ∈ σ.traces d → id ∈ σ.timers.invalid
  valid : ∀ e, σ.worker = some e → e.id ∉ σ.timers.invalid
  obedient : ∀ d, Obedient (σ.traces d)

omit [DecidableEq S] in
lemma Ordered.owned (h : Ordered c (σ.put w)) : w.Owned c (· ∈ σ.pool ++ σ.worker.toList) := by
  refine ⟨fun s id hid => ?_, fun e he => h.used e (mem_outstanding_put.mpr he.symm),
    fun id hid => ?_⟩
  · obtain ⟨hlt, hp, hown⟩ := h.listed w.dataId s id (by simpa [System.put] using hid)
    exact ⟨hlt, hp, fun e he => hown e (mem_outstanding_put.mpr he.symm)⟩
  · exact h.marked w.dataId id (by simpa [System.put] using hid)

omit [DecidableEq S] in
/-- A part of a call, on one metadata, that does not cancel the worker's entry. -/
lemma Ordered.put (h : Ordered c (σ.put w)) (hh : w.Handles c w')
    (hvalid : ∀ e, σ.worker = some e → e.id ∉ w'.timers.invalid) : Ordered c (σ.put w') := by
  have hK := hh.owned _ h.owned
  obtain ⟨l, hl, hnd, -⟩ := hh.trace
  have hlisted := forall_put σ w w' hh.dataId
    (Q := fun d m _ => ∀ s, ∀ id ∈ m.timeouts s, id < w.timers.nextId
      ∧ (c.kind s).isPseudo = false
      ∧ ∀ e ∈ (σ.put w).outstanding, e.id = id → e.data = d ∧ e.state = s)
    (R := fun d m _ => ∀ s, ∀ id ∈ m.timeouts s, id < w'.timers.nextId
      ∧ (c.kind s).isPseudo = false
      ∧ ∀ e ∈ (σ.put w').outstanding, e.id = id → e.data = d ∧ e.state = s)
    h.listed (fun _ s id hid => ?_) fun d _ m _ hq s id hid => ?_
  · have hmarked := forall_traces_put σ w w' hh.dataId
      (A := fun tr => ∀ id, .invalidated id ∈ tr → id ∈ w.timers.invalid) h.marked
      (fun _ => hK.marked) fun _ hm id hid => hh.invalid id (hm id hid)
    have hobedient := forall_traces_put σ w w' hh.dataId h.obedient
      (fun ho => hl ▸ ho.append hnd) fun _ ho => ho
    exact ⟨hlisted, fun e he => hK.used e (mem_outstanding_put.mp he).symm, hmarked, hvalid,
      hobedient⟩
  · obtain ⟨hlt, hp, hown⟩ := hK.listed s id hid
    refine ⟨hlt, hp, fun e he heq => ?_⟩
    obtain ⟨hdata, hs⟩ := hown e (mem_outstanding_put.mp he).symm heq
    exact ⟨hdata.trans hh.dataId, hs⟩
  · obtain ⟨hlt, hp, hown⟩ := hq s id hid
    refine ⟨hlt.trans_le hh.nextId, hp, fun e he heq => ?_⟩
    rcases mem_outstanding_put.mp he with he | he
    · rcases hh.items e he with he | ⟨hnew, -⟩
      · exact hown e (mem_outstanding_put.mpr (Or.inl he)) heq
      · exact absurd (heq ▸ hlt) (not_lt.mpr hnew)
    · exact hown e (mem_outstanding_put.mpr (Or.inr he)) heq

omit [DecidableEq S] in
/-- The worker's entry is cancelled only by leaving its state, in its metadata. -/
lemma Ordered.spared (h : Ordered c (σ.put w)) (hh : w.Handles c w') (he : σ.worker = some e) :
    e.id ∉ w'.timers.invalid ∨ e.data = w.dataId
      ∧ ∃ l, w'.trace = l ++ w.trace ∧ .deactivated e.state ∈ l := by
  have hmem : e ∈ σ.pool ++ σ.worker.toList := by simp [he]
  have hvalid : e.id ∉ w.timers.invalid := h.valid e he
  by_cases hx : ∀ x, e.id ∉ w.data.timeouts x
  · exact Or.inl fun hi => hvalid
      ((hh.unlisted e.id (h.owned.used e (Or.inl hmem)) hx).2 hi)
  · simp only [not_forall, not_not] at hx
    obtain ⟨x, hx⟩ := hx
    obtain ⟨l, hl, -, hleft⟩ := hh.trace
    by_cases hi : e.id ∈ w'.timers.invalid
    · exact Or.inr ⟨((h.owned.listed x _ hx).2.2 e (Or.inl hmem) rfl).1, l, hl,
        hleft _ h.owned e hmem hi hvalid⟩
    · exact Or.inl hi

omit [DecidableEq S] in
lemma Ordered.reset (h : Ordered c (σ.put w)) : Ordered c (σ.put (Statechart.forget w)) := by
  let Q : ℕ → Metadata S → List (Obs S T) → Prop := fun d m _ => ∀ s, ∀ id ∈ m.timeouts s,
    id < w.timers.nextId ∧ (c.kind s).isPseudo = false
      ∧ ∀ e ∈ (σ.put w).outstanding, e.id = id → e.data = d ∧ e.state = s
  refine ⟨forall_put σ w (Statechart.forget w) rfl (Q := Q) (R := Q) h.listed
      (fun _ s id hid => ?_) fun _ _ _ _ hq => hq, h.used,
    forall_traces_put σ w (Statechart.forget w) rfl
      (A := fun tr => ∀ id, .invalidated id ∈ tr → id ∈ w.timers.invalid) h.marked
      (fun hm id hid => ?_) fun _ hm => hm, h.valid,
    forall_traces_put σ w (Statechart.forget w) rfl h.obedient (fun ho => ?_) fun _ ho => ho⟩
  · simp [Statechart.forget, World.onData, World.log, Metadata.timeouts] at hid
  · exact hm id (by simpa [Statechart.forget, World.onData, World.log] using hid)
  · exact (ho.append (by simp) : Obedient ([.reset] ++ w.trace))

omit [DecidableEq S] in
lemma Ordered.dispatched {now : ℤ} (h : Ordered c (σ.put w)) (he : e.id ∉ w.timers.invalid) :
    Ordered c (σ.put (w.log (.dispatched e.id now))) := by
  refine ⟨fun d s id hid => h.listed d s id hid, h.used,
    forall_traces_put σ w (w.log (.dispatched e.id now)) rfl
      (A := fun tr => ∀ id, .invalidated id ∈ tr → id ∈ w.timers.invalid) h.marked
      (fun hm id hid => ?_) fun _ hm => hm, h.valid,
    forall_traces_put σ w (w.log (.dispatched e.id now)) rfl h.obedient (fun ho => ?_)
      fun _ ho => ho⟩
  · exact hm id (by simpa [World.log] using hid)
  · exact ho.dispatched fun hm => he (h.owned.marked e.id hm)

omit [DecidableEq S] in
lemma Ordered.check (h : Ordered c σ) : Ordered c σ.check := by
  obtain ⟨ht, hs, htr, -⟩ := check_frame σ
  refine ⟨fun d s id hid => ?_, fun e he => by rw [ht]; exact h.used e (outstanding_check e he),
    by rw [ht, htr]; exact h.marked, fun e he => ?_, by rw [htr]; exact h.obedient⟩
  · rw [hs] at hid
    rw [ht]
    obtain ⟨hlt, hp, hown⟩ := h.listed d s id hid
    exact ⟨hlt, hp, fun e he => hown e (outstanding_check e he)⟩
  · rw [ht]
    cases hw : σ.worker with
    | none => exact check_worker hw he
    | some e' => exact h.valid e (check_of_worker hw ▸ he)

omit [DecidableEq S] in
lemma Ordered.expire (h : Ordered c σ) : Ordered c σ.expire := by
  obtain ⟨hs, htr, hinv, hid, -, hw, hsub, -⟩ := expire_frame σ
  refine ⟨fun d s id hl => ?_, fun e he => by rw [hid]; exact h.used e (hsub e he),
    by rw [hinv, htr]; exact h.marked, by rw [hinv, hw]; exact h.valid,
    by rw [htr]; exact h.obedient⟩
  rw [hs] at hl
  rw [hid]
  obtain ⟨hlt, hp, hown⟩ := h.listed d s id hl
  exact ⟨hlt, hp, fun e he => hown e (hsub e he)⟩

section Steps

variable [Inhabited P]

/-- No client leaves the state of the worker's entry between the tests and the dispatch. -/
def Uninterrupted : Op S E → System S T E P → System S T E P → Prop
  | .dispatch d _ _, σ, σ' => ∀ e, σ.worker = some e → e.data = d →
      ∀ l, σ'.traces d = l ++ σ.traces d → .deactivated e.state ∉ l
  | _, _, _ => True

omit [DecidableEq S] in
lemma Ordered.argument (h : Ordered c σ) (p : Option ℕ) : Ordered c (σ.argument p).2 := by
  cases p
  · exact ⟨h.listed, h.used, h.marked, h.valid, h.obedient⟩
  · exact h

omit [DecidableEq S] [Inhabited P] in
/-- On a metadata that was just reset, no entry of before is cancelled. -/
lemma Ordered.put_reset (h : Ordered c (σ.put w)) (hh : (Statechart.forget w).Handles c w') :
    Ordered c (σ.put w') := by
  refine h.reset.put hh fun e he hi => ?_
  have hmem : e ∈ σ.pool ++ σ.worker.toList := by simp [he]
  exact h.valid e he ((hh.unlisted e.id (h.owned.used e (Or.inl hmem)) (by
    simp [Statechart.forget, World.onData, World.log, Metadata.timeouts])).2 hi)

lemma Ordered.start (hc : c.ActionsKeepTimers) {p : Option ℕ} (h : Ordered c σ)
    (hs : Invokes (Statechart.start c) d p σ σ') : Ordered c σ' := by
  obtain ⟨q, τ, n, o, w', ha, -, hn, rfl⟩ := hs.cases
  have hτ := h.argument p
  rw [ha, ← put_world τ d q] at hτ
  refine hτ.put_reset (World.Handles.trans ?_
    ((compatible_handles hc).dispatch n (Set.mem_univ none) _ _ _ (Statechart.returns_start.mp hn)))
  have h₁ := handles_quiet (quiet_activateData (c := c) (s := c.root)
    (w := Statechart.forget (τ.world d q)) (Or.inr rfl))
  unfold Statechart.enter
  split
  · exact h₁
  · rename_i st hst
    refine h₁.trans (handles_quiet (quiet_activateData (Or.inl ?_)))
    rw [(Chart.startState_eq_some hst).1]
    rfl

lemma Ordered.restoreState (hc : c.ActionsKeepTimers) {s : S} {p : ℕ} (h : Ordered c σ)
    (hs : Invokes (fun n => Statechart.restoreState c n s) d (some p) σ σ') : Ordered c σ' := by
  obtain ⟨o, w', ⟨n, hn⟩, rfl⟩ := hs
  change Ordered c (σ.put w')
  rw [← put_world σ d p] at h
  rcases Statechart.returns_restoreState.mp hn with ⟨-, -, rfl⟩ | ⟨-, -, hn⟩
  · exact h
  · exact h.put_reset ((compatible_handles hc).enterPath n _ _ _ _ hn)

lemma Ordered.dispatch (hc : c.ActionsKeepTimers) {e : Option E} {p : Option ℕ} (h : Ordered c σ)
    (hok : Uninterrupted (.dispatch d e p) σ σ')
    (hs : Invokes (fun n => Statechart.dispatch c n e) d p σ σ') : Ordered c σ' := by
  obtain ⟨q, τ, n, o, w', ha, ⟨-, -, htr, -, hwk⟩, hn, rfl⟩ := hs.cases
  have hτ := h.argument p
  have hh := (compatible_handles hc).dispatch n (Set.mem_univ e) _ _ _ hn
  rw [ha, ← put_world τ d q] at hτ
  refine hτ.put hh fun en he => ?_
  rcases hτ.spared hh he with hi | ⟨hd, l, hl, hleft⟩
  · exact hi
  · refine absurd hleft (hok en (hwk.symm.trans he) hd l ?_)
    rw [← htr]
    have hdata : w'.dataId = d := hh.dataId
    simp only [System.put, hdata, Function.update_self]
    exact hl

lemma Ordered.deliver (hc : c.ActionsKeepTimers) (h : Ordered c σ) (hd : Deliver c σ σ') :
    Ordered c σ' := by
  obtain ⟨e, q, τ, n, o, w', he, ha, ⟨ht, -, -, -, hwk⟩, hn, rfl⟩ := hd.cases
  have hvalid := h.valid e he
  have hidle : Ordered c { σ with worker := none } := by
    have hsub : ∀ e ∈ ({ σ with worker := none } : System S T E P).outstanding,
        e ∈ σ.outstanding := by
      intro e he
      simp only [outstanding, List.mem_append] at he ⊢
      tauto
    refine ⟨fun d s id hid => ?_, fun e he => h.used e (hsub e he), h.marked, by simp, h.obedient⟩
    obtain ⟨hlt, hp, hown⟩ := h.listed d s id hid
    exact ⟨hlt, hp, fun e he => hown e (hsub e he)⟩
  have hτ := hidle.argument e.param
  rw [ha, ← put_world τ e.data q] at hτ
  rw [← ht] at hvalid hn
  exact (hτ.dispatched hvalid).put
    ((compatible_handles hc).dispatch n (Set.mem_univ e.event) _ _ _ hn) fun e' he' => by
      rw [hwk] at he'
      cases he'

/-- One uninterrupted step keeps the invariant. -/
lemma Ordered.step (hc : c.ActionsKeepTimers) (hs : Step c op σ σ') (hok : Uninterrupted op σ σ')
    (h : Ordered c σ) : Ordered c σ' := by
  cases op with
  | start d p => exact h.start hc hs
  | restoreState s d p => exact h.restoreState hc hs
  | dispatch d e p => exact h.dispatch hc hok hs
  | tick ns =>
      obtain rfl := hs
      exact ⟨h.listed, h.used, h.marked, h.valid, h.obedient⟩
  | expire =>
      obtain rfl := hs
      exact h.expire
  | check =>
      obtain rfl := hs
      exact h.check
  | deliver => exact h.deliver hc hs
  | work =>
      obtain ⟨-, ⟨-, rfl⟩ | hd⟩ := hs
      · exact h.check
      · exact h.check.deliver hc hd

/-- **No dispatch after the cancellation.** In every run in which no client leaves the state of an
entry between the tests of the worker and the dispatch, no entry is dispatched after it was
cancelled. -/
theorem obedient_of_uninterrupted (hc : c.ActionsKeepTimers) {params : ℕ → P} {nextParam : ℕ}
    (h : Run c Uninterrupted (fresh params nextParam) σ) (d : ℕ) : Obedient (σ.traces d) := by
  have h₀ : Ordered c (fresh params nextParam : System S T E P) := by
    refine ⟨?_, by simp [fresh, outstanding], by simp [fresh], by simp [fresh], fun d => ?_⟩
    · simp [fresh, Metadata.timeouts]
    · intro post id now old heq
      simp [fresh] at heq
  exact (h.induction (fun op σ σ' hs hok hk => hk.step hc hs hok) h₀).obedient d

end Steps

end System

/-! ### A client between the tests and the dispatch -/

namespace Interrupted

inductive St where
  | chart | s | a | b
  deriving DecidableEq

instance : Fintype St := ⟨{.chart, .s, .a, .b}, fun x => by cases x <;> decide⟩

inductive Tr where
  | begin | late | again
  deriving DecidableEq

instance : Fintype Tr := ⟨{.begin, .late, .again}, fun t => by cases t <;> decide⟩

/-- The state `a` is left for `b` after 100 milliseconds; the event `go` leaves it and enters it
anew. -/
def chart : Chart St Tr Event Unit where
  name := "interrupted"
  root := .chart
  ownedStates := [.s, .a, .b]
  ownedTransitions := [.begin, .late, .again]
  kind
    | .chart => .statechart
    | .s => .pseudoState .start
    | _ => .state
  context
    | .chart => none
    | _ => some .chart
  depth
    | .chart => 0
    | _ => 1
  source
    | .begin => .s
    | _ => .a
  target
    | .late => .b
    | _ => .a
  event
    | .begin => none
    | .late => some (.timeoutEvent 0 1 100)
    | .again => some (.event "go")
  equals ev e _ _ := ev.equals e
  timeout := Event.timeout

lemma actionsKeepTimers : chart.ActionsKeepTimers :=
  ⟨fun h => by simp [chart] at h, fun h => by simp [chart] at h, fun h => by simp [chart] at h,
    fun h => by simp [chart] at h⟩

/-- A new system, whose clients have one parameter. -/
abbrev initial : System St Tr Event Unit := System.fresh (fun _ => ()) 1

lemma not_obedient_of_any {tr : List (Obs St Tr)} (i : ℕ) {id : ℕ} {now : ℤ}
    (hi : tr[i]? = some (.dispatched id now))
    (h : ∃ j : ℕ, (tr.drop (i + 1))[j]? = some (.invalidated id)) : ¬ Obedient tr := by
  intro hob
  obtain ⟨j, hj⟩ := h
  obtain ⟨hlt, hi⟩ := List.getElem?_eq_some_iff.mp hi
  refine hob (tr.take i) id now (tr.drop (i + 1)) ?_ (List.mem_of_getElem? hj)
  rw [← hi, ← List.drop_eq_getElem_cons, List.take_append_drop]

set_option maxRecDepth 4000 in
/-- **A timer of the activation before.** The worker has tested the entry of `a`; before it takes
the mutex, a client leaves `a` and enters it anew. -/
theorem not_obedient : ∃ σ₀ σ, System.Step chart (.start 0 (some 0)) initial σ₀
    ∧ System.Run chart
      (fun op _ _ => op matches .dispatch .. | .tick _ | .expire | .check | .deliver) σ₀ σ
    ∧ ¬ Obedient (σ.traces 0) := by
  refine ⟨_, _, System.step_of_exec (rfl : System.exec chart 4 initial _ = some _),
    .execAll (.refl _) ?_ (rfl : System.execAll chart 4 [.tick 100000000, .expire, .check,
      .dispatch 0 (some (.event "go")) (some 0), .deliver] _ = some _), ?_⟩
  · simp
  · exact not_obedient_of_any 5 rfl ⟨4, rfl⟩

set_option maxRecDepth 4000 in
/-- An event that leaves `a` alone may come between the two. -/
theorem obedient_other : ∃ σ, System.Run chart System.Uninterrupted initial σ
    ∧ (σ.stores 0).isActive .b = true ∧ Obedient (σ.traces 0) := by
  have hbefore : ∀ {σ}, System.execAll chart 4
    [.start 0 (some 0), .tick 100000000, .expire, .check] initial
      = some σ → System.Run chart System.Uninterrupted initial σ := fun h =>
    .execAll (.refl _) (by simp [System.Uninterrupted]) h
  have hother : ∀ {σ σ'}, System.Run chart System.Uninterrupted initial σ →
      System.exec chart 4 σ (.dispatch 0 (some (.event "other")) (some 0)) = some σ' →
      σ'.traces 0 = σ.traces 0 → System.Run chart System.Uninterrupted initial σ' := by
    intro σ σ' hr h htr
    refine .step _ hr (System.step_of_exec h) fun e _ _ l hl => ?_
    rw [htr] at hl
    simp [List.self_eq_append_left.mp hl]
  have hafter : ∀ {σ σ'}, System.Run chart System.Uninterrupted initial σ →
      System.exec chart 4 σ .deliver = some σ' →
      System.Run chart System.Uninterrupted initial σ' := fun hr h =>
    .step _ hr (System.step_of_exec h) trivial
  have h := hafter (hother (hbefore rfl) rfl rfl) rfl
  exact ⟨_, h, rfl, System.obedient_of_uninterrupted actionsKeepTimers h 0⟩

end Interrupted

end CppStatecharts
