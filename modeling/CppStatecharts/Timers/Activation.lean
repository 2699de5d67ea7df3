import CppStatecharts.Semantics.Trace
import CppStatecharts.Timers.Frame

/-!
A timer belongs to the activation that scheduled it.

* `Timely`: between the scheduling of an entry and its dispatch its state was neither left nor
  entered anew, nor was the metadata reset, and its delay has passed.
* `Prompt`: the same with the deadline in place of the delay, which is what the code looks at; the
  two agree where no deadline overflows (`Prompt.timely`).
* `Chart.Live`: the entry's state is active, lists the entry, and was not left since it scheduled
  it.
* `World.Tends`: what every method does to the entries that are still to come (`compatible_tends`).
* `System.Kept`: the invariant of the system: every outstanding entry that is not invalid is live.
* `System.timely_of_careful`: every run is timely in which no metadata is reset while it has such an
  entry, and no deadline overflows.
* `Restart.not_timely`: `start` on a running metadata forgets the entries without cancelling them.
-/

namespace CppStatecharts

variable {S T E P : Type}

/-- Whenever an entry is dispatched, its delay (in milliseconds) has passed since it was scheduled,
and since then its state was neither left nor entered anew, nor was the metadata reset. The trace is
newest first. -/
def Timely (tr : List (Obs S T)) : Prop :=
  ∀ post id now mid s now₀ delay old,
    tr = post ++ .dispatched id now :: (mid ++ .scheduled id s now₀ delay :: old) →
    (∀ o ∈ mid, o ≠ .deactivated s ∧ o ≠ .activated s ∧ o ≠ .reset)
      ∧ now₀ + delay * 1000000 ≤ now

/-- The same for the deadline instead of the delay. -/
def Prompt (tr : List (Obs S T)) : Prop :=
  ∀ post id now mid s now₀ delay old,
    tr = post ++ .dispatched id now :: (mid ++ .scheduled id s now₀ delay :: old) →
    (∀ o ∈ mid, o ≠ .deactivated s ∧ o ≠ .activated s ∧ o ≠ .reset)
      ∧ deadlineAfter now₀ delay ≤ now

/-- The delay and the deadline, in nanoseconds, are within 64 bits. -/
def Fits (now delay : ℤ) : Prop :=
  -2 ^ 63 ≤ delay * 1000000 ∧ delay * 1000000 < 2 ^ 63 ∧ now + delay * 1000000 < 2 ^ 63

instance (now delay : ℤ) : Decidable (Fits now delay) := inferInstanceAs (Decidable (_ ∧ _ ∧ _))

/-- No entry was scheduled whose deadline overflows. -/
def Fitting (tr : List (Obs S T)) : Prop :=
  ∀ id s now delay, .scheduled id s now delay ∈ tr → Fits now delay

/-- The test of a single observation. -/
def Obs.fits : Obs S T → Bool
  | .scheduled _ _ now delay => decide (Fits now delay)
  | _ => true

lemma fitting_of_all {tr : List (Obs S T)} (h : tr.all Obs.fits = true) : Fitting tr :=
  fun _ _ _ _ hm => of_decide_eq_true (List.all_eq_true.mp h _ hm)

lemma Fits.le_deadlineAfter {now delay : ℤ} (h : Fits now delay) :
    now + delay * 1000000 ≤ deadlineAfter now delay := by
  obtain ⟨hlow, hhigh, hnow⟩ := h
  have hdelay : int64 (delay * 1000000) = delay * 1000000 :=
    Int.bmod_eq_of_le (by omega) (by omega)
  rw [deadlineAfter, hdelay]
  exact le_int64 hnow

lemma Prompt.timely {tr : List (Obs S T)} (h : Prompt tr) (hf : Fitting tr) : Timely tr := by
  intro post id now mid s now₀ delay old heq
  obtain ⟨hmid, hle⟩ := h post id now mid s now₀ delay old heq
  have hfits := hf id s now₀ delay (by simp [heq])
  exact ⟨hmid, hfits.le_deadlineAfter.trans hle⟩

/-- The entry that an observation schedules. -/
def Obs.scheduledId : Obs S T → Option ℕ
  | .scheduled id .. => some id
  | _ => none

/-- The entry's state has not been left, nor the metadata reset, since the entry was scheduled. -/
def Awaited (e : EventQueueEntry S E) (tr : List (Obs S T)) : Prop :=
  ∃ mid now delay old, tr = mid ++ .scheduled e.id e.state now delay :: old
    ∧ e.deadline = deadlineAfter now delay
    ∧ ∀ o ∈ mid, o ≠ .deactivated e.state ∧ o ≠ .activated e.state ∧ o ≠ .reset

/-- The entry is one that an active state has scheduled in its present activation. -/
structure Chart.Live (c : Chart S T E P) (e : EventQueueEntry S E) (m : Metadata S)
    (tr : List (Obs S T)) : Prop where
  proper : (c.kind e.state).isPseudo = false
  active : m.isActive e.state = true
  listed : e.id ∈ m.timeouts e.state
  awaited : Awaited e tr

/-- The entries scheduled in a trace have different numbers, which are used up. -/
def Numbered (nextId : ℕ) (tr : List (Obs S T)) : Prop :=
  (tr.filterMap Obs.scheduledId).Nodup ∧ ∀ id ∈ tr.filterMap Obs.scheduledId, id < nextId

lemma Awaited.append {e : EventQueueEntry S E} {tr l : List (Obs S T)} (h : Awaited e tr)
    (hl : ∀ o ∈ l, o ≠ .deactivated e.state ∧ o ≠ .activated e.state ∧ o ≠ .reset) :
    Awaited e (l ++ tr) := by
  obtain ⟨mid, now, delay, old, rfl, hd, hmid⟩ := h
  refine ⟨l ++ mid, now, delay, old, by simp, hd, fun o ho => ?_⟩
  rcases List.mem_append.mp ho with ho | ho
  · exact hl o ho
  · exact hmid o ho

lemma Numbered.append {n n' : ℕ} {tr l : List (Obs S T)} (h : Numbered n tr) (hn : n ≤ n')
    (hl : ∀ o ∈ l, o.scheduledId = none) : Numbered n' (l ++ tr) := by
  have hnil : l.filterMap Obs.scheduledId = [] := List.filterMap_eq_nil_iff.mpr hl
  refine ⟨by simpa [hnil] using h.1, fun id hid => ?_⟩
  rw [List.filterMap_append, hnil, List.nil_append] at hid
  exact (h.2 id hid).trans_le hn

/-- In a list whose labels are distinct, a label marks one place. -/
lemma eq_of_nodup_filterMap {α β : Type} {f : α → Option β} {b : β} {l l' r r' : List α} {x y : α}
    (hnd : ((l ++ x :: r).filterMap f).Nodup) (hx : f x = some b) (hy : f y = some b)
    (h : l ++ x :: r = l' ++ y :: r') : l' = l ∧ y = x ∧ r' = r := by
  have hmem : ∀ {z : α} {u v : List α}, f z = some b → b ∈ (u ++ z :: v).filterMap f :=
    fun hz => List.mem_filterMap.mpr ⟨_, by simp, hz⟩
  induction l generalizing l' with
  | nil =>
      cases l' with
      | nil =>
          obtain ⟨rfl, rfl⟩ := List.cons.inj h
          exact ⟨rfl, rfl, rfl⟩
      | cons a l' =>
          obtain ⟨rfl, rfl⟩ := List.cons.inj h
          rw [List.nil_append, List.filterMap_cons_some hx] at hnd
          exact absurd (hmem hy) (List.nodup_cons.mp hnd).1
  | cons a l ih =>
      cases l' with
      | nil =>
          obtain ⟨rfl, rfl⟩ := List.cons.inj h
          rw [List.cons_append, List.filterMap_cons_some hy] at hnd
          exact absurd (hmem hx) (List.nodup_cons.mp hnd).1
      | cons a' l' =>
          obtain ⟨rfl, htail⟩ := List.cons.inj h
          have hnd' : ((l ++ x :: r).filterMap f).Nodup := by
            refine List.Nodup.sublist ?_ hnd
            exact List.Sublist.filterMap f (List.sublist_cons_self a _)
          obtain ⟨rfl, hyx, hr⟩ := ih hnd' htail
          exact ⟨rfl, hyx, hr⟩

lemma Prompt.append {tr l : List (Obs S T)} (h : Prompt tr)
    (hl : ∀ o ∈ l, ∀ id now, o ≠ .dispatched id now) : Prompt (l ++ tr) := by
  intro post id now mid s now₀ delay old heq
  rcases List.append_eq_append_iff.mp heq with ⟨r, rfl, htr⟩ | ⟨r, rfl, htr⟩
  · exact h r id now mid s now₀ delay old htr
  · cases r with
    | nil => exact h [] id now mid s now₀ delay old htr.symm
    | cons o r =>
        obtain ⟨rfl, -⟩ := List.cons.inj htr
        exact absurd rfl (hl _ (by simp) id now)

/-- The dispatch of an entry that is due and still awaited. -/
lemma Prompt.dispatched {n : ℕ} {e : EventQueueEntry S E} {tr : List (Obs S T)} {now : ℤ}
    (h : Prompt tr) (hn : Numbered n tr) (he : Awaited e tr) (hnow : e.deadline ≤ now) :
    Prompt (.dispatched e.id now :: tr) := by
  intro post id now' mid s now₀ delay old heq
  cases post with
  | cons o post => exact h post id now' mid s now₀ delay old (List.cons.inj heq).2
  | nil =>
      obtain ⟨ho, htr⟩ := List.cons.inj heq
      obtain ⟨rfl, rfl⟩ := Obs.dispatched.inj ho
      obtain ⟨mid', now₁, delay', old', htr', hd, hmid⟩ := he
      subst htr'
      obtain ⟨rfl, ho, -⟩ := eq_of_nodup_filterMap hn.1 rfl rfl htr
      obtain ⟨-, rfl, rfl, rfl⟩ := Obs.scheduled.inj ho
      exact ⟨hmid, hd ▸ hnow⟩

/-! ### What the methods do to the entries to come -/

variable [DecidableEq S] (c : Chart S T E P)

namespace World

/-- Every entry of this metadata that is in the timeout queue, or else satisfies `K`, is live
unless it is invalid. -/
def Sound (K : EventQueueEntry S E → Prop) (w : World S T E P) : Prop :=
  ∀ e, K e ∨ e ∈ w.timers.timeoutQueue.items → e.data = w.dataId → e.id ∉ w.timers.invalid →
    c.Live e w.data w.trace

/-- The second world has the entries of the first for other metadata, at most, and the entries of
this metadata are live if those of the first world were. -/
structure Tends (w w' : World S T E P) : Prop where
  dataId : w'.dataId = w.dataId
  now : w'.timers.now = w.timers.now
  nextId : w.timers.nextId ≤ w'.timers.nextId
  items : ∀ e ∈ w'.timers.timeoutQueue.items, e ∈ w.timers.timeoutQueue.items ∨ e.data = w.dataId
  invalid : ∀ id ∈ w.timers.invalid, id ∈ w'.timers.invalid
  numbered : Numbered w.timers.nextId w.trace → Numbered w'.timers.nextId w'.trace
  prompt : Prompt w.trace → Prompt w'.trace
  sound : ∀ K, w.Sound c K → w'.Sound c K

variable {c} {w w₁ w' : World S T E P}

omit [DecidableEq S] in
lemma Tends.trans (h : w.Tends c w₁) (h' : w₁.Tends c w') : w.Tends c w' where
  dataId := h'.dataId.trans h.dataId
  now := h'.now.trans h.now
  nextId := h.nextId.trans h'.nextId
  items e he := (h'.items e he).elim (h.items e) fun hd => Or.inr (hd.trans h.dataId)
  invalid id hid := h'.invalid id (h.invalid id hid)
  numbered hn := h'.numbered (h.numbered hn)
  prompt ht := h'.prompt (h.prompt ht)
  sound K hK := h'.sound K (h.sound K hK)

end World

variable {c} {w w' : World S T E P} {s : S}

omit [DecidableEq S] in
lemma tends_quiet (h : w.Quiet c w') : w.Tends c w' := by
  obtain ⟨l, hl, hq⟩ := h.trace
  refine ⟨h.dataId, by rw [h.timers], by rw [h.timers], by rw [h.timers]; exact fun e => Or.inl,
    by rw [h.timers]; exact fun _ => id, fun hn => ?_, fun ht => ?_, fun K hK e he hd hinv => ?_⟩
  · rw [h.timers, hl]
    refine hn.append le_rfl fun o ho => ?_
    have := (hq o ho).1
    cases o <;> simp_all [Obs.quiet, Obs.scheduledId]
  · rw [hl]
    refine ht.append fun o ho id now heq => ?_
    exact absurd (hq o ho).1 (by simp [heq, Obs.quiet])
  · rw [h.timers] at he hinv
    have hlive := hK e he (hd.trans h.dataId) hinv
    refine ⟨hlive.proper, h.active _ hlive.active, by rw [h.timeouts]; exact hlive.listed, ?_⟩
    rw [hl]
    refine hlive.awaited.append fun o ho => ⟨?_, ?_, ?_⟩
    · rintro rfl
      exact absurd (hq _ ho).1 (by simp [Obs.quiet])
    · rintro rfl
      rcases (hq _ ho).2 _ rfl with hp | ha
      · simp [hlive.proper] at hp
      · simp [hlive.active] at ha
    · rintro rfl
      exact absurd (hq _ ho).1 (by simp [Obs.quiet])

/-- Leaving a state cancels the entries it lists, and no others are due to it. -/
lemma tends_leave : w.Tends c (c.leave s w) := by
  have hc := cancels_cancelTimeouts s w
  obtain ⟨ht, hid⟩ := timers_leave (c := c) (w := w) (s := s)
  obtain ⟨l, hl, hmarks, -⟩ := trace_leave (c := c) (w := w) (s := s)
  refine ⟨hid.trans hc.dataId, by rw [ht]; exact hc.now, by rw [ht]; exact hc.nextId.ge,
    by rw [ht]; exact fun e he => Or.inl (hc.items e he),
    by rw [ht]; exact fun id h => (hc.invalid id).mpr (Or.inr h), fun hn => ?_, fun htm => ?_, ?_⟩
  · rw [ht, hl]
    refine hn.append hc.nextId.ge fun o ho => ?_
    rcases hmarks o ho with rfl | ⟨id, -, rfl⟩ <;> rfl
  · rw [hl]
    refine htm.append fun o ho id now => ?_
    rcases hmarks o ho with rfl | ⟨id, -, rfl⟩ <;> simp
  · intro K hK e he hd hinv
    rw [ht] at he hinv
    rw [hc.invalid, not_or] at hinv
    have hlive := hK e (he.imp id (hc.items e)) (hd.trans (hid.trans hc.dataId)) hinv.2
    have hne : e.state ≠ s := fun h => hinv.1 (h ▸ hlive.listed)
    refine ⟨hlive.proper, by simp [hne, hlive.active], ?_, ?_⟩
    · rw [timeouts_leave, if_neg fun h => hne h.1]
      exact hlive.listed
    · rw [hl]
      refine hlive.awaited.append fun o ho => ?_
      rcases hmarks o ho with rfl | ⟨id, -, rfl⟩
      · exact ⟨fun h => hne (Obs.deactivated.inj h).symm, by simp, by simp⟩
      · simp

/-- An entry is scheduled for an active state, which then lists it. -/
lemma tends_scheduleTimeout (hp : (c.kind s).isPseudo = false) (hs : w.data.isActive s = true)
    (t : T) : w.Tends c (c.scheduleTimeout s w t) := by
  rcases scheduleTimeout_cases (c := c) s w t with h | ⟨ev, ms, -, -, h, hrun⟩
  · rw [h]
    exact tends_quiet (World.Quiet.refl w)
  have hagree := agree_scheduleTimeout c w s t
  have hlisted : ∀ x id, id ∈ w.data.timeouts x ∨ x = s ∧ id = w.timers.nextId →
      id ∈ (c.scheduleTimeout s w t).data.timeouts x := by
    intro x id hid
    rw [h, Metadata.timeouts_modify]
    obtain ⟨d, hd, -⟩ := Metadata.exists_of_isActive hs
    by_cases hx : x = s
    · subst hx
      simpa [hd, Metadata.timeouts] using hid
    · simpa [hx] using hid
  have htrace : (c.scheduleTimeout s w t).trace
      = [.scheduled w.timers.nextId s w.timers.now ms] ++ w.trace := by rw [h]; rfl
  have htimers : (c.scheduleTimeout s w t).timers
      = w.timers.enqueueTimeout s w.dataId ev w.paramId ms := by rw [h]
  simp only [Timers.enqueueTimeout, hrun, ↓reduceIte] at htimers
  refine ⟨by rw [h], by rw [htimers], by rw [htimers]; exact Nat.le_succ _, ?_,
    by rw [htimers]; exact fun _ => id, ?_, fun htm => ?_, ?_⟩
  · rw [htimers]
    intro e he
    rcases DelayQueue.mem_add.mp he with rfl | he
    · exact Or.inr rfl
    · exact Or.inl he
  · intro hn
    rw [htimers, htrace]
    refine ⟨?_, fun id hid => ?_⟩
    · simp only [List.cons_append, List.nil_append, Obs.scheduledId, List.filterMap_cons,
        List.nodup_cons]
      exact ⟨fun hmem => absurd (hn.2 _ hmem) (lt_irrefl _), hn.1⟩
    · simp only [List.cons_append, List.nil_append, Obs.scheduledId, List.filterMap_cons,
        List.mem_cons] at hid
      rcases hid with rfl | hid
      · exact Nat.lt_succ_self _
      · exact (hn.2 id hid).trans (Nat.lt_succ_self _)
  · rw [htrace]
    exact htm.append (by simp)
  · intro K hK e he hd hinv
    rw [htimers] at he hinv
    by_cases hnew : e = w.timers.newEntry s w.dataId ev w.paramId ms
    · subst hnew
      refine ⟨hp, hagree.isActive.trans hs, hlisted s _ (Or.inr ⟨rfl, rfl⟩), ?_⟩
      exact ⟨[], w.timers.now, ms, w.trace, htrace, rfl, by simp⟩
    · have hold : K e ∨ e ∈ w.timers.timeoutQueue.items :=
        he.imp id fun he => (DelayQueue.mem_add.mp he).resolve_left hnew
      have hlive := hK e hold (by rw [h] at hd; exact hd) hinv
      refine ⟨hlive.proper, hagree.isActive.trans hlive.active,
        hlisted _ _ (Or.inl hlive.listed), ?_⟩
      rw [htrace]
      exact hlive.awaited.append (by simp)

lemma compatible_tends (hc : c.ActionsKeepTimers) : Compatible c Set.univ (World.Tends c) :=
  compatible_of_quiet hc World.Tends.trans (fun _ _ h _ => tends_quiet h)
    (fun _ _ t hp hs => tends_scheduleTimeout hp hs t) fun _ _ _ => tends_leave

/-! ### The invariant of the system -/

namespace System

variable {σ σ' : System S T E P} {d : ℕ} {op : Op S E}

/-- No entry for the metadata at `d` is still to come, apart from invalid ones. -/
def Idle (σ : System S T E P) (d : ℕ) : Prop :=
  ∀ e ∈ σ.outstanding, e.data = d → e.id ∈ σ.timers.invalid

variable (c) in
/-- Every entry still to come is live unless it is invalid, those past the timeout queue are due,
and every dispatch was prompt. -/
structure Kept (σ : System S T E P) : Prop where
  live : ∀ e ∈ σ.outstanding, e.id ∉ σ.timers.invalid →
    c.Live e (σ.stores e.data) (σ.traces e.data)
  due : ∀ e ∈ σ.pool ++ σ.worker.toList, e.deadline ≤ σ.timers.now
  numbered : ∀ d, Numbered σ.timers.nextId (σ.traces d)
  prompt : ∀ d, Prompt (σ.traces d)

omit [DecidableEq S] in
/-- A part of a call, on one metadata, keeps the invariant. -/
lemma Kept.put (h : Kept c (σ.put w)) (ht : w.Tends c w') : Kept c (σ.put w') := by
  let K : EventQueueEntry S E → Prop := (· ∈ σ.pool ++ σ.worker.toList)
  -- the entries of each metadata, by themselves
  have hlive := forall_put σ w w' ht.dataId
    (Q := fun d m tr => ∀ e, K e ∨ e ∈ w.timers.timeoutQueue.items → e.data = d →
      e.id ∉ w.timers.invalid → c.Live e m tr)
    (R := fun d m tr => ∀ e, K e ∨ e ∈ w'.timers.timeoutQueue.items → e.data = d →
      e.id ∉ w'.timers.invalid → c.Live e m tr)
    (fun d e he hd => by
      subst hd
      exact h.live e (mem_outstanding_put.mpr he.symm))
    (fun hsound e he hd => ht.sound K hsound e he (hd.trans ht.dataId.symm))
    fun d hd m tr hq e he hed hinv => hq e
      (he.imp id fun he => (ht.items e he).resolve_right (hed ▸ hd)) hed
      fun hi => hinv (ht.invalid _ hi)
  exact ⟨fun e he => hlive e.data e (mem_outstanding_put.mp he).symm rfl,
    fun e he => (h.due e he).trans_eq ht.now.symm,
    forall_traces_put σ w w' ht.dataId h.numbered ht.numbered fun _ hn =>
      ⟨hn.1, fun id hid => (hn.2 id hid).trans_le ht.nextId⟩,
    forall_traces_put σ w w' ht.dataId h.prompt ht.prompt fun _ hp => hp⟩

omit [DecidableEq S] in
/-- A metadata for which no entry is to come can be reset. -/
lemma Kept.reset (h : Kept c (σ.put w)) (hidle : (σ.put w).Idle w.dataId) :
    Kept c (σ.put (Statechart.forget w)) := by
  refine ⟨fun e he hinv => ?_, h.due,
    forall_traces_put σ w _ rfl h.numbered (fun hn => ?_) fun _ hn => hn,
    forall_traces_put σ w _ rfl h.prompt (fun hp => ?_) fun _ hp => hp⟩
  · have hd : e.data ≠ w.dataId := fun hd => hinv (hidle e he hd)
    have hlive := h.live e he hinv
    simpa [System.put, Statechart.forget, World.onData, World.log, hd] using hlive
  · exact (hn.append le_rfl (by simp [Obs.scheduledId]) : Numbered _ ([.reset] ++ w.trace))
  · exact (hp.append (by simp) : Prompt ([.reset] ++ w.trace))

lemma Kept.enter (h : Kept c (σ.put w)) (hidle : (σ.put w).Idle w.dataId) :
    Kept c (σ.put (Statechart.enter c w)) := by
  have h₁ := (h.reset hidle).put
    (tends_quiet (quiet_activateData (s := c.root) (Or.inr rfl)))
  unfold Statechart.enter
  split
  · exact h₁
  · rename_i st hst
    refine h₁.put (tends_quiet (quiet_activateData (Or.inl ?_)))
    rw [(Chart.startState_eq_some hst).1]
    rfl

omit [DecidableEq S] in
lemma Kept.dispatched {e : EventQueueEntry S E} (h : Kept c (σ.put w))
    (he : c.Live e w.data w.trace) (hdue : e.deadline ≤ w.timers.now) :
    Kept c (σ.put (w.log (.dispatched e.id w.timers.now))) := by
  have hmark : ∀ e', c.Live e' w.data w.trace →
      c.Live e' w.data ([.dispatched e.id w.timers.now] ++ w.trace) := fun e' hl =>
    ⟨hl.proper, hl.active, hl.listed, hl.awaited.append (by simp)⟩
  have hlive := forall_put σ w (w.log (.dispatched e.id w.timers.now)) rfl
    (Q := fun d m tr => ∀ e' ∈ (σ.put w).outstanding, e'.data = d → e'.id ∉ w.timers.invalid →
      c.Live e' m tr)
    (R := fun d m tr => ∀ e' ∈ (σ.put w).outstanding, e'.data = d → e'.id ∉ w.timers.invalid →
      c.Live e' m tr)
    (fun d e' he' hd => by
      subst hd
      exact h.live e' he')
    (fun hq e' he' hd hinv => hmark e' (hq e' he' hd hinv)) fun _ _ _ _ hq => hq
  exact ⟨fun e' he' => hlive e'.data e' he' rfl, h.due,
    forall_traces_put σ w _ rfl h.numbered (fun hn =>
      (hn.append le_rfl (by simp [Obs.scheduledId]) :
        Numbered _ ([.dispatched e.id w.timers.now] ++ w.trace))) fun _ hn => hn,
    forall_traces_put σ w _ rfl (A := fun tr => Numbered w.timers.nextId tr ∧ Prompt tr)
      (fun d => ⟨h.numbered d, h.prompt d⟩)
      (fun hp => hp.2.dispatched hp.1 he.awaited hdue) fun _ hp => hp.2⟩

omit [DecidableEq S] in
/-- The tests of the worker move an entry on, or drop it. -/
lemma Kept.check (h : Kept c σ) : Kept c σ.check := by
  obtain ⟨ht, hs, htr, hsub⟩ := check_frame σ
  refine ⟨fun e he => ?_, fun e he => by rw [ht]; exact h.due e (hsub e he),
    by rw [ht, htr]; exact h.numbered, by rw [htr]; exact h.prompt⟩
  rw [ht, hs, htr]
  exact h.live e (outstanding_check e he)

omit [DecidableEq S] in
/-- An expired entry goes to the pool, or is dropped when it is invalid. -/
lemma Kept.expire (h : Kept c σ) : Kept c σ.expire := by
  obtain ⟨hs, htr, hinv, hid, hnow, -, hsub, hdue⟩ := expire_frame σ
  refine ⟨fun e he => ?_, fun e he => ?_, by rw [hid, htr]; exact h.numbered,
    by rw [htr]; exact h.prompt⟩
  · rw [hinv, hs, htr]
    exact h.live e (hsub e he)
  · rw [hnow]
    exact (hdue e he).elim (h.due e) fun hd => hd

section Steps

variable [Inhabited P]

omit [DecidableEq S] in
/-- The invariant does not depend on the parameters. -/
lemma Kept.argument (h : Kept c σ) (p : Option ℕ) : Kept c (σ.argument p).2 := by
  cases p
  · exact ⟨h.live, h.due, h.numbered, h.prompt⟩
  · exact h

variable (c) in
/-- No metadata is reset while it has entries to come that are valid, and the worker runs its
entries without a break. -/
def Heeds : Op S E → System S T E P → Prop
  | .start d _, σ => σ.Idle d
  | .restoreState _ d _, σ => (σ.stores d).isActive c.root = true ∨ σ.Idle d
  | .check, _ | .deliver, _ => False
  | _, _ => True

variable (c) in
/-- No metadata is reset while it has entries to come that are valid, the worker runs its entries
without a break, and no entry is scheduled whose deadline overflows. -/
def Careful (op : Op S E) (σ σ' : System S T E P) : Prop :=
  Heeds c op σ ∧ ∀ d, Fitting (σ'.traces d)

lemma Kept.start (hc : c.ActionsKeepTimers) {p : Option ℕ} (h : Kept c σ) (hidle : σ.Idle d)
    (hs : Invokes (Statechart.start c) d p σ σ') : Kept c σ' := by
  obtain ⟨q, τ, n, o, w', ha, -, hn, rfl⟩ := hs.cases
  have hτ := h.argument p
  have hi : (σ.argument p).2.Idle d := by cases p <;> exact hidle
  rw [ha, ← put_world τ d q] at hτ hi
  exact (hτ.enter hi).put
    ((compatible_tends hc).dispatch n (Set.mem_univ none) _ _ _ (Statechart.returns_start.mp hn))

lemma Kept.restoreState (hc : c.ActionsKeepTimers) {s : S} {p : ℕ} (h : Kept c σ)
    (hidle : (σ.stores d).isActive c.root = true ∨ σ.Idle d)
    (hs : Invokes (fun n => Statechart.restoreState c n s) d (some p) σ σ') : Kept c σ' := by
  obtain ⟨o, w', ⟨n, hn⟩, rfl⟩ := hs
  change Kept c (σ.put w')
  rcases Statechart.returns_restoreState.mp hn with ⟨-, -, rfl⟩ | ⟨hroot, -, hn⟩
  · rwa [show (σ.argument (some p)).2.world d (σ.argument (some p)).1 = σ.world d p from rfl,
      put_world]
  have hi := hidle.resolve_left (Bool.eq_false_iff.mp hroot)
  rw [← put_world σ d p] at h hi
  exact (h.reset hi).put ((compatible_tends hc).enterPath n _ _ _ _ hn)

lemma Kept.dispatch (hc : c.ActionsKeepTimers) {e : Option E} {p : Option ℕ} (h : Kept c σ)
    (hs : Invokes (fun n => Statechart.dispatch c n e) d p σ σ') : Kept c σ' := by
  obtain ⟨q, τ, n, o, w', ha, -, hn, rfl⟩ := hs.cases
  have hτ := h.argument p
  rw [ha, ← put_world τ d q] at hτ
  exact hτ.put ((compatible_tends hc).dispatch n (Set.mem_univ e) _ _ _ hn)

lemma Kept.deliver (hc : c.ActionsKeepTimers) (h : Kept c σ)
    (hvalid : ∀ e, σ.worker = some e → e.id ∉ σ.timers.invalid) (hd : Deliver c σ σ') :
    Kept c σ' := by
  obtain ⟨e, q, τ, n, o, w', he, ha, ⟨ht, hst, htr, -⟩, hn, rfl⟩ := hd.cases
  have hlive := h.live e (by simp [outstanding, he]) (hvalid e he)
  have hdue := h.due e (by simp [he])
  have hidle : Kept c { σ with worker := none } := by
    refine ⟨fun e he => h.live e ?_, fun e he => h.due e ?_, h.numbered, h.prompt⟩
    · simp only [outstanding, List.mem_append] at he ⊢
      tauto
    · simp only [List.mem_append] at he ⊢
      tauto
  have hτ := hidle.argument e.param
  rw [ha, ← put_world τ e.data q] at hτ
  rw [← ht] at hdue hn
  rw [← hst, ← htr] at hlive
  exact (hτ.dispatched hlive hdue).put
    ((compatible_tends hc).dispatch n (Set.mem_univ e.event) _ _ _ hn)

/-- One careful step keeps the invariant. -/
lemma Kept.step (hc : c.ActionsKeepTimers) (hs : Step c op σ σ') (hok : Heeds c op σ)
    (h : Kept c σ) : Kept c σ' := by
  cases op with
  | start d p => exact h.start hc hok hs
  | restoreState s d p => exact h.restoreState hc hok hs
  | dispatch d e p => exact h.dispatch hc hs
  | tick ns =>
      obtain rfl := hs
      refine ⟨h.live, fun e he => (h.due e he).trans ?_, h.numbered, h.prompt⟩
      simp
  | expire =>
      obtain rfl := hs
      exact h.expire
  | check => exact hok.elim
  | deliver => exact hok.elim
  | work =>
      obtain ⟨hw, ⟨-, rfl⟩ | hd⟩ := hs
      · exact h.check
      · exact h.check.deliver hc (fun e he => by rw [(check_frame σ).1]; exact check_worker hw he)
          hd

/-- **A timer belongs to the activation that scheduled it.** In every run in which no metadata is
reset while it has valid entries to come, and no deadline overflows, an entry is dispatched only
while the activation that scheduled it lasts, and not before its delay has passed. -/
theorem timely_of_careful (hc : c.ActionsKeepTimers) {params : ℕ → P} {nextParam : ℕ}
    (h : Run c (Careful c) (fresh params nextParam) σ) (d : ℕ) : Timely (σ.traces d) := by
  have h₀ : Kept c (fresh params nextParam : System S T E P) := by
    refine ⟨by simp [fresh, outstanding], by simp [fresh], fun d => ?_, fun d => ?_⟩
    · simp [fresh, Numbered]
    · intro post id now mid s now₀ delay old heq
      simp [fresh] at heq
  have hfit : ∀ d, Fitting (σ.traces d) := by
    refine h.induction (fun op σ σ' _ hok _ => hok.2) fun d id s now delay hm => ?_
    simp [fresh] at hm
  exact ((h.induction (fun op σ σ' hs hok hk => hk.step hc hs hok.1) h₀).prompt d).timely (hfit d)

end Steps

end System

/-! ### A restart while a timer is running -/

omit [DecidableEq S] in
/-- A reset between the scheduling of an entry and its dispatch. -/
lemma not_timely_of_reset {tr : List (Obs S T)} (i j : ℕ) {id : ℕ} {s : S} {now now₀ delay : ℤ}
    (hi : tr[i]? = some (.dispatched id now))
    (hj : (tr.drop (i + 1))[j]? = some (.scheduled id s now₀ delay))
    (hr : ((tr.drop (i + 1)).take j).any (· matches .reset) = true) : ¬ Timely tr := by
  intro h
  obtain ⟨o, ho, hreset⟩ := List.any_eq_true.mp hr
  have h₁ := List.getElem?_eq_some_iff.mp hi
  have h₂ := List.getElem?_eq_some_iff.mp hj
  obtain ⟨hlt, h₁⟩ := h₁
  obtain ⟨hlt', h₂⟩ := h₂
  have heq : tr = tr.take i ++ .dispatched id now :: ((tr.drop (i + 1)).take j
      ++ .scheduled id s now₀ delay :: (tr.drop (i + 1)).drop (j + 1)) := by
    rw [← h₂, ← List.drop_eq_getElem_cons, List.take_append_drop, ← h₁,
      ← List.drop_eq_getElem_cons, List.take_append_drop]
  refine ((h _ _ _ _ _ _ _ _ heq).1 o ho).2.2 ?_
  cases o <;> first | rfl | cases hreset

namespace Restart

inductive St where
  | chart | s | a | b
  deriving DecidableEq

instance : Fintype St := ⟨{.chart, .s, .a, .b}, fun x => by cases x <;> decide⟩

inductive Tr where
  | begin | late
  deriving DecidableEq

instance : Fintype Tr := ⟨{.begin, .late}, fun t => by cases t <;> decide⟩

/-- The state `a` is left for `b` after 100 milliseconds. -/
def chart : Chart St Tr Event Unit where
  name := "restart"
  root := .chart
  ownedStates := [.s, .a, .b]
  ownedTransitions := [.begin, .late]
  kind
    | .chart => .statechart
    | .s => .pseudoState .start
    | _ => .state
  context
    | .chart => none
    | _ => some .chart
  depth
    | .chart => 0
    | _ => 1
  source
    | .begin => .s
    | .late => .a
  target
    | .begin => .a
    | .late => .b
  event
    | .begin => none
    | .late => some (.timeoutEvent 0 1 100)
  equals ev e _ _ := ev.equals e
  timeout := Event.timeout

lemma actionsKeepTimers : chart.ActionsKeepTimers :=
  ⟨fun h => by simp [chart] at h, fun h => by simp [chart] at h, fun h => by simp [chart] at h,
    fun h => by simp [chart] at h⟩

/-- A new system, whose clients have one parameter. -/
abbrev initial : System St Tr Event Unit := System.fresh (fun _ => ()) 1

set_option maxRecDepth 4000 in
/-- **A timer of the activation before.** The metadata is started a second time after 50
milliseconds, and the timer of the first activation fires 50 milliseconds after that. -/
theorem not_timely : ∃ σ, System.Run chart
    (fun op _ _ => op matches .start .. | .tick _ | .expire | .work) initial σ
      ∧ ¬ Timely (σ.traces 0) := by
  refine ⟨_, .execAll (.refl _) ?_ (rfl : System.execAll chart 4 [.start 0 (some 0), .tick 50000000,
    .start 0 (some 0), .tick 50000000, .expire, .work] initial = some _), ?_⟩
  · simp
  · exact not_timely_of_reset 5 9 rfl rfl rfl

set_option maxRecDepth 4000 in
/-- Started once, the chart leaves `a` in time. -/
theorem timely_once : ∃ σ, System.Run chart (System.Careful chart) initial σ
    ∧ (σ.stores 0).isActive .b = true ∧ Timely (σ.traces 0) := by
  have hstep : ∀ {σ σ'} (op), System.Run chart (System.Careful chart) initial σ
      ∧ (∀ d ≠ 0, σ.traces d = []) → System.exec chart 4 σ op = some σ' →
      System.Heeds chart op σ → (σ'.traces 0).all Obs.fits = true →
      (∀ d ≠ 0, σ'.traces d = σ.traces d) →
      System.Run chart (System.Careful chart) initial σ' ∧ ∀ d ≠ 0, σ'.traces d = [] := by
    intro σ σ' op ⟨hr, hd⟩ he hok hfits hd'
    refine ⟨.step op hr (System.step_of_exec he) ⟨hok, fun d => ?_⟩,
      fun d h => (hd' d h).trans (hd d h)⟩
    by_cases h : d = 0
    · exact h ▸ fitting_of_all hfits
    · rw [hd' d h, hd d h]
      exact fun _ _ _ _ hm => nomatch hm
  have h := hstep (.start 0 (some 0)) ⟨.refl initial, fun _ _ => rfl⟩ rfl
    (fun _ he => nomatch he) rfl fun d hd => Function.update_of_ne hd _ _
  have h := hstep (.tick 100000000) h rfl trivial rfl fun _ _ => rfl
  have h := hstep .expire h rfl trivial rfl fun _ _ => rfl
  have h := hstep .work h rfl trivial rfl fun d hd => Function.update_of_ne hd _ _
  exact ⟨_, h.1, rfl, System.timely_of_careful actionsKeepTimers h.1 0⟩

end Restart

end CppStatecharts
