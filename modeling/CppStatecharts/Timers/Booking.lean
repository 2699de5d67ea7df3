import CppStatecharts.Semantics.Trace
import CppStatecharts.Timers.Frame

/-!
The three places where a timer is noted down: the runtime data of its state, the list of pending
entries and the timeout queue.

* `Timers.Coherent`: the queue is part of the pending list, numbers are unique, and what is pending
  is valid; cancelling some entries removes just them (`Timers.Coherent.drops`).
* `World.Booked`: each active state lists one valid pending entry for each of its timeouts, and
  nothing else is pending; every method keeps this (`compatible_deals`).
* `System.Filed`: the invariant of the system, which adds where the pending entries are.
* `System.booked_of_startsOnce`: every run in which no metadata is started a second time keeps the
  three places in step.
* `Forgetful.not_booked`: an action that clears the list of its state.
-/

namespace CppStatecharts

variable {S T E P : Type}

/-! ### The containers -/

namespace Timers

/-- The queue holds pending entries, which have different numbers and are valid. -/
structure Coherent (tm : Timers S E) : Prop where
  pending_nodup : (tm.pendingEntries.map (·.id)).Nodup
  queue_nodup : (tm.timeoutQueue.items.map (·.id)).Nodup
  used : ∀ e ∈ tm.pendingEntries, e.id < tm.nextId
  queued : ∀ e ∈ tm.timeoutQueue.items, e ∈ tm.pendingEntries
  valid : ∀ e ∈ tm.pendingEntries, e.id ∉ tm.invalid
  invalid_used : ∀ id ∈ tm.invalid, id < tm.nextId

/-- Just the entries with numbers among `ids` are cancelled. -/
structure Drops (ids : List ℕ) (tm tm' : Timers S E) : Prop where
  pending : tm'.pendingEntries = tm.pendingEntries.filter fun e => decide (e.id ∉ ids)
  items : tm'.timeoutQueue.items = tm.timeoutQueue.items.filter fun e => decide (e.id ∉ ids)
  nextId : tm'.nextId = tm.nextId
  running : tm'.running = tm.running
  invalid : ∀ id, id ∈ tm'.invalid ↔ id ∈ ids ∨ id ∈ tm.invalid

lemma eraseP_eq_filter {l : List (EventQueueEntry S E)} (h : (l.map (·.id)).Nodup) (id : ℕ) :
    l.eraseP (·.id == id) = l.filter fun e => decide (e.id ∉ [id]) := by
  induction l with
  | nil => rfl
  | cons e l ih =>
      obtain ⟨hnew, hnd⟩ := List.nodup_cons.mp h
      by_cases he : e.id = id
      · have hl : ∀ x ∈ l, decide (x.id ∉ [id]) = true := by
          intro x hx
          have : x.id ≠ id := fun hxe => hnew (List.mem_map.mpr ⟨x, hx, hxe.trans he.symm⟩)
          simp [this]
        rw [List.eraseP_cons_of_pos (by simp [he]), List.filter_cons_of_neg (by simp [he]),
          List.filter_eq_self.mpr hl]
      · have he' : (e.id == id) = false := by simpa using he
        rw [List.eraseP_cons_of_neg (by simp [he']), ih hnd, List.filter_cons_of_pos (by simp [he])]

variable {tm tm' tm'' : Timers S E} {ids ids' : List ℕ}

/-- An entry is cancelled, whether or not it was marked before. -/
lemma Coherent.drops_one (h : tm.Coherent) (id : ℕ) (htm : tm' = tm ∨ tm' = tm.markInvalid id) :
    Drops [id] tm (tm'.cancelTimeout id) := by
  have hinv : ∀ i, i ∈ id :: tm'.invalid ↔ i ∈ [id] ∨ i ∈ tm.invalid := by
    rcases htm with rfl | rfl <;> simp [markInvalid]
  have hp : tm'.pendingEntries = tm.pendingEntries := by rcases htm with rfl | rfl <;> rfl
  have hq : tm'.timeoutQueue = tm.timeoutQueue := by rcases htm with rfl | rfl <;> rfl
  have hn : tm'.nextId = tm.nextId := by rcases htm with rfl | rfl <;> rfl
  have hr : tm'.running = tm.running := by rcases htm with rfl | rfl <;> rfl
  by_cases hany : tm.pendingEntries.any (·.id == id) = true
  · simp only [cancelTimeout, markInvalid, hp, hq, hany, ↓reduceIte]
    exact ⟨eraseP_eq_filter h.pending_nodup id, eraseP_eq_filter h.queue_nodup id, hn, hr, hinv⟩
  · simp only [cancelTimeout, markInvalid, hp, hany]
    have hnot : ∀ e ∈ tm.pendingEntries, decide (e.id ∉ [id]) = true := by
      intro e he
      have : e.id ≠ id := fun heq => hany (List.any_eq_true.mpr ⟨e, he, by simp [heq]⟩)
      simp [this]
    exact ⟨(List.filter_eq_self.mpr hnot).symm,
      hq ▸ (List.filter_eq_self.mpr fun e he => hnot e (h.queued e he)).symm, hn, hr, hinv⟩

lemma Coherent.of_drops (h : tm.Coherent) (hd : Drops ids tm tm')
    (hids : ∀ id ∈ ids, id < tm.nextId) :
    tm'.Coherent where
  pending_nodup := by
    rw [hd.pending]
    exact h.pending_nodup.sublist (List.filter_sublist.map _)
  queue_nodup := by
    rw [hd.items]
    exact h.queue_nodup.sublist (List.filter_sublist.map _)
  used e he := by
    rw [hd.pending] at he
    rw [hd.nextId]
    exact h.used e (List.mem_filter.mp he).1
  queued e he := by
    rw [hd.items] at he
    rw [hd.pending]
    obtain ⟨he, hid⟩ := List.mem_filter.mp he
    exact List.mem_filter.mpr ⟨h.queued e he, hid⟩
  valid e he := by
    rw [hd.pending] at he
    obtain ⟨he, hid⟩ := List.mem_filter.mp he
    rw [hd.invalid, not_or]
    exact ⟨by simpa using hid, h.valid e he⟩
  invalid_used id hid := by
    rw [hd.nextId]
    exact ((hd.invalid id).mp hid).elim (hids id) (h.invalid_used id)

lemma Drops.trans (h : Drops ids tm tm') (h' : Drops ids' tm' tm'') :
    Drops (ids ++ ids') tm tm'' where
  pending := by
    rw [h'.pending, h.pending, List.filter_filter]
    refine List.filter_congr fun e _ => ?_
    simp [Bool.and_comm]
  items := by
    rw [h'.items, h.items, List.filter_filter]
    refine List.filter_congr fun e _ => ?_
    simp [Bool.and_comm]
  nextId := h'.nextId.trans h.nextId
  running := h'.running.trans h.running
  invalid id := by
    rw [h'.invalid, h.invalid, List.mem_append]
    tauto

/-- The loop of `State::deactivate` cancels just the entries it goes through. -/
lemma Coherent.drops (h : tm.Coherent) {w : World S T E P} (hw : w.timers = tm)
    (hids : ∀ id ∈ ids, id < tm.nextId) : Drops ids tm (ids.foldl Chart.cancelEntry w).timers := by
  induction ids generalizing tm w with
  | nil => subst hw; exact ⟨by simp, by simp, rfl, rfl, by simp⟩
  | cons id ids ih =>
      subst hw
      have h₁ := h.drops_one id (Or.inr rfl)
      have hc := h.of_drops h₁ (by simpa using hids id List.mem_cons_self)
      exact h₁.trans (ih hc (w := Chart.cancelEntry w id) rfl fun i hi =>
        h₁.nextId ▸ hids i (List.mem_cons_of_mem _ hi))

/-- A new entry is added to the list. -/
lemma Coherent.keep (h : tm.Coherent) {e : EventQueueEntry S E} (he : e.id = tm.nextId) :
    Coherent { tm with
      pendingEntries := tm.pendingEntries ++ [e]
      nextId := tm.nextId + 1 } where
  pending_nodup := by
    rw [List.map_append, List.nodup_append]
    refine ⟨h.pending_nodup, by simp, fun i hi j hj => ?_⟩
    obtain ⟨e', he', rfl⟩ := List.mem_map.mp hi
    rw [List.map_singleton, List.mem_singleton] at hj
    exact ((h.used e' he').trans_eq (he.symm.trans hj.symm)).ne
  queue_nodup := h.queue_nodup
  used e' he' := by
    rcases List.mem_append.mp he' with he' | he'
    · exact (h.used e' he').trans (Nat.lt_succ_self _)
    · rw [List.mem_singleton.mp he', he]
      exact Nat.lt_succ_self _
  queued e' he' := List.mem_append_left _ (h.queued e' he')
  valid e' he' := by
    rcases List.mem_append.mp he' with he' | he'
    · exact h.valid e' he'
    · rw [List.mem_singleton.mp he', he]
      exact fun hi => absurd (h.invalid_used _ hi) (lt_irrefl _)
  invalid_used id hid := (h.invalid_used id hid).trans (Nat.lt_succ_self _)

/-- A new entry is added to the list and to the queue. -/
lemma Coherent.add (h : tm.Coherent) {e : EventQueueEntry S E} (he : e.id = tm.nextId) :
    Coherent { tm with
      pendingEntries := tm.pendingEntries ++ [e]
      timeoutQueue := tm.timeoutQueue.add (·.deadline) e
      nextId := tm.nextId + 1 } :=
  { h.keep he with
    queue_nodup := by
      rw [((DelayQueue.perm_add _ e).map _).nodup_iff, List.map_cons, List.nodup_cons]
      refine ⟨fun hmem => ?_, h.queue_nodup⟩
      obtain ⟨e', he', heq⟩ := List.mem_map.mp hmem
      exact absurd (h.used e' (h.queued e' he')) (by omega)
    queued := fun e' he' => by
      rcases DelayQueue.mem_add.mp he' with rfl | he'
      · simp
      · exact List.mem_append_left _ (h.queued e' he') }

end Timers

/-! ### What is noted down for an active state -/

/-- The numbers of the entries scheduled for `s` since it was activated last, the latest first. -/
def scheduledSince [DecidableEq S] (s : S) : List (Obs S T) → List ℕ
  | [] => []
  | .activated x :: tr => if x = s then [] else scheduledSince s tr
  | .scheduled id x _ _ :: tr => if x = s then id :: scheduledSince s tr else scheduledSince s tr
  | _ :: tr => scheduledSince s tr

variable [DecidableEq S] (c : Chart S T E P)

/-- The transition is triggered by a timeout. -/
def Chart.isTimer (t : T) : Bool := ((c.event t).bind c.timeout).isSome

/-- The transitions of `s` that are triggered by a timeout. -/
def Chart.timers (s : S) : List T := (c.transitions s).filter c.isTimer

/-- The entry carries the event and the delay of the transition. -/
def EventQueueEntry.For (e : EventQueueEntry S E) (t : T) : Prop :=
  e.event = c.event t ∧ (c.event t).bind c.timeout = some e.relativeTimeoutMs

namespace World

/-- The pending entry with the number `id` belongs to this metadata, to the state `s` and to its
transition `t`. -/
def Pends (w : World S T E P) (s : S) (t : T) (id : ℕ) : Prop :=
  ∃ e ∈ w.timers.pendingEntries, e.id = id ∧ e.data = w.dataId ∧ e.state = s ∧ e.For c t

/-- Just the entries an active state lists are pending, one for each transition among `due`. -/
structure Booked (due : S → List T) (w : World S T E P) : Prop where
  coherent : w.timers.Coherent
  running : w.timers.running = true
  own : ∀ e ∈ w.timers.pendingEntries, e.data = w.dataId → (c.kind e.state).isPseudo = false
    ∧ w.data.isActive e.state = true ∧ e.id ∈ w.data.timeouts e.state
  listed : ∀ s, ∀ id ∈ w.data.timeouts s, ∃ e ∈ w.timers.pendingEntries,
    e.id = id ∧ e.data = w.dataId ∧ e.state = s
  nodup : ∀ s, (w.data.timeouts s).Nodup
  complete : ∀ s, (c.kind s).isPseudo = false → s ≠ c.root → w.data.isActive s = true →
    List.Forall₂ (w.Pends c s) (due s) (w.data.timeouts s)
      ∧ scheduledSince s w.trace = (w.data.timeouts s).reverse

/-- The second world is booked, has the entries of the first for other metadata, and has taken
nothing from the queue that stays pending. -/
structure Deals (due due' : S → List T) (w w' : World S T E P) : Prop where
  dataId : w'.dataId = w.dataId
  booked : w'.Booked c due'
  others : ∀ e, e.data ≠ w.dataId →
    (e ∈ w'.timers.pendingEntries ↔ e ∈ w.timers.pendingEntries)
  queued : ∀ e ∈ w'.timers.pendingEntries, e ∈ w'.timers.timeoutQueue.items
    ∨ e ∈ w.timers.pendingEntries ∧ e ∉ w.timers.timeoutQueue.items
  grows : w.Extends w'

variable {c} {w w₁ w' : World S T E P} {due due₁ due' : S → List T} {s x : S} {id : ℕ}

lemma Deals.trans (h : w.Deals c due due₁ w₁) (h' : w₁.Deals c due₁ due' w') :
    w.Deals c due due' w' where
  dataId := h'.dataId.trans h.dataId
  booked := h'.booked
  others e he := (h'.others e (h.dataId.symm ▸ he)).trans (h.others e he)
  queued e he := by
    rcases h'.queued e he with hq | ⟨hp, hq⟩
    · exact Or.inl hq
    · exact (h.queued e hp).imp (absurd · hq) fun h => h
  grows := h.grows.trans h'.grows

/-- A number is listed by one state. -/
lemma Booked.eq_of_listed (h : w.Booked c due) (hs : id ∈ w.data.timeouts s)
    (hx : id ∈ w.data.timeouts x) : s = x := by
  obtain ⟨e, he, hid, -, rfl⟩ := h.listed s id hs
  obtain ⟨e', he', hid', -, rfl⟩ := h.listed x id hx
  rw [List.inj_on_of_nodup_map h.coherent.pending_nodup he he' (hid.trans hid'.symm)]

lemma Booked.used (h : w.Booked c due) (hs : id ∈ w.data.timeouts s) : id < w.timers.nextId := by
  obtain ⟨e, he, rfl, -⟩ := h.listed s id hs
  exact h.coherent.used e he

/-- An inactive state lists nothing. -/
lemma Booked.timeouts_eq_nil (h : w.Booked c due)
    (hs : w.data.isActive s = false ∨ (c.kind s).isPseudo = true) : w.data.timeouts s = [] := by
  refine List.eq_nil_iff_forall_not_mem.mpr fun id hid => ?_
  obtain ⟨e, he, -, hd, rfl⟩ := h.listed s id hid
  obtain ⟨hp, ha, -⟩ := h.own e he hd
  rcases hs with hs | hs
  · simp [ha] at hs
  · simp [hp] at hs

end World

namespace World

variable {c} {w w' : World S T E P} {due : S → List T}

/-- Neither the parameter nor the entries for other metadata matter. -/
lemma Booked.frame (h : w.Booked c due) (hdata : w'.data = w.data)
    (htr : ∀ s, scheduledSince s w'.trace = scheduledSince s w.trace)
    (hid : w'.dataId = w.dataId) (hcoh : w'.timers.Coherent) (hrun : w'.timers.running = true)
    (hmem : ∀ e, e.data = w.dataId →
      (e ∈ w'.timers.pendingEntries ↔ e ∈ w.timers.pendingEntries)) : w'.Booked c due where
  coherent := hcoh
  running := hrun
  own e he hd := by
    rw [hdata]
    exact h.own e ((hmem e (hd.trans hid)).mp he) (hd.trans hid)
  listed s id hs := by
    rw [hdata] at hs
    obtain ⟨e, he, hrest⟩ := h.listed s id hs
    exact ⟨e, (hmem e hrest.2.1).mpr he, hid ▸ hrest⟩
  nodup s := hdata ▸ h.nodup s
  complete s hs hroot ha := by
    rw [hdata] at ha
    obtain ⟨hall, hsince⟩ := h.complete s hs hroot ha
    rw [hdata, htr]
    refine ⟨hall.imp fun t id => ?_, hsince⟩
    rintro ⟨e, he, hrest⟩
    exact ⟨e, (hmem e hrest.2.1).mpr he, hid ▸ hrest⟩

lemma Booked.congr (h : w.Booked c due) (hdata : w'.data = w.data) (ht : w'.timers = w.timers)
    (htr : ∀ s, scheduledSince s w'.trace = scheduledSince s w.trace)
    (hid : w'.dataId = w.dataId) : w'.Booked c due :=
  h.frame hdata htr hid (ht ▸ h.coherent) (ht ▸ h.running) fun e _ => by rw [ht]

/-- What is due to the chart itself does not matter. -/
lemma Deals.congr {due' due'' : S → List T} (h : w.Deals c due due' w')
    (hdue : ∀ s, s ≠ c.root → due' s = due'' s) : w.Deals c due due'' w' :=
  { h with booked := { h.booked with
      complete := fun s hs hroot ha => hdue s hroot ▸ h.booked.complete s hs hroot ha } }

end World

lemma scheduledSince_append {s : S} {l tr : List (Obs S T)}
    (hl : ∀ o ∈ l, o ≠ .activated s ∧ ∀ id now delay, o ≠ .scheduled id s now delay) :
    scheduledSince s (l ++ tr) = scheduledSince s tr := by
  induction l with
  | nil => rfl
  | cons o l ih =>
      have ih := ih fun o ho => hl o (List.mem_cons_of_mem _ ho)
      obtain ⟨ha, hs⟩ := hl o List.mem_cons_self
      cases o with
      | activated x =>
          have hx : x ≠ s := fun h => ha (h ▸ rfl)
          simp [scheduledSince, hx, ih]
      | scheduled id x now delay =>
          have hx : x ≠ s := fun h => hs id now delay (h ▸ rfl)
          simp [scheduledSince, hx, ih]
      | _ => simpa [scheduledSince] using ih

/-! ### The elementary changes -/

/-- The change is quiet and begins the activation of no proper state. -/
structure World.Still (w w' : World S T E P) : Prop extends World.Quiet c w w' where
  proper : ∀ x, (c.kind x).isPseudo = false → w'.data.isActive x = w.data.isActive x

section Deals

variable {c} {w w' : World S T E P} {due : S → List T} {s : S}

lemma deals_still (h : w.Booked c due) (hs : w.Still c w') : w.Deals c due due w' := by
  obtain ⟨l, hl, hq⟩ := hs.trace
  have ht := hs.timers
  refine ⟨hs.dataId, ⟨ht ▸ h.coherent, ht ▸ h.running, fun e he hd => ?_, fun x id hid => ?_,
    fun x => hs.timeouts x ▸ h.nodup x, fun x hx hroot hact => ?_⟩, fun e _ => by rw [ht],
    fun e he => ?_, l, hl, by simp⟩
  · obtain ⟨hp, ha, hm⟩ := h.own e (ht ▸ he) (hd.trans hs.dataId)
    exact ⟨hp, (hs.proper _ hp).trans ha, hs.timeouts _ ▸ hm⟩
  · rw [hs.timeouts] at hid
    rw [ht, hs.dataId]
    exact h.listed x id hid
  · rw [hs.proper x hx] at hact
    obtain ⟨hall, hsince⟩ := h.complete x hx hroot hact
    rw [hs.timeouts, hl, scheduledSince_append fun o ho => ?_]
    · refine ⟨hall.imp fun t id => ?_, hsince⟩
      rintro ⟨e, he, hid, hd, hrest⟩
      exact ⟨e, ht ▸ he, hid, hd.trans hs.dataId.symm, hrest⟩
    · refine ⟨?_, fun id now delay => ?_⟩
      · rintro rfl
        rcases (hq _ ho).2 x rfl with hp | ha
        · simp [hx] at hp
        · simp [hact] at ha
      · rintro rfl
        exact absurd (hq _ ho).1 (by simp [Obs.quiet])
  · rw [ht] at he ⊢
    exact (em _).imp id fun hq => ⟨he, hq⟩

/-- A proper state becomes active; nothing is noted down for it yet. -/
lemma deals_activateData (h : w.Booked c due) (hi : w.data.isActive s = false) :
    w.Deals c due (Function.update due s []) (c.activateData s w) := by
  have hnil := h.timeouts_eq_nil (Or.inl hi)
  refine ⟨rfl, ⟨h.coherent, h.running, fun e he hd => ?_, fun x id hid => ?_, fun x => ?_,
    fun x hx hroot hact => ?_⟩, fun e _ => Iff.rfl, fun e he => ?_, [.activated s], rfl, by simp⟩
  · obtain ⟨hp, ha, hm⟩ := h.own e he hd
    exact ⟨hp, by simp [ha], by simpa using hm⟩
  · exact h.listed x id (by simpa using hid)
  · simpa using h.nodup x
  · by_cases hxs : x = s
    · subst hxs
      simp [hnil, Chart.activateData, scheduledSince, World.log]
    · rw [data_activateData, Metadata.isActive_activate] at hact
      obtain ⟨hall, hsince⟩ := h.complete x hx hroot (by simpa [hxs] using hact)
      rw [data_activateData, Metadata.timeouts_activate, Function.update_of_ne hxs]
      refine ⟨hall, Eq.trans ?_ hsince⟩
      exact scheduledSince_append (l := [.activated s]) (by simp [Ne.symm hxs])
  · exact (em _).imp id fun hq => ⟨he, hq⟩

/-- A round of the loop of `State::activate` notes down one entry more. -/
lemma deals_scheduleTimeout (h : w.Booked c due) (hs : (c.kind s).isPseudo = false)
    (ha : w.data.isActive s = true) (t : T) :
    w.Deals c due (Function.update due s (due s ++ if c.isTimer t then [t] else []))
      (c.scheduleTimeout s w t) := by
  rcases hev : (c.event t).bind fun ev => (c.timeout ev).map fun ms => (ev, ms) with _ | ⟨ev, ms⟩
  · have ht : c.isTimer t = false := by
      cases he : c.event t <;> simp_all [Chart.isTimer]
    have hw : c.scheduleTimeout s w t = w := by simp [Chart.scheduleTimeout, hev]
    rw [hw, ht]
    simpa using deals_still h ⟨World.Quiet.refl w, fun _ _ => rfl⟩
  obtain ⟨ev', he, hms⟩ := Option.bind_eq_some_iff.mp hev
  obtain ⟨ms', hms, heq⟩ := Option.map_eq_some_iff.mp hms
  cases heq
  have ht : c.isTimer t = true := by simp [Chart.isTimer, he, hms]
  obtain ⟨d, hd, -⟩ := Metadata.exists_of_isActive ha
  have htimeouts : ∀ x, (c.scheduleTimeout s w t).data.timeouts x
      = if x = s then w.data.timeouts s ++ [w.timers.nextId] else w.data.timeouts x := by
    intro x
    simp only [Chart.scheduleTimeout, hev, h.running, ↓reduceIte, Metadata.timeouts_modify, hd]
    simp [Metadata.timeouts, hd]
  have hagree := agree_scheduleTimeout c w s t
  set entry := w.timers.newEntry s w.dataId ev w.paramId ms with hentry
  have hw : (c.scheduleTimeout s w t).timers = { w.timers with
      pendingEntries := w.timers.pendingEntries ++ [entry]
      timeoutQueue := w.timers.timeoutQueue.add (·.deadline) entry
      nextId := w.timers.nextId + 1 }
      ∧ (c.scheduleTimeout s w t).trace = [.scheduled entry.id s w.timers.now ms] ++ w.trace
      ∧ (c.scheduleTimeout s w t).dataId = w.dataId := by
    simp [Chart.scheduleTimeout, hev, h.running, Timers.enqueueTimeout, hentry, Timers.newEntry]
  obtain ⟨htm, htr, hid⟩ := hw
  generalize c.scheduleTimeout s w t = w' at htm htr hid htimeouts hagree ⊢
  have hfor : entry.For c t := ⟨he.symm, by simp [he, hms, hentry, Timers.newEntry]⟩
  have hmem : ∀ e, e ∈ w'.timers.pendingEntries ↔ e ∈ w.timers.pendingEntries ∨ e = entry := by
    simp [htm]
  refine ⟨hid, ⟨?_, ?_, fun e he hd => ?_, fun x id hx => ?_, fun x => ?_,
    fun x hx hroot hact => ?_⟩, fun e hd => ?_, fun e he => ?_, _, htr, by simp⟩
  · rw [htm]
    exact h.coherent.add rfl
  · rw [htm]
    exact h.running
  · rw [htimeouts]
    rcases (hmem e).mp he with he | rfl
    · obtain ⟨hp, hact, hl⟩ := h.own e he (hd.trans hid)
      refine ⟨hp, hagree.isActive.trans hact, ?_⟩
      split
      · rename_i hes
        exact List.mem_append_left _ (hes ▸ hl)
      · exact hl
    · exact ⟨hs, hagree.isActive.trans ha, by simp [hentry, Timers.newEntry]⟩
  · rw [htimeouts] at hx
    have hold : id ∈ w.data.timeouts x → ∃ e ∈ w'.timers.pendingEntries,
        e.id = id ∧ e.data = w'.dataId ∧ e.state = x := by
      intro hx
      obtain ⟨e, he, hrest⟩ := h.listed x id hx
      exact ⟨e, (hmem e).mpr (Or.inl he), hid ▸ hrest⟩
    split at hx
    · rename_i hxs
      subst hxs
      rcases List.mem_append.mp hx with hx | hx
      · exact hold hx
      · exact ⟨entry, (hmem _).mpr (Or.inr rfl), (List.mem_singleton.mp hx).symm, hid.symm, rfl⟩
    · exact hold hx
  · rw [htimeouts]
    split
    · refine List.nodup_append.mpr ⟨h.nodup s, by simp, fun i hi j hj => ?_⟩
      rw [List.mem_singleton.mp hj]
      exact (h.used hi).ne
    · exact h.nodup x
  · obtain ⟨hall, hsince⟩ := h.complete x hx hroot (hagree.isActive.symm.trans hact)
    have hall' : List.Forall₂ (w'.Pends c x) (due x) (w.data.timeouts x) := by
      refine hall.imp fun u id => ?_
      rintro ⟨e, he, hrest⟩
      exact ⟨e, (hmem e).mpr (Or.inl he), hid ▸ hrest⟩
    rw [htimeouts, htr]
    by_cases hxs : x = s
    · subst hxs
      refine ⟨?_, by simp [scheduledSince, hsince, hentry, Timers.newEntry]⟩
      simp only [Function.update_self, ht, ↓reduceIte]
      refine List.rel_append hall'
        (.cons ⟨entry, (hmem _).mpr (Or.inr rfl), rfl, ?_, rfl, hfor⟩ .nil)
      exact hid.symm
    · rw [Function.update_of_ne hxs, if_neg hxs]
      refine ⟨hall', Eq.trans ?_ hsince⟩
      exact scheduledSince_append (by simp [Ne.symm hxs])
  · rw [hmem]
    exact or_iff_left fun h => hd (h ▸ rfl)
  · rw [htm]
    rcases (hmem e).mp he with he | rfl
    · by_cases hq : e ∈ w.timers.timeoutQueue.items
      · exact Or.inl (DelayQueue.mem_add.mpr (Or.inr hq))
      · exact Or.inr ⟨he, hq⟩
    · exact Or.inl (DelayQueue.mem_add.mpr (Or.inl rfl))

/-- An activation notes down one entry for each timeout of its state. -/
lemma deals_arrive (h : w.Booked c c.timers) (hs : (c.kind s).isPseudo = false)
    (hi : w.data.isActive s = false) : w.Deals c c.timers c.timers (c.arrive s w) := by
  have h₁ := deals_activateData h hi
  -- along the loop over the transitions, the timeouts of those passed are noted down
  have key : ∀ (l pre : List T) (w : World S T E P), w.data.isActive s = true →
      w.Booked c (Function.update c.timers s (pre.filter c.isTimer)) →
      w.Deals c (Function.update c.timers s (pre.filter c.isTimer))
        (Function.update c.timers s ((pre ++ l).filter c.isTimer))
        (l.foldl (c.scheduleTimeout s) w) := by
    intro l
    induction l with
    | nil =>
        intro pre w _ hw
        rw [List.append_nil]
        exact deals_still hw ⟨World.Quiet.refl w, fun _ _ => rfl⟩
    | cons t l ih =>
        intro pre w ha hw
        have ht := deals_scheduleTimeout hw hs ha t
        have hpre : (pre.filter c.isTimer ++ if c.isTimer t then [t] else [])
            = (pre ++ [t]).filter c.isTimer := by
          cases ht : c.isTimer t <;> simp [ht]
        rw [Function.update_self, Function.update_idem, hpre] at ht
        have hrest := ih (pre ++ [t]) _ ((agree_scheduleTimeout c w s t).isActive.trans ha)
          ht.booked
        rw [List.append_assoc, List.singleton_append] at hrest
        exact ht.trans hrest
  have h₂ := key (c.transitions s) [] (c.activateData s w) (by simp) h₁.booked
  have hself : Function.update c.timers s (([] ++ c.transitions s).filter c.isTimer) = c.timers :=
    Function.update_eq_self s c.timers
  rw [hself] at h₂
  exact h₁.trans h₂

/-- Leaving a state cancels just what is noted down for it. -/
lemma deals_leave (h : w.Booked c due) (s : S) : w.Deals c due due (c.leave s w) := by
  have hids : ∀ id ∈ w.data.timeouts s, id < w.timers.nextId := fun _ => h.used
  have hd : Timers.Drops (w.data.timeouts s) w.timers (c.leave s w).timers :=
    (timers_leave (c := c)).1 ▸ h.coherent.drops rfl hids
  have hid : (c.leave s w).dataId = w.dataId :=
    (timers_leave (c := c)).2.trans (cancels_cancelTimeouts s w).dataId
  obtain ⟨l, hl, hmarks, -⟩ := trace_leave (c := c) (w := w) (s := s)
  have hmem : ∀ e, e ∈ (c.leave s w).timers.pendingEntries
      ↔ e ∈ w.timers.pendingEntries ∧ e.id ∉ w.data.timeouts s := by
    simp [hd.pending]
  have htimeouts : ∀ x, x ≠ s → (c.leave s w).data.timeouts x = w.data.timeouts x := by
    intro x hx
    rw [timeouts_leave, if_neg fun h => hx h.1]
  have hnil : (c.leave s w).data.timeouts s = [] := by
    rw [timeouts_leave]
    split
    · rfl
    · refine h.timeouts_eq_nil (Or.inr ?_)
      cases hk : (c.kind s).isPseudo
      · simp_all [StateKind.isHistory_eq_false_of_isPseudo hk]
      · rfl
  have hkept : ∀ {x id}, x ≠ s → id ∈ w.data.timeouts x → id ∉ w.data.timeouts s :=
    fun hx hm hm' => hx (h.eq_of_listed hm hm')
  refine ⟨hid, ⟨h.coherent.of_drops hd hids, hd.running ▸ h.running, fun e he hdata => ?_,
    fun x id hx => ?_, fun x => ?_, fun x hx hroot hact => ?_⟩, fun e hdata => ?_, fun e he => ?_,
    l, hl, by simp⟩
  · obtain ⟨he, hnot⟩ := (hmem e).mp he
    obtain ⟨hp, ha, hm⟩ := h.own e he (hdata.trans hid)
    have hes : e.state ≠ s := fun heq => hnot (heq ▸ hm)
    exact ⟨hp, by simp [hes, ha], by rwa [htimeouts _ hes]⟩
  · have hxs : x ≠ s := by
      rintro rfl
      simp [hnil] at hx
    rw [htimeouts x hxs] at hx
    obtain ⟨e, he, rfl, hrest⟩ := h.listed x id hx
    exact ⟨e, (hmem e).mpr ⟨he, hkept hxs hx⟩, rfl, hid ▸ hrest⟩
  · by_cases hxs : x = s
    · rw [hxs, hnil]
      exact List.nodup_nil
    · rw [htimeouts x hxs]
      exact h.nodup x
  · rw [isActive_leave, Bool.and_eq_true, Bool.not_eq_true', decide_eq_false_iff_not] at hact
    obtain ⟨hxs, hact⟩ := hact
    obtain ⟨hall, hsince⟩ := h.complete x hx hroot hact
    rw [htimeouts x hxs, hl, scheduledSince_append fun o ho => ?_]
    · refine ⟨hall.imp fun t id => ?_, hsince⟩
      rintro ⟨e, he, rfl, hdata, rfl, hfor⟩
      have hm := (h.own e he hdata).2.2
      exact ⟨e, (hmem e).mpr ⟨he, hkept hxs hm⟩, rfl, hdata.trans hid.symm, rfl, hfor⟩
    · rcases hmarks o ho with rfl | ⟨id, -, rfl⟩ <;> simp
  · rw [hmem]
    refine and_iff_left_of_imp fun he hm => hdata ?_
    obtain ⟨e', he', hee, hd', -⟩ := h.listed s e.id hm
    rwa [List.inj_on_of_nodup_map h.coherent.pending_nodup he' he hee] at hd'
  · obtain ⟨he, hnot⟩ := (hmem e).mp he
    by_cases hq : e ∈ w.timers.timeoutQueue.items
    · exact Or.inl (by simp [hd.items, hq, hnot])
    · exact Or.inr ⟨he, hq⟩

end Deals

/-! ### Every method -/

variable {c}

omit [DecidableEq S] in
lemma still_perform {w : World S T E P} {o : Obs S T} {a : Option (Action S P)}
    (ho : o.quiet = true) (hs : ∀ s, o ≠ .activated s)
    (ha : ∀ f, a = some f → ∀ m p x,
      (f m p).1.isActive x = m.isActive x ∧ (f m p).1.timeouts x = m.timeouts x) :
    w.Still c (w.perform o a) := by
  refine ⟨quiet_perform ho hs ha, fun x _ => ?_⟩
  cases a with
  | none => rfl
  | some f => exact (ha f rfl w.data w.param x).1

lemma still_activateData {w : World S T E P} {s : S} (hs : (c.kind s).isPseudo = true) :
    w.Still c (c.activateData s w) := by
  refine ⟨quiet_activateData (Or.inl hs), fun x hx => ?_⟩
  have hxs : x ≠ s := by
    rintro rfl
    simp [hs] at hx
  simp [hxs]

/-- The timers are noted down through every run of every method. -/
lemma compatible_deals (hc : c.ActionsKeepTimers) : Compatible c Set.univ
    fun w w' : World S T E P => w.Booked c c.timers → w.Deals c c.timers c.timers w' where
  null := trivial
  refl w h := deals_still h ⟨World.Quiet.refl w, fun _ _ => rfl⟩
  trans h h' hw := (h hw).trans (h' (h hw).booked)
  fire _ _ _ _ _ h := deals_still h ⟨World.Quiet.log rfl (by simp), fun _ _ => rfl⟩
  fired _ _ _ h := deals_still h ⟨World.Quiet.log rfl (by simp), fun _ _ => rfl⟩
  fallThrough _ _ _ _ h := deals_still h ⟨World.Quiet.log rfl (by simp), fun _ _ => rfl⟩
  bracket n w w' h hw := by
    have h₁ := deals_still hw ⟨World.Quiet.log (w := w) (o := .entering n) rfl (by simp),
      fun _ _ => rfl⟩
    have h₂ := h h₁.booked
    exact (h₁.trans h₂).trans <|
      deals_still h₂.booked ⟨World.Quiet.log rfl (by simp), fun _ _ => rfl⟩
  effect _ _ h := deals_still h (still_perform rfl (by simp) fun _ => hc.effect)
  entry _ _ h := deals_still h (still_perform rfl (by simp) fun _ => hc.entry)
  doing _ _ h := deals_still h (still_perform rfl (by simp) fun _ => hc.doing)
  exit _ _ h := deals_still h (still_perform rfl (by simp) fun _ => hc.exit)
  activateData _ _ hs h := deals_still h (still_activateData hs)
  arrive _ _ hs hi h := deals_arrive h hs hi
  leave s _ _ h := deals_leave h s
  registerRegion _ _ _ _ h := deals_still h ⟨quiet_registerRegion, fun _ _ => by simp⟩
  clearStateset _ _ _ h := deals_still h
    ⟨quiet_modify (fun _ => rfl) fun _ => rfl, fun _ _ => isActive_clearStateset⟩
  clearCurrent _ _ _ h := deals_still h
    ⟨quiet_modify (fun _ => rfl) fun _ => rfl, fun _ _ => isActive_clearCurrent⟩
  storeHistory _ _ _ _ _ _ hs h := deals_still h
    ⟨quiet_storeHistory hs, fun _ _ => isActive_storeHistory hs⟩

/-! ### The invariant of the system -/

namespace System

variable {σ σ' : System S T E P} {w w' : World S T E P} {op : Op S E} {d : ℕ}

/-- The entry has left the timeout queue: it is with the pool or the worker, or was dispatched. -/
def Taken (σ : System S T E P) (e : EventQueueEntry S E) : Prop :=
  e ∈ σ.pool ++ σ.worker.toList ∨ ∃ now, .dispatched e.id now ∈ σ.traces e.data

variable (c) in
/-- The timers of every metadata are noted down, and what is pending is queued or taken. -/
structure Filed (σ : System S T E P) : Prop where
  booked : ∀ d p, (σ.world d p).Booked c c.timers
  queued : ∀ e ∈ σ.timers.pendingEntries, e ∈ σ.timers.timeoutQueue.items ∨ σ.Taken e

/-- A part of a call, on one metadata, keeps the invariant. -/
lemma Filed.put (h : Filed c (σ.put w))
    (hw : w.Booked c c.timers → w.Deals c c.timers c.timers w') : Filed c (σ.put w') := by
  have hbook : w.Booked c c.timers := (h.booked w.dataId 0).congr (by simp [System.put, world])
    rfl (by simp [System.put, world]) rfl
  have hdeals := hw hbook
  have hid := hdeals.dataId
  refine ⟨fun d p => ?_, fun e he => ?_⟩
  · by_cases hd : d = w.dataId
    · subst hd
      exact hdeals.booked.congr (by simp [System.put, world, hid]) rfl
        (by simp [System.put, world, hid]) hid.symm
    · refine (h.booked d p).frame ?_ ?_ rfl hdeals.booked.coherent hdeals.booked.running
        fun e he => ?_
      · simp [System.put, world, hid, hd]
      · simp [System.put, world, hid, hd]
      · exact hdeals.others e fun heq => hd (he.symm.trans heq)
  · rcases hdeals.queued e he with hq | ⟨hp, hq⟩
    · exact Or.inl hq
    · refine Or.inr (((h.queued e hp).resolve_left hq).imp (fun hpool => hpool) ?_)
      rintro ⟨now, hmem⟩
      refine ⟨now, ?_⟩
      by_cases hd : e.data = w.dataId
      · simp only [System.put, hd, Function.update_self] at hmem
        simp only [System.put, hd, hid, Function.update_self]
        obtain ⟨l, hl, -⟩ := hdeals.grows
        exact hl ▸ List.mem_append_right l hmem
      · simpa [System.put, hid, hd] using hmem

/-- The tests of the worker let everything pass that is pending. -/
lemma Filed.check (h : Filed c σ) : Filed c σ.check := by
  obtain ⟨ht, hs, htr, -⟩ := check_frame σ
  refine ⟨fun d p => (h.booked d p).congr (by simp [world, hs]) (by simp [world, ht])
    (by simp [world, htr]) rfl, fun e he => ?_⟩
  rw [ht] at he ⊢
  refine (h.queued e he).imp id (Or.imp (fun hp => ?_) (by rw [htr]; exact id))
  have hvalid := (h.booked e.data 0).coherent.valid e he
  have hact := ((h.booked e.data 0).own e he rfl).2.1
  unfold System.check
  split
  · rename_i entry pool hworker hpool
    split
    · simpa [hworker, hpool, or_comm] using hp
    · rename_i hdrop
      have hne : e ≠ entry := by
        rintro rfl
        exact hdrop ⟨hvalid, hact⟩
      simpa [hworker, hpool, hne] using hp
  · exact hp

/-- An expired entry that is pending goes to the pool. -/
lemma Filed.expire (h : Filed c σ) : Filed c σ.expire := by
  unfold System.expire
  split
  swap
  · exact h
  split
  swap
  · exact h
  rename_i entry q hq
  obtain ⟨hitems, -⟩ := DelayQueue.items_of_take hq
  have hc := (h.booked 0 0).coherent
  have hcoh : Timers.Coherent { σ.timers with timeoutQueue := q } :=
    { hc with
      queue_nodup := (List.nodup_cons.mp (hitems ▸ hc.queue_nodup)).2
      queued := fun e he => hc.queued e (hitems ▸ List.mem_cons_of_mem _ he) }
  have hbooked : ∀ {τ : System S T E P}, τ.timers = { σ.timers with timeoutQueue := q } →
      τ.stores = σ.stores → τ.traces = σ.traces → ∀ d p, (τ.world d p).Booked c c.timers :=
    fun ht hs htr d p => (h.booked d p).frame (by simp [world, hs]) (by simp [world, htr]) rfl
      (by simpa [world, ht] using hcoh) (by simpa [world, ht] using (h.booked d p).running)
      (by simp [world, ht])
  have hout : ∀ e ∈ σ.timers.pendingEntries, e ∈ q.items ∨ e = entry ∨ σ.Taken e := by
    intro e he
    rcases h.queued e he with hq | ht
    · rcases List.mem_cons.mp (hitems ▸ hq) with rfl | hq
      · exact Or.inr (Or.inl rfl)
      · exact Or.inl hq
    · exact Or.inr (Or.inr ht)
  simp only
  split
  · rename_i hinv
    refine ⟨hbooked rfl rfl rfl, fun e he => (hout e he).imp id fun ht => ?_⟩
    refine ht.resolve_left ?_
    rintro rfl
    exact hc.valid e he hinv
  · refine ⟨hbooked rfl rfl rfl, fun e he => (hout e he).imp id ?_⟩
    rintro (rfl | hpool | hdisp)
    · exact Or.inl (by simp)
    · refine Or.inl ?_
      simp only [List.mem_append, List.mem_singleton] at hpool ⊢
      tauto
    · exact Or.inr hdisp

section Steps

variable [Inhabited P]

lemma Filed.argument (h : Filed c σ) (p : Option ℕ) : Filed c (σ.argument p).2 := by
  cases p
  · exact ⟨fun d q => (h.booked d q).congr rfl rfl (fun _ => rfl) rfl, h.queued⟩
  · exact h

lemma Filed.dispatch (hc : c.ActionsKeepTimers) {e : Option E} {p : Option ℕ} (h : Filed c σ)
    (hs : Invokes (fun n => Statechart.dispatch c n e) d p σ σ') : Filed c σ' := by
  obtain ⟨q, τ, n, o, w', ha, -, hn, rfl⟩ := hs.cases
  have hτ := h.argument p
  rw [ha, ← put_world τ d q] at hτ
  exact hτ.put ((compatible_deals hc).dispatch n (Set.mem_univ e) _ _ _ hn)

/-- A metadata on which no call was made is started. -/
lemma Filed.start (hc : c.ActionsKeepTimers) {p : Option ℕ} (h : Filed c σ)
    (hfresh : σ.stores d = .reset) (hs : Invokes (Statechart.start c) d p σ σ') : Filed c σ' := by
  obtain ⟨q, τ, n, o, w', ha, ⟨-, hst, -⟩, hn, rfl⟩ := hs.cases
  have h₂ := Statechart.returns_start.mp hn
  have hτ := h.argument p
  rw [ha, ← put_world τ d q] at hτ
  have hdata : (τ.world d q).data = .reset := (congrFun hst d).trans hfresh
  generalize τ.world d q = w at hτ h₂ hdata
  refine hτ.put fun hw => ?_
  have hreset : w.Deals c c.timers c.timers ((w.onData fun _ => .reset).log .reset) := by
    refine ⟨rfl, ⟨hw.coherent, hw.running, ?_, ?_, ?_, fun s _ _ ha => ?_⟩, fun _ _ => Iff.rfl,
      fun e he => (em _).imp id fun hq => ⟨he, hq⟩, World.Adds.of_cons rfl trivial⟩
    · exact hdata ▸ hw.own
    · exact hdata ▸ hw.listed
    · exact hdata ▸ hw.nodup
    · simp at ha
  have henter : w.Deals c c.timers c.timers (Statechart.enter c w) := by
    have hroot := (deals_activateData (s := c.root) hreset.booked rfl).congr
      fun s hs => Function.update_of_ne hs _ _
    unfold Statechart.enter
    split
    · exact hreset.trans hroot
    · rename_i st hst
      refine (hreset.trans hroot).trans (deals_still hroot.booked (still_activateData ?_))
      rw [(Chart.startState_eq_some hst).1]
      rfl
  exact henter.trans ((compatible_deals hc).dispatch n (Set.mem_univ none) _ _ _ h₂ henter.booked)

lemma Filed.deliver (hc : c.ActionsKeepTimers) (h : Filed c σ) (hs : Deliver c σ σ') :
    Filed c σ' := by
  obtain ⟨e, q, τ, n, o, w', he, -, ⟨ht, hst, htr, hpool, -⟩, h₂, rfl⟩ := hs.cases
  -- the entry leaves the worker and is marked as dispatched at once
  have hmark : Filed c (τ.put ((τ.world e.data q).log (.dispatched e.id σ.timers.now))) := by
    refine ⟨fun d p => ?_, fun e' he' => ?_⟩
    · refine (h.booked d p).congr ?_ ht ?_ rfl
      · by_cases hd : d = e.data <;> simp [System.put, world, World.log, hst, hd]
      · by_cases hd : d = e.data <;>
          simp [System.put, world, World.log, htr, hd, scheduledSince]
    · change e' ∈ τ.timers.pendingEntries at he'
      change e' ∈ τ.timers.timeoutQueue.items ∨ _
      rw [ht] at he' ⊢
      refine (h.queued e' he').imp id ?_
      have hmono : ∀ o ∈ σ.traces e'.data, o ∈ (τ.put ((τ.world e.data q).log
          (.dispatched e.id σ.timers.now))).traces e'.data := by
        intro o ho
        by_cases hd : e'.data = e.data
        · simp only [hd] at ho
          simp [System.put, world, World.log, htr, hd, ho]
        · simpa [System.put, world, World.log, htr, hd] using ho
      rintro (hp | ⟨now, hd⟩)
      · rcases List.mem_append.mp hp with hp | hp
        · exact Or.inl (List.mem_append_left _ (hpool ▸ hp))
        · obtain rfl : e' = e := by simpa [he] using hp
          exact Or.inr ⟨σ.timers.now, by simp [System.put, world, World.log]⟩
      · exact Or.inr ⟨now, hmono _ hd⟩
  exact hmark.put ((compatible_deals hc).dispatch n (Set.mem_univ e.event) _ _ _ h₂)

/-- Every metadata is started once, at most, by a call of `start`. -/
def StartsOnce : Op S E → System S T E P → System S T E P → Prop
  | .start d _, σ, _ => σ.stores d = .reset
  | .restoreState .., _, _ => False
  | _, _, _ => True

lemma Filed.step (hc : c.ActionsKeepTimers) (hs : Step c op σ σ') (hok : StartsOnce op σ σ')
    (h : Filed c σ) : Filed c σ' := by
  cases op with
  | start d p => exact h.start hc hok hs
  | restoreState s d p => exact hok.elim
  | dispatch d e p => exact h.dispatch hc hs
  | tick ns =>
      obtain rfl := hs
      refine ⟨fun d p => ?_, h.queued⟩
      have hc := (h.booked d p).coherent
      exact (h.booked d p).frame rfl (fun _ => rfl) rfl ⟨hc.1, hc.2, hc.3, hc.4, hc.5, hc.6⟩
        (h.booked d p).running fun _ _ => Iff.rfl
  | expire =>
      obtain rfl := hs
      exact h.expire
  | check =>
      obtain rfl := hs
      exact h.check
  | deliver => exact h.deliver hc hs
  | work =>
      obtain ⟨-, ⟨-, rfl⟩ | hd⟩ := hs
      · exact h.check
      · exact h.check.deliver hc hd

end Steps

variable (c) in
/-- Each active state has one valid pending entry for each of its timeouts, which it lists,
scheduled in its present activation, and which is queued unless it was taken; nothing else is queued
or pending. -/
structure Booked (σ : System S T E P) : Prop where
  active : ∀ d s, (c.kind s).isPseudo = false → s ≠ c.root → (σ.stores d).isActive s = true →
    ∃ es : List (EventQueueEntry S E), List.Forall₂ (fun t e => e.For c t) (c.timers s) es
      ∧ (es.map (·.id)).Nodup
      ∧ (σ.stores d).timeouts s = es.map (·.id)
      ∧ (scheduledSince s (σ.traces d)).reverse = es.map (·.id)
      ∧ (∀ e, e ∈ es ↔ e ∈ σ.timers.pendingEntries ∧ e.data = d ∧ e.state = s)
      ∧ ∀ e ∈ es, e.id ∉ σ.timers.invalid ∧ (e ∈ σ.timers.timeoutQueue.items ∨ σ.Taken e)
  inactive : ∀ e, e ∈ σ.timers.timeoutQueue.items ∨ e ∈ σ.timers.pendingEntries →
    (σ.stores e.data).isActive e.state = true

omit [DecidableEq S] in
/-- Entries found one by one under their numbers form a list. -/
lemma exists_of_forall₂ {L : List (EventQueueEntry S E)} {Q : T → EventQueueEntry S E → Prop}
    {ts : List T} {ids : List ℕ}
    (h : List.Forall₂ (fun t id => ∃ e ∈ L, e.id = id ∧ Q t e) ts ids) :
    ∃ es, List.Forall₂ Q ts es ∧ es.map (·.id) = ids ∧ ∀ e ∈ es, e ∈ L := by
  induction h with
  | nil => exact ⟨[], .nil, rfl, by simp⟩
  | cons h _ ih =>
      obtain ⟨e, he, rfl, hq⟩ := h
      obtain ⟨es, hes, rfl, hL⟩ := ih
      exact ⟨e :: es, .cons hq hes, rfl, List.forall_mem_cons.mpr ⟨he, hL⟩⟩

lemma Filed.complete (h : Filed c σ) : Booked c σ := by
  refine ⟨fun d s hs hroot ha => ?_, fun e he => ?_⟩
  · have hb := h.booked d 0
    have hc := hb.coherent
    obtain ⟨hall, hsince⟩ := hb.complete s hs hroot ha
    obtain ⟨es, hfor, hids, hmem⟩ := exists_of_forall₂ hall
    have hpends : ∀ e ∈ es, e.data = d ∧ e.state = s := by
      intro e he
      obtain ⟨e', he', hid, hd, hst⟩ := hb.listed s e.id (hids ▸ List.mem_map_of_mem he)
      rw [List.inj_on_of_nodup_map hc.pending_nodup (hmem e he) he' hid.symm]
      exact ⟨hd, hst⟩
    refine ⟨es, hfor.imp fun _ _ h => h.2.2, hids ▸ hb.nodup s, hids.symm, ?_, fun e => ?_,
      fun e he => ⟨hc.valid e (hmem e he), h.queued e (hmem e he)⟩⟩
    · exact (congrArg _ hsince).trans (by rw [List.reverse_reverse, ← hids])
    · refine ⟨fun he => ⟨hmem e he, hpends e he⟩, ?_⟩
      rintro ⟨he, hd, rfl⟩
      have hl := (hb.own e he hd).2.2
      rw [← hids] at hl
      obtain ⟨e', he', hid⟩ := List.mem_map.mp hl
      rwa [← List.inj_on_of_nodup_map hc.pending_nodup (hmem e' he') he hid]
  · have hb := h.booked e.data 0
    exact (hb.own e (he.elim (hb.coherent.queued e) id) rfl).2.1

/-- **The timers are noted down completely.** In every run in which each metadata is started once,
at most, on which no other call was made before, every active state has exactly one valid pending
entry for each of its timeouts, and no inactive state has any. -/
theorem booked_of_startsOnce [Inhabited P] (hc : c.ActionsKeepTimers) {params : ℕ → P}
    {nextParam : ℕ} (h : Run c StartsOnce (fresh params nextParam) σ) : Booked c σ := by
  have h₀ : Filed c (fresh params nextParam : System S T E P) := by
    refine ⟨fun d p => ⟨⟨?_, ?_, ?_, ?_, ?_, ?_⟩, rfl, ?_, ?_, ?_, ?_⟩, ?_⟩ <;>
      simp [fresh, world, Metadata.timeouts]
  exact (h.induction (fun op σ σ' hs hok hk => hk.step hc hs hok) h₀).complete

end System

/-! ### An action that clears the timeout entries of its state -/

namespace Forgetful

inductive St where
  | chart | s | a | b
  deriving DecidableEq

instance : Fintype St := ⟨{.chart, .s, .a, .b}, fun x => by cases x <;> decide⟩

inductive Tr where
  | begin | late
  deriving DecidableEq

instance : Fintype Tr := ⟨{.begin, .late}, fun t => by cases t <;> decide⟩

/-- The state `a` is left for `b` after 100 milliseconds. -/
def chart (entry : Option (Action St Unit)) : Chart St Tr Event Unit where
  name := "forgetful"
  root := .chart
  ownedStates := [.s, .a, .b]
  ownedTransitions := [.begin, .late]
  kind
    | .chart => .statechart
    | .s => .pseudoState .start
    | _ => .state
  context
    | .chart => none
    | _ => some .chart
  depth
    | .chart => 0
    | _ => 1
  entryAction
    | .a => entry
    | _ => none
  source
    | .begin => .s
    | .late => .a
  target
    | .begin => .a
    | .late => .b
  event
    | .begin => none
    | .late => some (.timeoutEvent 0 1 100)
  equals ev e _ _ := ev.equals e
  timeout := Event.timeout

/-- `getData(a)->timeoutEvents.clear()`. -/
def clear : Action St Unit := fun m p => (m.modify .a fun d => { d with timeoutEvents := [] }, p)

/-- A new system, whose clients have one parameter. -/
abbrev initial : System St Tr Event Unit := System.fresh (fun _ => ()) 1

set_option maxRecDepth 4000 in
/-- **A handle that is lost.** The entry action clears the list, and the pending entry is listed
nowhere. -/
theorem not_booked : ∃ σ, System.Run (chart (some clear)) System.StartsOnce initial σ
    ∧ ¬ System.Booked (chart (some clear)) σ := by
  refine ⟨_, .step (.start 0 (some 0)) (.refl _) (System.step_of_exec (n := 4) rfl) rfl, ?_⟩
  intro h
  obtain ⟨es, hfor, -, hids, -⟩ := h.active 0 .a rfl (by decide) rfl
  have hes : es.map (·.id) = [] := hids.symm
  obtain rfl := List.map_eq_nil_iff.mp hes
  exact absurd hfor.length_eq (by decide)

lemma actionsKeepTimers : (chart none).ActionsKeepTimers := by
  refine ⟨fun {x f} h => ?_, fun h => ?_, fun h => ?_, fun h => ?_⟩
  · cases x <;> simp [chart] at h
  all_goals simp [chart] at h

set_option maxRecDepth 4000 in
/-- Without the action, the timer of `a` is noted down until it has moved the chart to `b`. -/
theorem booked_late : ∃ σ σ', System.Run (chart none) System.StartsOnce initial σ
    ∧ (σ.timers.pendingEntries.length = 1 ∧ System.Booked (chart none) σ)
    ∧ System.Run (chart none) System.StartsOnce σ σ'
    ∧ ((σ'.stores 0).isActive .b = true ∧ System.Booked (chart none) σ') := by
  have hstart : ∀ {σ}, System.exec (chart none) 4 initial (.start 0 (some 0)) = some σ →
      System.Run (chart none) System.StartsOnce initial σ := fun h =>
    .step _ (.refl _) (System.step_of_exec h) rfl
  have hrest : ∀ {σ σ' τ}, System.Run (chart none) System.StartsOnce τ σ →
      System.execAll (chart none) 4 [.tick 100000000, .expire, .check, .deliver] σ = some σ' →
      System.Run (chart none) System.StartsOnce τ σ' := fun hr h =>
    hr.execAll (by simp [System.StartsOnce]) h
  have h₁ := hstart rfl
  exact ⟨_, _, h₁, ⟨rfl, System.booked_of_startsOnce actionsKeepTimers h₁⟩,
    hrest (.refl _) rfl, rfl, System.booked_of_startsOnce actionsKeepTimers (hrest h₁ rfl)⟩

end Forgetful

end CppStatecharts
