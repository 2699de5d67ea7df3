import CppStatecharts.Library.Line
import CppStatecharts.Timers.Ledger

/-!
What a call does to the timeout queue, whatever the client's actions do.

* `EventQueueEntry.Precedes`: the order of the queue; `Timers.Queued`: the queue is in this order
  and its entries have different old numbers.
* `Timers.Refiles`: entries leave the queue, new ones enter it, and the others keep their order.
* `World.Files`, `compatible_files`: every method does no more than that to the timers, and
  dispatches no entry; `System.files_call`: neither does a call of a client.
-/

namespace CppStatecharts

variable {S T E P : Type}

/-- Due earlier; or due at the same time, and created later. -/
def EventQueueEntry.Precedes (e e' : EventQueueEntry S E) : Prop :=
  e.deadline < e'.deadline ∨ e.deadline = e'.deadline ∧ e'.id < e.id

lemma EventQueueEntry.Precedes.asymm {e e' : EventQueueEntry S E} (h : e.Precedes e') :
    ¬ e'.Precedes e := by
  rintro (h' | h') <;> rcases h with h | h <;> omega

/-- The number of the entry that was dispatched, and when. -/
def Obs.dispatch? : Obs S T → Option (ℕ × ℤ)
  | .dispatched id now => some (id, now)
  | _ => none

namespace Timers

/-- The queue is in order, and its entries have different old numbers. -/
structure Queued (tm : Timers S E) : Prop where
  nodup : (tm.timeoutQueue.items.map (·.id)).Nodup
  used : ∀ e ∈ tm.timeoutQueue.items, e.id < tm.nextId
  ranked : tm.timeoutQueue.items.Pairwise EventQueueEntry.Precedes

/-- Entries are cancelled, and new ones created. -/
structure Refiles (tm tm' : Timers S E) : Prop where
  nextId : tm.nextId ≤ tm'.nextId
  now : tm'.now = tm.now
  running : tm'.running = tm.running
  invalid : ∀ id ∈ tm.invalid, id ∈ tm'.invalid
  renews : Renews (·.id) tm.nextId tm.timeoutQueue.items tm'.timeoutQueue.items
  queued : tm.Queued → tm'.Queued
  kept : ∀ e ∈ tm.timeoutQueue.items, e ∈ tm'.timeoutQueue.items ∨ e.id ∈ tm'.invalid
  halted : tm.running = false → tm'.nextId = tm.nextId

variable {tm tm₁ tm' : Timers S E}

lemma Queued.sublist (h : tm.Queued)
    (hs : tm'.timeoutQueue.items.Sublist tm.timeoutQueue.items) (hn : tm'.nextId = tm.nextId) :
    tm'.Queued :=
  ⟨h.nodup.sublist (hs.map _), fun e he => hn ▸ h.used e (hs.subset he), h.ranked.sublist hs⟩

lemma Queued.ordered (h : tm.Queued) : tm.timeoutQueue.Ordered (·.deadline) :=
  h.ranked.imp fun hp => hp.elim le_of_lt fun heq => heq.1.le

/-- A new entry goes before those that are due at the same time. -/
lemma Queued.add (h : tm.Queued) {e : EventQueueEntry S E} (he : e.id = tm.nextId)
    (hn : tm'.nextId = tm.nextId + 1)
    (hq : tm'.timeoutQueue = tm.timeoutQueue.add (·.deadline) e) : tm'.Queued := by
  have hperm : (tm.timeoutQueue.add (·.deadline) e).items.Perm (e :: tm.timeoutQueue.items) :=
    DelayQueue.perm_add tm.timeoutQueue e
  refine ⟨?_, fun e' he' => ?_, ?_⟩
  · rw [hq, (hperm.map _).nodup_iff, List.map_cons, List.nodup_cons]
    refine ⟨fun hm => ?_, h.nodup⟩
    obtain ⟨e', he', heq⟩ := List.mem_map.mp hm
    have := h.used e' he'
    omega
  · rw [hq, DelayQueue.mem_add] at he'
    rcases he' with rfl | he'
    · omega
    · have := h.used e' he'
      omega
  · rw [hq, h.ordered.items_add]
    refine List.pairwise_append.mpr ⟨h.ranked.sublist List.filter_sublist, List.pairwise_cons.mpr
      ⟨fun e' he' => ?_, h.ranked.sublist List.filter_sublist⟩, fun e' he' e'' he'' => ?_⟩
    · obtain ⟨hm, hle⟩ := List.mem_filter.mp he'
      have hle : e.deadline ≤ e'.deadline := by simpa using hle
      have := h.used e' hm
      exact hle.lt_or_eq.imp id fun heq => ⟨heq, by omega⟩
    · obtain ⟨hm, hlt⟩ := List.mem_filter.mp he'
      have hlt : e'.deadline < e.deadline := by simpa using hlt
      rcases List.mem_cons.mp he'' with rfl | he''
      · exact Or.inl hlt
      · have hle : e.deadline ≤ e''.deadline := by simpa using (List.mem_filter.mp he'').2
        exact Or.inl (hlt.trans_le hle)

namespace Refiles

lemma refl (tm : Timers S E) : tm.Refiles tm :=
  ⟨le_rfl, rfl, rfl, fun _ hi => hi, .of_sublist (List.Sublist.refl _), id, fun _ => Or.inl,
    fun _ => rfl⟩

lemma trans (h : tm.Refiles tm₁) (h' : tm₁.Refiles tm') : tm.Refiles tm' where
  nextId := h.nextId.trans h'.nextId
  now := h'.now.trans h.now
  running := h'.running.trans h.running
  invalid id hi := h'.invalid id (h.invalid id hi)
  renews := h.renews.trans h.nextId h'.renews
  queued hq := h'.queued (h.queued hq)
  kept e he := (h.kept e he).elim (h'.kept e) fun hi => Or.inr (h'.invalid e.id hi)
  halted hr := (h'.halted (h.running.trans hr)).trans (h.halted hr)

lemma markInvalid (tm : Timers S E) (id : ℕ) : tm.Refiles (tm.markInvalid id) :=
  { refl tm with
    invalid := fun _ => List.mem_cons_of_mem id
    queued := fun hq => hq.sublist (List.Sublist.refl _) rfl
    kept := fun _ => Or.inl }

lemma cancelTimeout (tm : Timers S E) (id : ℕ) : tm.Refiles (tm.cancelTimeout id) := by
  refine (markInvalid tm id).trans ?_
  unfold Timers.cancelTimeout
  simp only
  split
  · refine ⟨le_rfl, rfl, rfl, fun _ hi => hi, .of_sublist List.eraseP_sublist,
      fun hq => hq.sublist List.eraseP_sublist rfl, fun e he => ?_, fun _ => rfl⟩
    by_cases hid : e.id = id
    · exact Or.inr (hid ▸ List.mem_cons_self)
    · exact Or.inl ((List.mem_eraseP_of_neg (by simpa using hid)).mpr he)
  · exact refl _

/-- A new timer, as long as the chart is not shut down. -/
lemma enqueueTimeout (tm : Timers S E) (s : S) (d : ℕ) (ev : E) (p : ℕ) (ms : ℤ) :
    tm.Refiles (tm.enqueueTimeout s d ev p ms) := by
  unfold Timers.enqueueTimeout
  split
  swap
  · exact refl tm
  rename_i hrun
  refine ⟨Nat.le_succ _, rfl, rfl, fun _ hi => hi, ?_, fun hq => hq.add rfl rfl rfl,
    fun e he => Or.inl (DelayQueue.mem_add.mpr (Or.inr he)), fun h => ?_⟩
  · obtain ⟨l₁, l₂, hl, hadd⟩ := DelayQueue.exists_items_add (·.deadline) tm.timeoutQueue
      (tm.newEntry s d ev p ms)
    simp only [hl, hadd]
    refine Renews.insert ?_ l₁ l₂
    exact le_rfl
  · rw [hrun] at h
    cases h

end Refiles

end Timers

/-! ### The methods -/

namespace World

/-- The timers are refiled, and no entry is dispatched. -/
structure Files (w w' : World S T E P) : Prop where
  dataId : w'.dataId = w.dataId
  paramId : w'.paramId = w.paramId
  timers : w.timers.Refiles w'.timers
  trace : w.Adds (fun o => o.dispatch? = none) w'

variable {w w₁ w' : World S T E P} {s : S} {o : Obs S T}

lemma Files.of_timers (ht : w'.timers = w.timers) (hd : w'.dataId = w.dataId)
    (hp : w'.paramId = w.paramId) (ha : w.Adds (fun o => o.dispatch? = none) w') : w.Files w' :=
  ⟨hd, hp, ht ▸ Timers.Refiles.refl _, ha⟩

lemma Files.refl (w : World S T E P) : w.Files w := .of_timers rfl rfl rfl (Adds.refl w)

lemma Files.trans (h : w.Files w₁) (h' : w₁.Files w') : w.Files w' :=
  ⟨h'.dataId.trans h.dataId, h'.paramId.trans h.paramId, h.timers.trans h'.timers,
    h.trace.trans h'.trace⟩

lemma Files.log (ho : o.dispatch? = none) : w.Files (w.log o) :=
  .of_timers rfl rfl rfl (Adds.of_cons rfl ho)

lemma Files.onData (f : Metadata S → Metadata S) : w.Files (w.onData f) :=
  .of_timers rfl rfl rfl (Adds.of_eq rfl)

lemma Files.perform {a : Option (Action S P)} (ho : o.dispatch? = none) :
    w.Files (w.perform o a) := by
  cases a with
  | none => exact Files.refl w
  | some f => exact .of_timers rfl rfl rfl (Adds.of_cons rfl ho)

end World

variable [DecidableEq S] {c : Chart S T E P} {w w' : World S T E P} {s : S} {n : ℕ}

lemma files_activateData : w.Files (c.activateData s w) :=
  .of_timers rfl rfl rfl (World.Adds.of_cons rfl rfl)

lemma files_scheduleTimeout (t : T) : w.Files (c.scheduleTimeout s w t) := by
  rcases scheduleTimeout_cases s w t with h | ⟨ev, ms, -, -, h, -⟩
  · rw [h]
    exact World.Files.refl w
  · rw [h]
    exact ⟨rfl, rfl, .enqueueTimeout _ _ _ _ _ _, World.Adds.of_cons rfl rfl⟩

omit [DecidableEq S] in
lemma files_cancelEntry (id : ℕ) : w.Files (Chart.cancelEntry w id) :=
  ⟨rfl, rfl, (Timers.Refiles.markInvalid _ _).trans (.cancelTimeout _ _),
    World.Adds.of_cons rfl rfl⟩

lemma files_leave : w.Files (c.leave s w) := by
  have hcancel : w.Files (Chart.cancelTimeouts s w) :=
    @rel_foldl _ _ World.Files ⟨World.Files.refl⟩ ⟨fun _ _ _ => World.Files.trans⟩
      Chart.cancelEntry (fun _ => files_cancelEntry) (w.data.timeouts s) w
  refine hcancel.trans ?_
  unfold Chart.leave Chart.deactivateData
  split
  · exact World.Files.refl _
  · simp only
    split
    · exact World.Files.onData _
    · exact (World.Files.onData _).trans (World.Files.log rfl)

variable (c) in
lemma compatible_files : Compatible c Set.univ World.Files where
  null := trivial
  refl := World.Files.refl
  trans := World.Files.trans
  fire _ _ _ _ _ := World.Files.log rfl
  fired _ _ _ := World.Files.log rfl
  fallThrough _ _ _ _ := World.Files.log rfl
  bracket _ _ _ h := (World.Files.log rfl).trans (h.trans (World.Files.log rfl))
  effect _ _ := World.Files.perform rfl
  entry _ _ := World.Files.perform rfl
  doing _ _ := World.Files.perform rfl
  exit _ _ := World.Files.perform rfl
  activateData _ _ _ := files_activateData
  arrive s w _ _ := files_activateData.trans
    (@rel_foldl _ _ World.Files ⟨World.Files.refl⟩ ⟨fun _ _ _ => World.Files.trans⟩
      (c.scheduleTimeout s) (fun _ => files_scheduleTimeout) (c.transitions s) _)
  leave _ _ _ := files_leave
  registerRegion _ _ _ _ := World.Files.onData _
  clearStateset _ _ _ := World.Files.onData _
  clearCurrent _ _ _ := World.Files.onData _
  storeHistory _ _ _ _ _ _ h := by
    rcases Chart.returns_storeHistory h with rfl | ⟨_, _, _, -, -, -, -, rfl⟩
    · exact World.Files.refl _
    · exact World.Files.onData _

/-! ### Calls -/

lemma files_enter (w : World S T E P) : w.Files (Statechart.enter c w) := by
  have hroot : w.Files (c.activateData c.root ((w.onData fun _ => .reset).log .reset)) :=
    ((World.Files.onData _).trans (World.Files.log rfl)).trans files_activateData
  unfold Statechart.enter
  split
  · exact hroot
  · exact hroot.trans files_activateData

lemma files_dispatch {e : Option E} {u : Outcome} (h : Returns (Statechart.dispatch c n e) w u w') :
    w.Files w' := (compatible_files c).dispatch n (Set.mem_univ e) _ _ _ h

lemma files_start {u : Outcome} (h : Returns (Statechart.start c n) w u w') : w.Files w' := by
  exact (files_enter w).trans (files_dispatch (Statechart.returns_start.mp h))

lemma files_restoreState {b : Bool} {w w' : World S T E P}
    (h : Returns (Statechart.restoreState c n s) w b w') : w.Files w' := by
  rcases Statechart.returns_restoreState.mp h with ⟨-, -, rfl⟩ | ⟨-, -, h⟩
  · exact World.Files.refl _
  · have hpath := (compatible_files c).enterPath n _ _ _ _ h
    exact ((World.Files.onData _).trans (World.Files.log rfl)).trans hpath

/-- A call of a client refiles the timers. -/
lemma System.files_call [Inhabited P] {σ σ' : System S T E P} {op : Op S E} {d : ℕ} {p : Option ℕ}
    (hop : op.call = some (d, p)) (hs : Step c op σ σ') :
    ∃ w', ((σ.argument p).2.world d (σ.argument p).1).Files w' ∧ σ' = (σ.argument p).2.put w' := by
  cases op <;> simp only [Op.call, Option.some.injEq, Prod.mk.injEq, reduceCtorEq] at hop
  case start =>
      obtain ⟨rfl, rfl⟩ := hop
      obtain ⟨o, w', ⟨n, hn⟩, rfl⟩ := hs
      exact ⟨w', files_start hn, rfl⟩
  case restoreState =>
      obtain ⟨rfl, rfl⟩ := hop
      obtain ⟨o, w', ⟨n, hn⟩, rfl⟩ := hs
      exact ⟨w', files_restoreState hn, rfl⟩
  case dispatch =>
      obtain ⟨rfl, rfl⟩ := hop
      obtain ⟨o, w', ⟨n, hn⟩, rfl⟩ := hs
      exact ⟨w', files_dispatch hn, rfl⟩

end CppStatecharts
