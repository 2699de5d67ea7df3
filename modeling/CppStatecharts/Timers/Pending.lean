import CppStatecharts.Model.Asynchron
import CppStatecharts.Timers.Ledger

/-!
What becomes of the pending list.

* `System.Tidy`: the pending entries have neither been run nor cancelled, and are all on their way.
* `System.Ends`: the worker ends no entry that stays pending.
* `System.Busy`: the invariant of the system: the entries on their way have different numbers, and
  those already dispatched are not among them.
* `System.tidy_of_ends`: every session whose steps satisfy `Ends` is tidy.
* `Forgetful.not_tidy`: the entry of an asynchronous call stays pending after it was run.
-/

namespace CppStatecharts

variable {S T E P : Type}

namespace System

/-- Every pending entry is on its way, was not cancelled and not run. -/
structure Tidy (σ : System S T E P) : Prop where
  outstanding : ∀ e ∈ σ.timers.pendingEntries, e ∈ σ.outstanding
  valid : ∀ e ∈ σ.timers.pendingEntries, e.id ∉ σ.timers.invalid
  waiting : ∀ e ∈ σ.timers.pendingEntries, ∀ d now, .dispatched e.id now ∉ σ.traces d
  length_le : σ.timers.pendingEntries.length ≤ σ.outstanding.length
  drained : σ.outstanding = [] → σ.timers.pendingEntries = []

/-- The idle worker does not drop an entry that is pending. -/
def DropsNone (σ : System S T E P) : Prop :=
  ∀ e pool, σ.worker = none → σ.pool = e :: pool → e ∈ σ.timers.pendingEntries →
    (σ.stores e.data).isActive e.state = true

/-- The dispatch of a pending entry leaves the state that lists it. -/
def LeavesState (σ σ' : System S T E P) : Prop :=
  ∀ e, σ.worker = some e → e ∈ σ.timers.pendingEntries →
    e.id ∈ (σ.stores e.data).timeouts e.state ∧ .deactivated e.state ∈ since σ σ' e.data

/-- The worker ends no entry that stays pending, and the chart is not shut down. -/
def Ends : Request S E → System S T E P → System S T E P → Prop
  | .op .check, σ, _ => DropsNone σ
  | .op .deliver, σ, σ' => LeavesState σ σ'
  | .op .work, σ, σ' => DropsNone σ ∧ LeavesState σ.check σ'
  | .shutdown, _, _ | .terminate, _, _ => False
  | _, _, _ => True

variable (c : Chart S T E P)

/-- The metadata are sorted; the entries on their way have different old numbers, which are not
those of entries already dispatched; and every pending entry is on its way, apart from the one just
being dispatched. -/
structure Busy (running : Option (EventQueueEntry S E)) (σ : System S T E P) : Prop where
  sorted : Sorted c σ
  nodup : (σ.outstanding.map (·.id)).Nodup
  used : ∀ e ∈ σ.outstanding, e.id < σ.timers.nextId
  waiting : ∀ d id now, .dispatched id now ∈ σ.traces d →
    id < σ.timers.nextId ∧ ∀ e ∈ σ.outstanding, e.id ≠ id
  pending : ∀ e ∈ σ.timers.pendingEntries, e ∈ σ.outstanding ∨ running = some e

variable {c} {σ σ' τ : System S T E P} {w w' : World S T E P} {l : List (Obs S T)}
variable {running : Option (EventQueueEntry S E)}

lemma Busy.on_way (h : Busy c none σ) : ∀ e ∈ σ.timers.pendingEntries, e ∈ σ.outstanding :=
  fun e he => (h.pending e he).resolve_right (by simp)

lemma Busy.tidy (h : Busy c none σ) : Tidy σ where
  outstanding := h.on_way
  valid := h.sorted.coherent.valid
  waiting e he d now hd := (h.waiting d e.id now hd).2 e (h.on_way e he) rfl
  length_le := by
    have hnd : σ.timers.pendingEntries.Nodup := h.sorted.coherent.pending_nodup.of_map
    exact (List.subperm_of_subset hnd h.on_way).length_le
  drained hnil := List.eq_nil_iff_forall_not_mem.mpr fun e he =>
    absurd (h.on_way e he) (hnil ▸ List.not_mem_nil)

/-- A part of a call that dispatches no entry which is still on its way. -/
lemma Busy.put (h : Busy c running (σ.put w)) (hs : w.Shifts c l w')
    (hl : ∀ id now, .dispatched id now ∈ l →
      id < w.timers.nextId ∧ ∀ e ∈ (σ.put w).outstanding, e.id ≠ id) :
    Busy c running (σ.put w') := by
  have hrest : ∀ e ∈ σ.pool ++ σ.worker.toList, e.id < w.timers.nextId := fun e he =>
    h.used e (mem_outstanding_put.mpr (Or.inr he))
  have hnd := h.nodup
  rw [outstanding, List.map_append, List.nodup_append] at hnd
  refine ⟨h.sorted.put hs, ?_, fun e he => ?_, fun d id now hd => ?_, fun e he => ?_⟩
  · rw [outstanding, List.map_append, List.nodup_append]
    refine ⟨hs.sorted.coherent.queue_nodup, hnd.2.1, fun i hi j hj => ?_⟩
    obtain ⟨e, he, rfl⟩ := List.mem_map.mp hi
    rcases hs.items e he with he | hn
    · exact hnd.2.2 _ (List.mem_map_of_mem he) j hj
    · obtain ⟨e', he', rfl⟩ := List.mem_map.mp hj
      exact ((hrest e' he').trans_le hn.id).ne'
  · rcases mem_outstanding_put.mp he with he | he
    · exact hs.sorted.coherent.used e (hs.sorted.coherent.queued e he)
    · exact (hrest e he).trans_le hs.nextId
  · have hold : .dispatched id now ∈ l ∨ .dispatched id now ∈ (σ.put w).traces d := by
      by_cases hdd : d = w.dataId
      · subst hdd
        simpa [System.put, hs.dataId, hs.trace] using hd
      · exact Or.inr (by simpa [System.put, hs.dataId, hdd] using hd)
    obtain ⟨hlt, hne⟩ := hold.elim (hl id now) (h.waiting d id now)
    refine ⟨hlt.trans_le hs.nextId, fun e he => ?_⟩
    rcases mem_outstanding_put.mp he with he | he
    · rcases hs.items e he with he | hn
      · exact hne e (mem_outstanding_put.mpr (Or.inl he))
      · exact (hlt.trans_le hn.id).ne'
    · exact hne e (mem_outstanding_put.mpr (Or.inr he))
  · rw [mem_outstanding_put]
    rcases hs.queued e he with hq | ⟨hp, hq⟩
    · exact Or.inl (Or.inl hq)
    · refine (h.pending e hp).imp (fun ho => Or.inr ?_) fun hr => hr
      exact (mem_outstanding_put.mp ho).resolve_left hq

/-- Entries are only moved, or taken away when they are not pending. -/
lemma Busy.moves (h : Busy c none σ) (hsorted : Sorted c σ')
    (hp : σ'.timers.pendingEntries = σ.timers.pendingEntries)
    (hn : σ'.timers.nextId = σ.timers.nextId) (htr : σ'.traces = σ.traces)
    (hsub : σ'.outstanding.Subperm σ.outstanding)
    (hpending : ∀ e ∈ σ.timers.pendingEntries, e ∈ σ'.outstanding) : Busy c none σ' := by
  refine ⟨hsorted, ?_, fun e he => ?_, fun d id now hd => ?_, fun e he =>
    Or.inl (hpending e (hp ▸ he))⟩
  · obtain ⟨k, hperm, hk⟩ := hsub
    exact (hperm.map _).nodup_iff.mp (h.nodup.sublist (hk.map _))
  · rw [hn]
    exact h.used e (hsub.subset he)
  · rw [htr] at hd
    obtain ⟨hlt, hne⟩ := h.waiting d id now hd
    exact ⟨hn ▸ hlt, fun e he => hne e (hsub.subset he)⟩

/-- An expired entry that is dropped was cancelled before. -/
lemma Busy.expire (h : Busy c none σ) : Busy c none σ.expire := by
  rcases expire_cases σ with he | ⟨e, q, -, hitems, he⟩
  · rwa [he]
  have hsorted := h.sorted.expire
  rw [he] at hsorted ⊢
  by_cases hinv : e.id ∈ σ.timers.invalid
  · rw [if_pos hinv] at hsorted ⊢
    refine h.moves hsorted rfl rfl rfl ?_ fun e' he' => ?_
    · simp only [outstanding, hitems, List.cons_append]
      exact (List.sublist_cons_self _ _).subperm
    · have hne : e' ≠ e := by
        rintro rfl
        exact h.sorted.coherent.valid e' he' hinv
      have := h.on_way e' he'
      simp only [outstanding, hitems, List.cons_append, List.mem_cons] at this ⊢
      exact this.resolve_left hne
  · rw [if_neg hinv] at hsorted ⊢
    have hperm : (q.items ++ (σ.pool ++ [e] ++ σ.worker.toList)).Perm σ.outstanding := by
      rw [outstanding, hitems, List.cons_append, List.append_assoc σ.pool, List.singleton_append,
        ← List.append_assoc q.items]
      refine List.perm_middle.trans ?_
      rw [List.append_assoc]
    exact h.moves hsorted rfl rfl rfl hperm.subperm fun e' he' =>
      hperm.symm.subset (h.on_way e' he')

/-- The worker takes an entry, or drops one that is not pending. -/
lemma Busy.check (h : Busy c none σ) (hok : DropsNone σ) : Busy c none σ.check := by
  have hsorted := h.sorted.check
  unfold System.check at hsorted ⊢
  split at hsorted
  · rename_i e pool hworker hpool
    split at hsorted
    · rename_i hpass
      rw [if_pos hpass]
      have hperm : (σ.timers.timeoutQueue.items ++ (pool ++ [e])).Perm σ.outstanding := by
        rw [outstanding, hworker, hpool, Option.toList_none, List.append_nil]
        exact (List.perm_append_singleton e pool).append_left _
      exact h.moves hsorted rfl rfl rfl hperm.subperm fun e' he' =>
        hperm.symm.subset (h.on_way e' he')
    · rename_i hdrop
      rw [if_neg hdrop]
      refine h.moves hsorted rfl rfl rfl ?_ fun e' he' => ?_
      · simp only [outstanding, hworker, hpool, Option.toList_none, List.append_nil]
        exact ((List.sublist_cons_self e pool).append_left _).subperm
      · have hne : e' ≠ e := by
          rintro rfl
          exact hdrop ⟨h.sorted.coherent.valid e' he', hok e' pool hworker hpool he'⟩
        have := h.on_way e' he'
        simp only [outstanding, hworker, hpool, Option.toList_none, List.append_nil,
          List.mem_append, List.mem_cons] at this ⊢
        tauto
  · exact h

/-- A new entry is on its way at once. -/
lemma Busy.submit (h : Busy c none σ) (d : ℕ) (e : Option E) (p : Option ℕ) :
    Busy c none (σ.submit c d e p) := by
  have hsorted := h.sorted.submit d e p
  rcases submit_cases c d e p σ with ⟨-, hσ⟩ | ⟨-, q, pool, hσ, hq⟩
  · rwa [hσ]
  rw [hσ] at hsorted ⊢
  have hperm : (q.items ++ (pool ++ σ.worker.toList)).Perm
    (newEntry c σ d e p :: σ.outstanding) := by
    rcases hq with ⟨rfl, rfl⟩ | ⟨rfl, rfl⟩
    · rw [outstanding, ← List.cons_append]
      exact (DelayQueue.perm_add _ _).append_right _
    · rw [outstanding, List.append_assoc σ.pool, List.singleton_append, ← List.append_assoc]
      refine List.perm_middle.trans ?_
      rw [List.append_assoc]
  have hmem : ∀ e', e' ∈ q.items ++ (pool ++ σ.worker.toList)
      ↔ e' = newEntry c σ d e p ∨ e' ∈ σ.outstanding := fun e' =>
    hperm.mem_iff.trans List.mem_cons
  refine ⟨hsorted, ?_, fun e' he' => ?_, fun d' id now hd => ?_, fun e' he' =>
    Or.inl ((hmem e').mpr ?_)⟩
  · refine (hperm.map _).nodup_iff.mpr (List.nodup_cons.mpr ⟨fun hm => ?_, h.nodup⟩)
    obtain ⟨e', he', heq⟩ := List.mem_map.mp hm
    exact (h.used e' he').ne heq
  · rcases (hmem e').mp he' with rfl | he'
    · exact Nat.lt_succ_self _
    · exact (h.used e' he').trans (Nat.lt_succ_self _)
  · obtain ⟨hlt, hne⟩ := h.waiting d' id now hd
    refine ⟨hlt.trans (Nat.lt_succ_self _), fun e' he' => ?_⟩
    rcases (hmem e').mp he' with rfl | he'
    · exact hlt.ne'
    · exact hne e' he'
  · rcases List.mem_append.mp he' with he' | he'
    · exact Or.inr (h.on_way e' he')
    · exact Or.inl (List.mem_singleton.mp he')

/-- A client cancels an entry. -/
lemma Busy.cancelTimeout (h : Busy c none σ) {entry : EventQueueEntry S E}
    (hentry : entry ∈ σ.timers.pendingEntries ++ (σ.pool ++ σ.worker.toList)) :
    Busy c none (σ.cancelTimeout entry) := by
  have hd := h.sorted.coherent.drops_one entry.id (Or.inl rfl)
  have hlt : entry.id < σ.timers.nextId := (List.mem_append.mp hentry).elim
    (h.sorted.coherent.used entry) fun he => h.used entry (List.mem_append_right _ he)
  have hitems : (σ.cancelTimeout entry).timers.timeoutQueue.items
      = σ.timers.timeoutQueue.items.filter fun e => decide (e.id ∉ [entry.id]) := hd.items
  have hsub : (σ.cancelTimeout entry).outstanding.Sublist σ.outstanding := by
    rw [outstanding, hitems]
    exact List.filter_sublist.append_right _
  have hn : (σ.cancelTimeout entry).timers.nextId = σ.timers.nextId := hd.nextId
  refine ⟨h.sorted.cancelTimeout hlt, h.nodup.sublist (hsub.map _), fun e he => ?_,
    fun d id now hm => ?_, fun e he => Or.inl ?_⟩
  · rw [hn]
    exact h.used e (hsub.subset he)
  · have hold : .dispatched id now ∈ σ.traces d := by
      by_cases hdd : d = entry.data
      · subst hdd
        simpa [System.cancelTimeout] using hm
      · simpa [System.cancelTimeout, hdd] using hm
    obtain ⟨hlt, hne⟩ := h.waiting d id now hold
    exact ⟨hn ▸ hlt, fun e he => hne e (hsub.subset he)⟩
  · obtain ⟨he, hne⟩ := (mem_pending_cancelTimeout h.sorted.coherent).mp he
    rw [outstanding, hitems]
    refine (List.mem_append.mp (h.on_way e he)).elim (fun hq => ?_) (List.mem_append_right _)
    exact List.mem_append_left _ (List.mem_filter.mpr ⟨hq, by simpa using hne⟩)

section Steps

variable [DecidableEq S] [Inhabited P] {op : Op S E} {r : Request S E}

omit [DecidableEq S] in
lemma Busy.argument (h : Busy c running σ) (p : Option ℕ) : Busy c running (σ.argument p).2 := by
  cases p
  · exact ⟨h.sorted.of_eq rfl rfl, h.nodup, h.used, h.waiting, h.pending⟩
  · exact h

lemma Busy.call (hc : c.ActionsKeepTimers) {d : ℕ} {p : Option ℕ} (h : Busy c none σ)
    (hop : op.call = some (d, p)) (hs : Step c op σ σ') : Busy c none σ' := by
  obtain ⟨l, w', hl, hnd, rfl⟩ := h.sorted.call hc hop hs
  have hτ := h.argument p
  rw [← put_world (σ.argument p).2 d (σ.argument p).1] at hτ
  exact hτ.put hl fun id now hm => absurd rfl (hnd _ hm id now)

/-- The dispatch of the worker's entry, which cancels it if it is still pending. -/
lemma Busy.deliver (hc : c.ActionsKeepTimers) (h : Busy c none σ) (hok : LeavesState σ σ')
    (hs : Deliver c σ σ') : Busy c none σ' := by
  obtain ⟨e, he, q, τ, hτ, l, w', hl, hnd, hleft, rfl⟩ := h.sorted.deliver hc hs
  have hperm : σ.outstanding.Perm (e :: (σ.timers.timeoutQueue.items ++ σ.pool)) := by
    rw [outstanding, he, Option.toList_some, ← List.append_assoc]
    exact List.perm_append_singleton e _
  have hnd' := List.nodup_cons.mp ((hperm.map (·.id)).nodup_iff.mp h.nodup)
  have hlt : e.id < σ.timers.nextId := h.used e (hperm.symm.subset List.mem_cons_self)
  have hout : ∀ e' ∈ σ.timers.timeoutQueue.items ++ σ.pool, e'.id ≠ e.id := fun e' he' heq =>
    hnd'.1 (List.mem_map.mpr ⟨e', he', heq⟩)
  -- without the worker's entry, which may be the only pending one that is not on its way
  have hidle : Busy c (some e) { σ with worker := none } := by
    have heq : ({ σ with worker := none } : System S T E P).outstanding
        = σ.timers.timeoutQueue.items ++ σ.pool := by simp [outstanding]
    refine ⟨h.sorted.of_eq rfl rfl, ?_, fun e' he' => ?_, fun d id now hd => ?_, fun e' he' => ?_⟩
    · rw [heq]
      exact hnd'.2
    · exact h.used e' (hperm.symm.subset (List.mem_cons_of_mem _ (heq ▸ he')))
    · obtain ⟨hlt, hne⟩ := h.waiting d id now hd
      exact ⟨hlt, fun e' he' =>
        hne e' (hperm.symm.subset (List.mem_cons_of_mem _ (heq ▸ he')))⟩
    · rw [heq]
      rcases List.mem_cons.mp (hperm.subset (h.on_way e' he')) with rfl | he'
      · exact Or.inr rfl
      · exact Or.inl he'
  obtain ⟨ht, -, htr, hpool, hworker⟩ := argument_frame { σ with worker := none } e.param
  have hτ' := hidle.argument e.param
  rw [← hτ] at hτ' ht htr hpool hworker
  simp only at hτ' ht htr hpool hworker
  rw [← put_world τ e.data q] at hτ'
  have hput := hτ'.put hl fun id now hm => by
    have hid : id = e.id := by
      rcases List.mem_append.mp hm with hm | hm
      · exact absurd rfl (hnd _ hm id now)
      · exact (Obs.dispatched.inj (List.mem_singleton.mp hm)).1
    rw [hid, put_world, outstanding, hpool, hworker, ht]
    exact ⟨hlt.trans_eq (by rw [world, ht]), fun e' he' => hout e' (by simpa using he')⟩
  refine ⟨hput.sorted, hput.nodup, hput.used, hput.waiting, fun e' he' => ?_⟩
  refine (hput.pending e' he').imp (fun h => h) fun heq => ?_
  obtain rfl := Option.some.inj heq
  have hold : e ∈ σ.timers.pendingEntries := by
    rcases hl.pending e he' with hp | hn
    · exact ht ▸ hp
    · have hid : σ.timers.nextId ≤ e.id := ht ▸ hn.id
      exact absurd hid (not_le.mpr hlt)
  obtain ⟨hlisted, hmark⟩ := hok e he hold
  have hsince : since σ (τ.put w') e.data = l ++ [.dispatched e.id σ.timers.now] := by
    have hdata : w'.dataId = e.data := hl.dataId
    refine since_eq ?_
    simp only [System.put, hdata, Function.update_self, hl.trace, world, htr]
  rw [hsince] at hmark
  have hl' : .deactivated e.state ∈ l := by simpa using hmark
  exact absurd (hleft e.state e.id hlisted hl') (hput.sorted.coherent.valid e he')

lemma Busy.step (hc : c.ActionsKeepTimers) (h : Busy c none σ) (hok : Ends (.op op) σ σ')
    (hs : Step c op σ σ') : Busy c none σ' := by
  cases op with
  | start d p => exact h.call hc rfl hs
  | restoreState s d p => exact h.call hc rfl hs
  | dispatch d e p => exact h.call hc rfl hs
  | tick ns =>
      obtain rfl := hs
      exact h.moves (h.sorted.tick ns) rfl rfl rfl (List.Subperm.refl _) h.on_way
  | expire =>
      obtain rfl := hs
      exact h.expire
  | check =>
      obtain rfl := hs
      exact h.check hok
  | deliver => exact h.deliver hc hok hs
  | work =>
      obtain ⟨-, ⟨-, rfl⟩ | hd⟩ := hs
      · exact h.check hok.1
      · exact (h.check hok.1).deliver hc hok.2 hd

omit [DecidableEq S] in
lemma Busy.share (h : Busy c none σ) (p : Shared) : Busy c none (σ.share p).2 := by
  cases p with
  | new => exact h.argument none
  | given p => exact h

lemma Busy.serves (hc : c.ActionsKeepTimers) (hs : Serves c r σ σ') (hok : Ends r σ σ')
    (h : Busy c none σ) : Busy c none σ' := by
  cases r with
  | op op => exact h.step hc hok hs
  | startAsynchron d p =>
      obtain rfl := hs
      have hτ := h.share p
      rw [← put_world (σ.share p).2 d 0] at hτ
      obtain ⟨l, hl, hnd⟩ := calls_enter hτ.sorted.of_put
      exact (hτ.put hl fun id now hm => absurd rfl (hnd _ hm id now)).submit d none _
  | dispatchAsynchron d e p =>
      obtain rfl := hs
      exact (h.share p).submit d e _
  | cancelTimeout entry =>
      obtain ⟨hentry, rfl⟩ := hs
      exact h.cancelTimeout hentry
  | shutdown => exact hok.elim
  | terminate => exact hok.elim

/-- **The pending list holds only outstanding work.** In every session in which the worker ends no
entry that stays pending, every pending entry is on its way, and was neither cancelled nor run. -/
theorem tidy_of_ends (hc : c.ActionsKeepTimers) {params : ℕ → P} {nextParam : ℕ}
    (h : Session c Ends (fresh params nextParam) σ) : Tidy σ := by
  have h₀ : Busy c none (fresh params nextParam : System S T E P) := by
    refine ⟨fun d p => ⟨⟨?_, ?_, ?_, ?_, ?_, ?_⟩, ?_, ?_⟩, ?_, ?_, ?_, ?_⟩ <;>
      simp [fresh, world, outstanding, Metadata.timeouts]
  exact (h.induction (fun r σ σ' hs hok hb => hb.serves hc hs hok) h₀).tidy

end Steps

end System

/-! ### An asynchronous call -/

namespace Forgetful

set_option maxRecDepth 4000 in
/-- **An entry that is never released.** The chart is started asynchronously; the worker runs the
entry, which stays pending. -/
theorem not_tidy : ∃ σ, System.Session (chart none)
    (fun r _ _ => ¬ r matches .shutdown | .terminate)
    initial σ ∧ ¬ System.Tidy σ := by
  have hstart : System.Session (chart none)
    (fun r _ _ => ¬ r matches .shutdown | .terminate) initial
      (initial.startAsynchron (chart none) 0 (.given (some 0))) :=
    .step (.startAsynchron 0 (.given (some 0))) (.refl _) rfl (by simp)
  refine ⟨_, hstart.execAll ?_ (rfl : System.execAll (chart none) 4 [.check, .deliver] _ = some _),
    ?_⟩
  · simp
  · intro h
    have hlen := h.length_le
    revert hlen
    decide

set_option maxRecDepth 4000 in
/-- The timer of a synchronous start is released when it has moved the chart to `b`. -/
theorem tidy_late : ∃ σ, System.Session (chart none) System.Ends initial σ
    ∧ (σ.stores 0).isActive .b = true ∧ System.Tidy σ := by
  have h₁ : ∀ {σ},
      System.execAll (chart none) 4 [.start 0 (some 0), .tick 100000000, .expire] initial
        = some σ → System.Session (chart none) System.Ends initial σ := fun h =>
    .execAll (.refl initial) (by simp [System.Ends]) h
  have h₂ := System.Session.step (.op .check) (h₁ rfl) rfl fun e pool _ hpool _ => by
    obtain ⟨rfl, -⟩ := List.cons.inj hpool
    rfl
  have h₃ : ∀ {σ}, System.exec (chart none) 4 _ .deliver = some σ → System.LeavesState _ σ →
      System.Session (chart none) System.Ends initial σ := fun he hok =>
    .step (.op .deliver) h₂ (System.step_of_exec he) hok
  have h₄ := h₃ rfl fun e he _ => by
    obtain rfl := Option.some.inj he
    exact ⟨by decide, List.mem_of_getElem? (rfl : _[2]? = some (Obs.deactivated St.a))⟩
  exact ⟨_, h₄, rfl, System.tidy_of_ends actionsKeepTimers h₄⟩

end Forgetful

end CppStatecharts
