import CppStatecharts.Threads.Asynchrony
import CppStatecharts.Timers.Filing

/-!
The entries of a chart as people in a line, whatever the client's actions do.

* `System.line`: the entry of the worker, the pool and the timeout queue; `System.dispatches`: the
  entries dispatched so far on one metadata.
* `System.Shows`: the system is that line, and the records of the metadata are those of its service.
  Every step of a session is a number of steps of the line (`Shows.serves`).
* `System.served_once`: no entry is dispatched twice, or before its deadline, or elsewhere.
* `System.not_overtaken`: no entry is overtaken.
-/

namespace CppStatecharts

variable {S T E P : Type}

namespace System

/-- The entries in the order in which they are to be dispatched. -/
def line (σ : System S T E P) : List (EventQueueEntry S E) :=
  σ.worker.toList ++ (σ.pool ++ σ.timers.timeoutQueue.items)

/-- The entries dispatched on the metadata at `d`, with the times, oldest first. -/
def dispatches (σ : System S T E P) (d : ℕ) : List (ℕ × ℤ) :=
  (σ.traces d).reverse.filterMap Obs.dispatch?

/-- A line of entries. -/
abbrev Service (S E : Type) : Type :=
  Line (fun e : EventQueueEntry S E => e.id) fun e => e.deadline

/-- The entries stand in the line, and every metadata has recorded its part of the service. -/
structure Shows (σ : System S T E P) (L : Service S E) : Prop where
  next : L.next = σ.timers.nextId
  now : L.now = σ.timers.now
  waiting : L.waiting = σ.line
  served : ∀ d, σ.dispatches d
    = (L.served.filter fun p => decide (p.1.data = d)).map fun p => (p.1.id, p.2)
  clock : 0 ≤ σ.timers.now
  due : ∀ e ∈ σ.worker.toList ++ σ.pool, e.deadline ≤ σ.timers.now
  queued : σ.timers.Queued

variable {σ σ' τ : System S T E P} {L L' : Service S E} {w w' : World S T E P}
variable {e e' : EventQueueEntry S E} {d d' : ℕ} {q : ℕ × ℤ} {now now' : ℤ}

lemma mem_line : e ∈ σ.line ↔ e ∈ σ.outstanding := by
  simp only [line, outstanding, List.mem_append]
  tauto

lemma Shows.nodup (h : Shows σ L) : (σ.line.map (·.id)).Nodup := by
  have hnd := L.nodup
  rw [List.map_append, List.nodup_append, h.waiting] at hnd
  exact hnd.2.1

lemma Shows.used (h : Shows σ L) : ∀ e ∈ σ.line, e.id < σ.timers.nextId := fun e he =>
  h.next ▸ L.used e (List.mem_append_right _ (h.waiting ▸ he))

lemma Shows.mem_dispatches (h : Shows σ L) : q ∈ σ.dispatches d
    ↔ ∃ e now, (e, now) ∈ L.served ∧ e.data = d ∧ (e.id, now) = q := by
  rw [h.served, List.mem_map]
  constructor
  · rintro ⟨⟨e, now⟩, hp, rfl⟩
    obtain ⟨hp, hd⟩ := List.mem_filter.mp hp
    exact ⟨e, now, hp, by simpa using hd, rfl⟩
  · rintro ⟨e, now, hp, hd, rfl⟩
    exact ⟨(e, now), List.mem_filter.mpr ⟨hp, by simpa using hd⟩, rfl⟩

/-- A mark with the number of an entry that stood in the line is a mark of this entry. -/
lemma Shows.served_of_mem (h' : Shows σ' L') (hL : L.Advances L') (he : e ∈ L.waiting)
    (hm : (e.id, now) ∈ σ'.dispatches d) : (e, now) ∈ L'.served ∧ e.data = d := by
  obtain ⟨e₁, now₁, hp, hd, heq⟩ := h'.mem_dispatches.mp hm
  obtain ⟨hid, rfl⟩ := Prod.mk.inj heq
  obtain rfl := hL.eq_of_number (List.mem_append_right _ he) (Line.mem_history_of_served hp) hid
  exact ⟨hp, hd⟩

/-- The entry `e` is to be dispatched before `e'`: it is nearer to the worker, or both are queued
and it comes first there. -/
def Ahead (σ : System S T E P) (e e' : EventQueueEntry S E) : Prop :=
  [e, e'].Sublist (σ.worker.toList ++ σ.pool)
    ∨ e ∈ σ.worker.toList ++ σ.pool ∧ e' ∈ σ.timers.timeoutQueue.items
    ∨ e ∈ σ.timers.timeoutQueue.items ∧ e' ∈ σ.timers.timeoutQueue.items ∧ e.Precedes e'

lemma Shows.pair_of_ahead (h : Shows σ L) (ha : σ.Ahead e e') : [e, e'].Sublist L.waiting := by
  rw [h.waiting, line, ← List.append_assoc]
  rcases ha with ha | ⟨he, he'⟩ | ⟨he, he', hp⟩
  · exact ha.trans (List.sublist_append_left _ _)
  · exact (List.singleton_sublist.mpr he).append (List.singleton_sublist.mpr he')
  · refine List.Sublist.trans ?_ (List.sublist_append_right _ _)
    have hne : e ≠ e' := by
      rintro rfl
      exact hp.asymm hp
    -- in a list ordered by a relation, two members stand as the relation says
    obtain ⟨l₁, l₂, hl⟩ := List.append_of_mem he
    have hranked := h.queued.ranked
    rw [hl] at hranked he' ⊢
    rcases List.mem_append.mp he' with he' | he'
    · exact absurd ((List.pairwise_append.mp hranked).2.2 e' he' e List.mem_cons_self) hp.asymm
    · have he' := (List.mem_cons.mp he').resolve_left hne.symm
      exact ((List.singleton_sublist.mpr he').cons_cons e).trans (List.sublist_append_right _ _)

/-- The line is renewed. -/
lemma Shows.renew (h : Shows σ L) (hn : σ.timers.nextId ≤ σ'.timers.nextId)
    (ht : σ.timers.now ≤ σ'.timers.now)
    (hl : Renews (·.id) σ.timers.nextId σ.line σ'.line) (hnd : (σ'.line.map (·.id)).Nodup)
    (hused : ∀ e ∈ σ'.line, e.id < σ'.timers.nextId)
    (hd : ∀ d, σ'.dispatches d = σ.dispatches d)
    (hdue : ∀ e ∈ σ'.worker.toList ++ σ'.pool, e.deadline ≤ σ'.timers.now)
    (hq : σ'.timers.Queued) : ∃ L', L.Step L' ∧ Shows σ' L' := by
  rw [← h.next, ← h.waiting] at hl
  rw [← h.next] at hn
  rw [← h.now] at ht
  exact ⟨_, .renew L hn ht hl hnd hused, rfl, rfl, rfl, fun d => (hd d).trans (h.served d),
    h.clock.trans (h.now ▸ ht), hdue, hq⟩

/-- Entries leave. -/
lemma Shows.leave (h : Shows σ L) (hs : σ'.line.Sublist σ.line)
    (hn : σ'.timers.nextId = σ.timers.nextId) (ht : σ.timers.now ≤ σ'.timers.now)
    (hd : ∀ d, σ'.dispatches d = σ.dispatches d)
    (hdue : ∀ e ∈ σ'.worker.toList ++ σ'.pool, e.deadline ≤ σ'.timers.now)
    (hq : σ'.timers.timeoutQueue.items.Sublist σ.timers.timeoutQueue.items) :
    ∃ L', L.Step L' ∧ Shows σ' L' :=
  h.renew hn.ge ht (.of_sublist hs) (h.nodup.sublist (hs.map _))
    (fun e he => hn ▸ h.used e (hs.subset he)) hd hdue (h.queued.sublist hq hn)

/-! ### Calls -/

lemma dispatches_put (hs : w.Adds (fun o => o.dispatch? = none) w') (hd : w'.dataId = w.dataId)
    (d : ℕ) : (σ.put w').dispatches d = (σ.put w).dispatches d := by
  obtain ⟨l, hl, hnone⟩ := hs
  by_cases hdd : d = w.dataId
  · subst hdd
    have hnil : l.reverse.filterMap Obs.dispatch? = [] :=
      List.filterMap_eq_nil_iff.mpr fun o ho => hnone o (List.mem_reverse.mp ho)
    simp [dispatches, put, hd, hl, hnil]
  · simp [dispatches, put, hd, hdd]

/-- A part of a call that dispatches no entry. -/
lemma Shows.put (h : Shows (σ.put w) L) (hs : w.Files w') :
    ∃ L', L.Step L' ∧ Shows (σ.put w') L' := by
  have hline : ∀ v : World S T E P,
      (σ.put v).line = (σ.worker.toList ++ σ.pool) ++ v.timers.timeoutQueue.items := fun v =>
    (List.append_assoc _ _ _).symm
  have hq := hs.timers.queued h.queued
  have hused : ∀ e ∈ σ.worker.toList ++ σ.pool, e.id < w.timers.nextId := fun e he =>
    h.used e (hline w ▸ List.mem_append_left _ he)
  have hnd := h.nodup
  rw [hline, List.map_append, List.nodup_append] at hnd
  refine h.renew hs.timers.nextId hs.timers.now.ge ?_ ?_ ?_ (dispatches_put hs.trace hs.dataId)
    (fun e he => (h.due e he).trans_eq hs.timers.now.symm) hq
  · rw [hline, hline]
    exact hs.timers.renews.append _
  · rw [hline, List.map_append, List.nodup_append]
    refine ⟨hnd.1, hq.nodup, fun i hi j hj hij => ?_⟩
    obtain ⟨e, he, rfl⟩ := List.mem_map.mp hi
    obtain ⟨e', he', rfl⟩ := List.mem_map.mp hj
    -- an entry of the queue with an old number was queued before
    have hold : e' ∈ w.timers.timeoutQueue.items :=
      hs.timers.renews.mem he' (hij ▸ hused e he)
    exact hnd.2.2 _ hi _ (List.mem_map_of_mem hold) hij
  · intro e he
    rw [hline] at he
    rcases List.mem_append.mp he with he | he
    · exact (hused e he).trans_le hs.timers.nextId
    · exact hq.used e he

lemma Shows.argument [Inhabited P] (h : Shows σ L) (p : Option ℕ) :
    Shows (σ.argument p).2 L := by
  cases p with
  | none => exact ⟨h.next, h.now, h.waiting, h.served, h.clock, h.due, h.queued⟩
  | some p => exact h

/-! ### The threads -/

lemma line_expire (σ : System S T E P) : σ.expire.line.Sublist σ.line := by
  rcases expire_cases σ with he | ⟨e, q, -, hitems, he⟩
  · rw [he]
  · rw [he]
    simp only [line, hitems]
    split
    · exact ((List.sublist_cons_self e _).append_left _).append_left _
    · rw [List.append_assoc σ.pool, List.singleton_append]

lemma line_check (σ : System S T E P) : σ.check.line.Sublist σ.line := by
  unfold System.check
  split
  · rename_i e pool hworker hpool
    split
    · simp [line, hworker, hpool]
    · simp only [line, hworker, hpool, Option.toList_none, List.nil_append, List.cons_append]
      exact List.sublist_cons_self e _
  · exact List.Sublist.refl _

lemma items_expire (σ : System S T E P) :
    σ.expire.timers.timeoutQueue.items.Sublist σ.timers.timeoutQueue.items := by
  rcases expire_cases σ with he | ⟨e, q, -, hitems, he⟩
  · rw [he]
  · rw [he, hitems]
    exact List.sublist_cons_self e _

lemma Shows.expire (h : Shows σ L) : ∃ L', L.Step L' ∧ Shows σ.expire L' := by
  obtain ⟨-, htr, -, hn, hnow, -, -, hdue⟩ := expire_frame σ
  refine h.leave (line_expire σ) hn hnow.ge (fun d => by rw [dispatches, htr]; rfl) (fun e he => ?_)
    (items_expire σ)
  rw [hnow]
  exact (hdue e (List.mem_append.mpr (List.mem_append.mp he).symm)).elim
    (fun he => h.due e (List.mem_append.mpr (List.mem_append.mp he).symm)) id

lemma Shows.check (h : Shows σ L) : ∃ L', L.Step L' ∧ Shows σ.check L' := by
  obtain ⟨ht, -, htr, hsub⟩ := check_frame σ
  refine h.leave (line_check σ) (by rw [ht]) (by rw [ht]) (fun d => by rw [dispatches, htr]; rfl)
    (fun e he => ?_) (by rw [ht])
  rw [ht]
  exact h.due e (List.mem_append.mpr
    (List.mem_append.mp (hsub e (List.mem_append.mpr (List.mem_append.mp he).symm))).symm)

/-- The worker dispatches the first of the line. -/
lemma Shows.mark [Inhabited P] {q : ℕ} (h : Shows σ L) (he : σ.worker = some e)
    (hτ : (q, τ) = ({ σ with worker := none } : System S T E P).argument e.param) :
    ∃ L', L.Step L'
      ∧ Shows (τ.put ((τ.world e.data q).log (.dispatched e.id σ.timers.now))) L' := by
  have hline : L.waiting = e :: (σ.pool ++ σ.timers.timeoutQueue.items) := by
    rw [h.waiting, line, he]
    rfl
  have hdue : e.deadline ≤ L.now := by
    rw [h.now]
    exact h.due e (by simp [he])
  obtain ⟨ht, -, htr, hpool, hworker⟩ :=
    argument_frame ({ σ with worker := none } : System S T E P) e.param
  rw [← hτ] at ht htr hpool hworker
  simp only at ht htr hpool hworker
  refine ⟨_, .serve L hline hdue, h.next.trans (by simp [System.put, world, World.log, ht]),
    h.now.trans (by simp [System.put, world, World.log, ht]), ?_, fun d => ?_, ?_, fun e' he' => ?_,
    ?_⟩
  · simp [Line.serve, line, System.put, world, World.log, ht, hpool, hworker]
  · have hσ := h.served d
    by_cases hd : e.data = d
    · subst hd
      have hmark : (τ.put
          ((τ.world e.data q).log (.dispatched e.id σ.timers.now))).dispatches e.data
            = σ.dispatches e.data ++ [(e.id, σ.timers.now)] := by
        simp [dispatches, System.put, world, World.log, htr, Obs.dispatch?]
      simp [hmark, hσ, Line.serve, h.now]
    · have hsame : (τ.put ((τ.world e.data q).log (.dispatched e.id σ.timers.now))).dispatches d
          = σ.dispatches d := by
        simp [dispatches, System.put, world, World.log, htr, Ne.symm hd]
      simp [hsame, hσ, Line.serve, hd]
  · simpa [System.put, world, World.log, ht] using h.clock
  · have hp : e' ∈ σ.pool := by simpa [System.put, hpool, hworker] using he'
    have := h.due e' (List.mem_append_right _ hp)
    simpa [System.put, world, World.log, ht] using this
  · simpa [System.put, world, World.log, ht] using h.queued

/-! ### Every request -/

lemma Shows.submit (h : Shows σ L) (c : Chart S T E P) (d : ℕ) (e : Option E) (p : Option ℕ) :
    ∃ L', L.Step L' ∧ Shows (σ.submit c d e p) L' := by
  unfold System.submit
  split
  swap
  · exact h.leave (List.Sublist.refl _) rfl le_rfl (fun _ => rfl) h.due (List.Sublist.refl _)
  simp only
  set entry := newEntry c σ d e p with hentry
  -- the new entry has stepped into the line
  have hstep : ∀ σ' : System S T E P, ∀ l₁ l₂, σ.line = l₁ ++ l₂ → σ'.line = l₁ ++ entry :: l₂ →
      σ'.timers.nextId = σ.timers.nextId + 1 → σ'.timers.now = σ.timers.now →
      σ'.traces = σ.traces → (∀ e ∈ σ'.worker.toList ++ σ'.pool, e.deadline ≤ σ.timers.now) →
      σ'.timers.Queued → ∃ L', L.Step L' ∧ Shows σ' L' := by
    intro σ' l₁ l₂ hl hl' hn hnow htr hdue hq
    have hperm : σ'.line.Perm (entry :: σ.line) := by
      rw [hl, hl']
      exact List.perm_middle
    refine h.renew (hn ▸ Nat.le_succ _) hnow.ge ?_ ?_ (fun e' he' => ?_)
      (fun d => by rw [dispatches, htr]; rfl) (hnow ▸ hdue) hq
    · rw [hl, hl']
      refine Renews.insert ?_ l₁ l₂
      exact le_rfl
    · rw [(hperm.map _).nodup_iff, List.map_cons, List.nodup_cons]
      refine ⟨fun hm => ?_, h.nodup⟩
      obtain ⟨e', he', heq⟩ := List.mem_map.mp hm
      exact (h.used e' he').ne heq
    · rw [hn]
      rcases List.mem_cons.mp (hperm.subset he') with rfl | he'
      · exact Nat.lt_succ_self _
      · exact (h.used e' he').trans (Nat.lt_succ_self _)
  split
  · obtain ⟨l₁, l₂, hl, hadd⟩ := DelayQueue.exists_items_add (·.deadline) σ.timers.timeoutQueue
      entry
    refine hstep _ (σ.worker.toList ++ (σ.pool ++ l₁)) l₂ ?_ ?_ rfl rfl rfl h.due
      (h.queued.add rfl rfl rfl)
    · rw [line, hl, List.append_assoc, List.append_assoc]
    · simp [line, hadd]
  · rename_i hnone
    refine hstep _ (σ.worker.toList ++ σ.pool) σ.timers.timeoutQueue.items ?_ ?_ rfl rfl rfl ?_ ?_
    · rw [line, List.append_assoc]
    · simp [line]
    · intro e' he'
      rw [← List.append_assoc, List.mem_append, List.mem_singleton] at he'
      rcases he' with he' | rfl
      · exact h.due e' he'
      · have hms : e.bind c.timeout = none := by simpa using hnone
        simpa [hentry, newEntry, hms, deadlineAfter, int64] using int64_le h.clock
    · exact ⟨h.queued.nodup, fun e he => (h.queued.used e he).trans (Nat.lt_succ_self _),
        h.queued.ranked⟩

lemma Shows.cancelTimeout (h : Shows σ L) (entry : EventQueueEntry S E) :
    ∃ L', L.Step L' ∧ Shows (σ.cancelTimeout entry) L' := by
  have hs : (σ.cancelTimeout entry).timers.timeoutQueue.items.Sublist
      σ.timers.timeoutQueue.items := by
    unfold System.cancelTimeout Timers.cancelTimeout
    simp only
    split
    · exact List.eraseP_sublist
    · exact List.Sublist.refl _
  have ht := Timers.Refiles.cancelTimeout σ.timers entry.id
  have hn : (σ.cancelTimeout entry).timers.nextId = σ.timers.nextId := by
    unfold System.cancelTimeout Timers.cancelTimeout
    simp only
    split <;> rfl
  refine h.leave ((hs.append_left _).append_left _) hn ht.now.ge (fun d => ?_)
    (fun e he => (h.due e he).trans_eq ht.now.symm) hs
  by_cases hd : d = entry.data
  · subst hd
    simp [dispatches, System.cancelTimeout, Obs.dispatch?]
  · simp [dispatches, System.cancelTimeout, hd]

lemma Shows.shutdown (h : Shows σ L) : ∃ L', L.Step L' ∧ Shows σ.shutdown L' := by
  unfold System.shutdown
  split
  · exact h.leave (((List.nil_sublist _).append_left _).append_left _) rfl le_rfl (fun _ => rfl)
      h.due (List.nil_sublist _)
  · exact h.leave (List.Sublist.refl _) rfl le_rfl (fun _ => rfl) h.due (List.Sublist.refl _)

section Steps

variable [DecidableEq S] [Inhabited P] {c : Chart S T E P} {op : Op S E} {r : Request S E}
variable {ok ok' : Request S E → System S T E P → System S T E P → Prop}

open Relation (ReflTransGen)

lemma Shows.deliver (h : Shows σ L) (hs : Deliver c σ σ') :
    ∃ L', ReflTransGen Line.Step L L' ∧ Shows σ' L' := by
  obtain ⟨e, q, τ, n, o, w', he, hτ, -, h₂, rfl⟩ := hs.cases
  obtain ⟨L₁, hL₁, hm⟩ := h.mark he hτ.symm
  have hf := files_dispatch h₂
  obtain ⟨L', hL', hσ'⟩ := hm.put hf
  exact ⟨L', .tail (.single hL₁) hL', hσ'⟩

lemma Shows.call (h : Shows σ L) {p : Option ℕ} (hop : op.call = some (d, p))
    (hs : Step c op σ σ') : ∃ L', L.Step L' ∧ Shows σ' L' := by
  obtain ⟨w', hw, rfl⟩ := files_call hop hs
  have hτ := h.argument p
  rw [← put_world (σ.argument p).2 d (σ.argument p).1] at hτ
  exact hτ.put hw

lemma Shows.step (h : Shows σ L) (hs : Step c op σ σ') :
    ∃ L', ReflTransGen Line.Step L L' ∧ Shows σ' L' := by
  have hone : (∃ L', L.Step L' ∧ Shows σ' L') → ∃ L', ReflTransGen Line.Step L L' ∧ Shows σ' L' :=
    fun h => h.imp fun _ hL => ⟨.single hL.1, hL.2⟩
  cases op with
  | start d p => exact hone (h.call rfl hs)
  | restoreState s d p => exact hone (h.call rfl hs)
  | dispatch d e p => exact hone (h.call rfl hs)
  | tick ns =>
      obtain rfl := hs
      have hle : σ.timers.now ≤ σ.timers.now + ns := by omega
      exact hone (h.leave (List.Sublist.refl _) rfl hle (fun _ => rfl)
        (fun e he => (h.due e he).trans hle) (List.Sublist.refl _))
  | expire =>
      obtain rfl := hs
      exact hone h.expire
  | check =>
      obtain rfl := hs
      exact hone h.check
  | deliver => exact h.deliver hs
  | work =>
      obtain ⟨-, ⟨-, rfl⟩ | hd⟩ := hs
      · exact hone h.check
      · obtain ⟨L₁, hL₁, h₁⟩ := h.check
        obtain ⟨L', hL', hσ'⟩ := h₁.deliver hd
        exact ⟨L', .head hL₁ hL', hσ'⟩

omit [DecidableEq S] in
lemma Shows.share (h : Shows σ L) (p : Shared) : Shows (σ.share p).2 L := by
  cases p with
  | new => exact h.argument none
  | given p => exact h

/-- **Every step of the system is a number of steps of the line.** -/
lemma Shows.serves (h : Shows σ L) (hs : Serves c r σ σ') :
    ∃ L', ReflTransGen Line.Step L L' ∧ Shows σ' L' := by
  have hone : (∃ L', L.Step L' ∧ Shows σ' L') → ∃ L', ReflTransGen Line.Step L L' ∧ Shows σ' L' :=
    fun h => h.imp fun _ hL => ⟨.single hL.1, hL.2⟩
  cases r with
  | op op => exact h.step hs
  | startAsynchron d p =>
      obtain rfl := hs
      have hτ := h.share p
      rw [← put_world (σ.share p).2 d 0] at hτ
      obtain ⟨L₁, hL₁, h₁⟩ := hτ.put (files_enter (c := c) _)
      obtain ⟨L', hL', hσ'⟩ := h₁.submit c d none (σ.share p).1
      exact ⟨L', .tail (.single hL₁) hL', hσ'⟩
  | dispatchAsynchron d e p =>
      obtain rfl := hs
      exact hone ((h.share p).submit c d e _)
  | cancelTimeout entry =>
      obtain ⟨-, rfl⟩ := hs
      exact hone (h.cancelTimeout entry)
  | shutdown =>
      obtain rfl := hs
      exact hone h.shutdown
  | terminate =>
      obtain ⟨-, rfl⟩ := hs
      exact ⟨L, .refl, h.next, h.now, h.waiting, h.served, h.clock, h.due,
        h.queued.sublist (List.Sublist.refl _) rfl⟩

/-- So is every session. -/
lemma Shows.session (h : Shows σ L) (hs : Session c ok σ σ') :
    ∃ L', ReflTransGen Line.Step L L' ∧ Shows σ' L' := by
  induction hs with
  | refl => exact ⟨L, .refl, h⟩
  | step r _ hr _ ih =>
      obtain ⟨L₁, hL₁, h₁⟩ := ih
      obtain ⟨L', hL', hσ'⟩ := h₁.serves hr
      exact ⟨L', hL₁.trans hL', hσ'⟩

omit [DecidableEq S] [Inhabited P] in
/-- At the beginning nobody stands in the line. -/
lemma shows_fresh (params : ℕ → P) (nextParam : ℕ) :
    Shows (fresh params nextParam : System S T E P)
      { next := 1, now := 0, nodup := by simp, used := by simp, due_le := by simp,
        le_now := by simp, sorted := .nil } :=
  ⟨rfl, rfl, rfl, fun _ => rfl, le_rfl, by simp [fresh], ⟨by simp [fresh], by simp [fresh], .nil⟩⟩

lemma exists_shows {params : ℕ → P} {nextParam : ℕ}
    (h : Session c ok (fresh params nextParam) σ) : ∃ L, Shows σ L := by
  obtain ⟨L, -, hL⟩ := (shows_fresh params nextParam).session h
  exact ⟨L, hL⟩

/-! ### Once, in time, in order -/

variable {params : ℕ → P} {nextParam : ℕ}

/-- What a session does to the line. -/
lemma exists_advances (h : Session c ok (fresh params nextParam) σ) (h' : Session c ok' σ σ') :
    ∃ L L', Shows σ L ∧ Shows σ' L' ∧ L.Advances L' := by
  obtain ⟨L, hL⟩ := exists_shows h
  obtain ⟨L', hs, hL'⟩ := hL.session h'
  exact ⟨L, L', hL, hL', Line.advances_of_steps hs⟩

/-- **Once, in time, in its place.** An entry that is on its way at some time has not been
dispatched later on; or it has been dispatched once, on its own metadata, when it was due, and is
not on its way any more. -/
theorem served_once (h : Session c ok (fresh params nextParam) σ) (h' : Session c ok' σ σ')
    (he : e ∈ σ.outstanding) : (∀ d, ∀ q ∈ σ'.dispatches d, q.1 ≠ e.id)
      ∨ ∃ now, e.deadline ≤ now ∧ σ.timers.now ≤ now ∧ now ≤ σ'.timers.now ∧ e ∉ σ'.outstanding
        ∧ ∀ d, ((σ'.dispatches d).filter fun q => decide (q.1 = e.id))
          = if d = e.data then [(e.id, now)] else [] := by
  obtain ⟨L, L', hσ, hσ', hL⟩ := exists_advances h h'
  have hwait : e ∈ L.waiting := hσ.waiting ▸ mem_line.mpr he
  by_cases hserved : ∃ now, (e, now) ∈ L'.served
  · obtain ⟨now, hp⟩ := hserved
    refine Or.inr ⟨now, L'.due_le _ hp, ?_, hσ'.now ▸ L'.le_now _ hp, fun hout => ?_, fun d => ?_⟩
    · refine hσ.now ▸ (hL.since _ hp).resolve_left fun hold => ?_
      exact Line.notMem_waiting hold hwait
    · exact Line.notMem_waiting hp (hσ'.waiting ▸ mem_line.mpr hout)
    · have hfilter := Line.filter_served hp
      rw [hσ'.served, List.filter_map, List.filter_filter]
      have hcomm : (L'.served.filter fun p => decide (p.1.id = e.id) && decide (p.1.data = d))
          = [(e, now)].filter fun p => decide (p.1.data = d) := by
        rw [← hfilter, List.filter_filter]
        exact List.filter_congr fun p _ => Bool.and_comm _ _
      simp only [Function.comp_def]
      rw [hcomm]
      by_cases hd : d = e.data
      · simp [hd]
      · simp [hd, Ne.symm hd]
  · refine Or.inl fun d ⟨id, now⟩ hq hid => hserved ⟨now, ?_⟩
    obtain rfl : id = e.id := hid
    exact (hσ'.served_of_mem hL hwait hq).1

/-- **No overtaking.** Once an entry has been dispatched, those that were ahead of it are not on
their way any more; those of them that have been dispatched, were dispatched before it. -/
theorem not_overtaken (h : Session c ok (fresh params nextParam) σ) (h' : Session c ok' σ σ')
    (ha : σ.Ahead e e') (hd : (e'.id, now') ∈ σ'.dispatches d') : e ∉ σ'.outstanding
      ∧ ∀ d now, (e.id, now) ∈ σ'.dispatches d → now ≤ now'
        ∧ (d = d' → [(e.id, now), (e'.id, now')].Sublist (σ'.dispatches d)) := by
  obtain ⟨L, L', hσ, hσ', hL⟩ := exists_advances h h'
  have hpair := hσ.pair_of_ahead ha
  obtain ⟨hp', hd'⟩ := hσ'.served_of_mem hL (hpair.subset (by simp)) hd
  obtain ⟨hnot, hbefore⟩ := hL.precedes hpair hp'
  refine ⟨fun hout => hnot (hσ'.waiting ▸ mem_line.mpr hout), fun d now hm => ?_⟩
  obtain ⟨hp, hdata⟩ := hσ'.served_of_mem hL (hpair.subset List.mem_cons_self) hm
  obtain ⟨hle, hsub⟩ := hbefore now hp
  refine ⟨hle, fun hdd => ?_⟩
  have hfilter := (hsub.filter fun p => decide (p.1.data = d)).map fun p => (p.1.id, p.2)
  rw [← hσ'.served] at hfilter
  simpa [hdata, hd', hdd] using hfilter

end Steps

end System

namespace Forgetful

/-- The timer of `a`. -/
def timer : EventQueueEntry St Event :=
  { id := 1, state := .a, data := 0, event := some (.timeoutEvent 0 1 100), param := some 0,
    relativeTimeoutMs := 100, deadline := 100000000 }

/-- A request for the null event. -/
def request (id : ℕ) : EventQueueEntry St Event :=
  { id, state := .chart, data := 0, event := none, param := some 0, relativeTimeoutMs := 0,
    deadline := 0 }

/-- Any request at any time. -/
abbrev Anything : Request St Event → System St Tr Event Unit → System St Tr Event Unit → Prop :=
  fun _ _ _ => True

/-- Computed steps, after those before and on their own. -/
lemma session_of_execAll (l : List (Op St Event)) {τ σ σ' : System St Tr Event Unit}
    (h : System.Session (chart none) Anything τ σ)
    (he : System.execAll (chart none) 4 l σ = some σ') :
    System.Session (chart none) Anything τ σ' ∧ System.Session (chart none) Anything σ σ' :=
  ⟨h.execAll (fun _ _ _ _ => trivial) he, .execAll (.refl σ) (fun _ _ _ _ => trivial) he⟩

set_option maxRecDepth 4000 in
/-- The timer of `a` is dispatched once, 100 milliseconds later. -/
theorem served_once_late : ∃ σ σ', System.Session (chart none) Anything initial σ
    ∧ System.Session (chart none) Anything σ σ' ∧ timer ∈ σ.outstanding
    ∧ ∃ now, 100000000 ≤ now ∧ σ.timers.now ≤ now ∧ now ≤ σ'.timers.now ∧ timer ∉ σ'.outstanding
      ∧ ∀ d, ((σ'.dispatches d).filter fun q => decide (q.1 = 1))
        = if d = 0 then [(1, now)] else [] := by
  obtain ⟨h, -⟩ := session_of_execAll [.start 0 (some 0)] (.refl initial) rfl
  obtain ⟨-, h'⟩ := session_of_execAll [.tick 100000000, .expire, .check, .deliver] h rfl
  have hmem : timer ∈ [timer] := List.mem_cons_self
  have hmark : ((1 : ℕ), (100000000 : ℤ)) ∈ [((1 : ℕ), (100000000 : ℤ))] := List.mem_cons_self
  exact ⟨_, _, h, h', hmem,
    (System.served_once h h' hmem).resolve_left fun hno => hno 0 (1, 100000000) hmark rfl⟩

set_option maxRecDepth 4000 in
/-- Of two requests for the null event, the first one is dispatched first. -/
theorem not_overtaken_null : ∃ σ σ', System.Session (chart none) Anything initial σ
    ∧ System.Session (chart none) Anything σ σ' ∧ σ.Ahead (request 2) (request 3)
    ∧ (3, 0) ∈ σ'.dispatches 0 ∧ request 2 ∉ σ'.outstanding
    ∧ [(2, 0), (3, 0)].Sublist (σ'.dispatches 0) := by
  obtain ⟨h₁, -⟩ := session_of_execAll [.start 0 (some 0)] (.refl initial) rfl
  have h₂ := System.Session.step (.dispatchAsynchron 0 none (.given (some 0))) h₁ rfl trivial
  have h := System.Session.step (.dispatchAsynchron 0 none (.given (some 0))) h₂ rfl trivial
  obtain ⟨-, h'⟩ := session_of_execAll [.check, .deliver, .check, .deliver] h rfl
  have hpool : ∀ {σ}, System.Session (chart none) Anything initial σ →
      σ.worker.toList ++ σ.pool = [request 2, request 3] → σ.Ahead (request 2) (request 3) :=
    fun _ hp => Or.inl (hp ▸ List.Sublist.refl _)
  have hahead := hpool h rfl
  have hlast : ∀ {σ σ'}, System.Session (chart none) Anything σ σ' →
      σ'.dispatches 0 = [(2, 0), (3, 0)] →
        ((request 2).id, 0) ∈ σ'.dispatches 0 ∧ ((request 3).id, 0) ∈ σ'.dispatches 0 :=
    fun _ hd => by simp [hd, request]
  obtain ⟨hd₂, hd₃⟩ := hlast h' rfl
  obtain ⟨hout, hbefore⟩ := System.not_overtaken h h' hahead hd₃
  exact ⟨_, _, h, h', hahead, hd₃, hout, (hbefore 0 0 hd₂).2 rfl⟩

end Forgetful

end CppStatecharts
