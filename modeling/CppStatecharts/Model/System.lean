import CppStatecharts.Model.Statechart

/-!
One chart at work for several clients: its metadata and parameters in memory, the timeout queue, and
the single worker of its pool (`Statechart.cpp`, `EventQueueEntry.cpp`).

* `System`: what the calls and the two threads share.
* `System.expire`: one round of `Statechart::timeoutLoop`, which hands an expired entry to the pool.
* `System.check`, `System.Deliver`: the two parts of `EventQueueEntry::run`, the tests made without
  the mutex of the metadata and the dispatch made under it.
* `Op`, `System.Step`, `System.Run`: the calls of the clients and the steps of the threads, in any
  order. A call is taken as one step, although the source holds the mutex of the metadata in
  `Statechart::dispatch` alone.
* `System.exec`: the steps, computed.
-/

namespace CppStatecharts

variable {S T E P : Type}

/-- The state shared by the clients and the threads of one chart. Metadata and parameters are found
by their addresses; `nextParam` is the address of the next parameter the library creates itself.
`pool` is the queue of the thread pool, and `worker` the entry whose tests have succeeded and whose
dispatch is still to come. -/
structure System (S T E P : Type) where
  timers : Timers S E := {}
  stores : ℕ → Metadata S := fun _ => .reset
  traces : ℕ → List (Obs S T) := fun _ => []
  params : ℕ → P
  nextParam : ℕ
  pool : List (EventQueueEntry S E) := []
  worker : Option (EventQueueEntry S E) := none

namespace System

/-- The world of a call on the metadata at `d` with the parameter at `p`. -/
def world (σ : System S T E P) (d p : ℕ) : World S T E P where
  data := σ.stores d
  param := σ.params p
  timers := σ.timers
  trace := σ.traces d
  dataId := d
  paramId := p

/-- The system after a call has left the world `w`. -/
def put (σ : System S T E P) (w : World S T E P) : System S T E P :=
  { σ with
    timers := w.timers
    stores := Function.update σ.stores w.dataId w.data
    traces := Function.update σ.traces w.dataId w.trace
    params := Function.update σ.params w.paramId w.param }

/-- The parameter a call works with: the one it is given, or else a new one. -/
def argument [Inhabited P] (σ : System S T E P) : Option ℕ → ℕ × System S T E P
  | some p => (p, σ)
  | none => (σ.nextParam, { σ with
      params := Function.update σ.params σ.nextParam default
      nextParam := σ.nextParam + 1 })

/-- One round of `Statechart::timeoutLoop`: an entry whose deadline has passed leaves the queue and
goes to the pool, unless it is invalid. -/
def expire (σ : System S T E P) : System S T E P :=
  if σ.timers.running then
    match σ.timers.timeoutQueue.take (·.deadline) σ.timers.now with
    | some (some entry, q) =>
        let σ := { σ with timers := { σ.timers with timeoutQueue := q } }
        if entry.id ∈ σ.timers.invalid then σ else { σ with pool := σ.pool ++ [entry] }
    | _ => σ
  else σ

/-- The idle worker takes an entry from the pool and makes the tests of `EventQueueEntry::run`. -/
def check (σ : System S T E P) : System S T E P :=
  match σ.worker, σ.pool with
  | none, entry :: pool =>
      if entry.id ∉ σ.timers.invalid ∧ (σ.stores entry.data).isActive entry.state = true then
        { σ with pool, worker := some entry }
      else { σ with pool }
  | _, _ => σ

variable [DecidableEq S] [Inhabited P] (c : Chart S T E P)

/-- A call on the metadata at `d`, with the parameter `p`. -/
def Invokes {α : Type} (f : ℕ → Comp (World S T E P) α) (d : ℕ) (p : Option ℕ)
    (σ σ' : System S T E P) : Prop :=
  ∃ a w', Returned f ((σ.argument p).2.world d (σ.argument p).1) a w'
    ∧ σ' = (σ.argument p).2.put w'

/-- The worker dispatches the event of its entry, whatever the outcome. -/
def Deliver (σ σ' : System S T E P) : Prop :=
  ∃ entry, σ.worker = some entry ∧
    Invokes (fun n => do
      modify (·.log (.dispatched entry.id σ.timers.now))
      Statechart.dispatch c n entry.event) entry.data entry.param { σ with worker := none } σ'

end System

/-- What can happen next: a call of a client, the passing of time, or a step of a thread. `work` is
the whole of `EventQueueEntry::run`, `check` and `deliver` its two parts. -/
inductive Op (S E : Type) where
  | start (d : ℕ) (param : Option ℕ)
  | restoreState (s : S) (d p : ℕ)
  | dispatch (d : ℕ) (e : Option E) (param : Option ℕ)
  | tick (ns : ℕ)
  | expire
  | check
  | deliver
  | work

namespace System

variable [DecidableEq S] [Inhabited P] (c : Chart S T E P)

/-- One step. -/
def Step : Op S E → System S T E P → System S T E P → Prop
  | .start d p, σ, σ' => Invokes (Statechart.start c) d p σ σ'
  | .restoreState s d p, σ, σ' => Invokes (fun n => Statechart.restoreState c n s) d (some p) σ σ'
  | .dispatch d e p, σ, σ' => Invokes (fun n => Statechart.dispatch c n e) d p σ σ'
  | .tick ns, σ, σ' => σ' = { σ with timers := { σ.timers with now := σ.timers.now + ns } }
  | .expire, σ, σ' => σ' = σ.expire
  | .check, σ, σ' => σ' = σ.check
  | .deliver, σ, σ' => Deliver c σ σ'
  | .work, σ, σ' => σ.worker = none
      ∧ (σ.check.worker = none ∧ σ' = σ.check ∨ Deliver c σ.check σ')

/-- A sequence of steps, each of which satisfies `ok`. -/
inductive Run (ok : Op S E → System S T E P → System S T E P → Prop) :
    System S T E P → System S T E P → Prop
  | refl (σ) : Run ok σ σ
  | step {σ σ₁ σ'} (op : Op S E) : Run ok σ σ₁ → Step c op σ₁ σ' → ok op σ₁ σ' → Run ok σ σ'

/-- A chart that was just built, with the parameters its clients have. -/
def fresh (params : ℕ → P) (nextParam : ℕ) : System S T E P := { params, nextParam }

variable {c} {ok : Op S E → System S T E P → System S T E P → Prop} {σ σ' : System S T E P}

/-! ### Running the system -/

variable (c) in
/-- What a call leaves, computed with at most `n` nested calls. -/
def invoke {α : Type} (f : ℕ → Comp (World S T E P) α) (n d : ℕ) (p : Option ℕ)
    (σ : System S T E P) : Option (System S T E P) :=
  ((f n).run ((σ.argument p).2.world d (σ.argument p).1)).map fun r => (σ.argument p).2.put r.2

variable (c) in
/-- What the dispatch of the worker's entry leaves. -/
def deliver (n : ℕ) (σ : System S T E P) : Option (System S T E P) :=
  σ.worker.bind fun entry =>
    invoke (fun n => do
      modify (·.log (.dispatched entry.id σ.timers.now))
      Statechart.dispatch c n entry.event) n entry.data entry.param { σ with worker := none }

variable (c) in
/-- What a step leaves, computed with at most `n` nested calls. -/
def exec (n : ℕ) (σ : System S T E P) : Op S E → Option (System S T E P)
  | .start d p => invoke (Statechart.start c) n d p σ
  | .restoreState s d p => invoke (fun n => Statechart.restoreState c n s) n d (some p) σ
  | .dispatch d e p => invoke (fun n => Statechart.dispatch c n e) n d p σ
  | .tick ns => some { σ with timers := { σ.timers with now := σ.timers.now + ns } }
  | .expire => some σ.expire
  | .check => some σ.check
  | .deliver => deliver c n σ
  | .work =>
      if σ.worker.isNone then
        if σ.check.worker.isNone then some σ.check else deliver c n σ.check
      else none

variable (c) in
def execAll (n : ℕ) : List (Op S E) → System S T E P → Option (System S T E P)
  | [], σ => some σ
  | op :: l, σ => (exec c n σ op).bind (execAll n l)

omit [DecidableEq S] in
lemma invokes_of_invoke {α : Type} {f : ℕ → Comp (World S T E P) α} {n d : ℕ} {p : Option ℕ}
    (h : invoke f n d p σ = some σ') : Invokes f d p σ σ' := by
  obtain ⟨⟨a, w'⟩, hr, rfl⟩ := Option.map_eq_some_iff.mp h
  exact ⟨a, w', ⟨n, hr⟩, rfl⟩

lemma deliver_of_deliver {n : ℕ} (h : deliver c n σ = some σ') : Deliver c σ σ' := by
  obtain ⟨entry, he, hi⟩ := Option.bind_eq_some_iff.mp h
  exact ⟨entry, he, invokes_of_invoke hi⟩

/-- What is computed is a step. -/
lemma step_of_exec {n : ℕ} {op : Op S E} (h : exec c n σ op = some σ') : Step c op σ σ' := by
  cases op with
  | start d p => exact invokes_of_invoke h
  | restoreState s d p => exact invokes_of_invoke h
  | dispatch d e p => exact invokes_of_invoke h
  | tick ns => exact (Option.some.inj h).symm
  | expire => exact (Option.some.inj h).symm
  | check => exact (Option.some.inj h).symm
  | deliver => exact deliver_of_deliver h
  | work =>
      simp only [exec, Option.isNone_iff_eq_none] at h
      split at h
      · rename_i hw
        split at h
        · rename_i hc
          exact ⟨hw, Or.inl ⟨hc, (Option.some.inj h).symm⟩⟩
        · exact ⟨hw, Or.inr (deliver_of_deliver h)⟩
      · cases h

/-- A sequence of computed steps continues a run. -/
lemma Run.execAll {n : ℕ} {l : List (Op S E)} {σ₀ : System S T E P} (hr : Run c ok σ₀ σ)
    (hok : ∀ op ∈ l, ∀ σ σ', ok op σ σ') (h : execAll c n l σ = some σ') : Run c ok σ₀ σ' := by
  induction l generalizing σ with
  | nil => exact Option.some.inj h ▸ hr
  | cons op l ih =>
      obtain ⟨τ, h₁, h₂⟩ := Option.bind_eq_some_iff.mp h
      exact ih (.step op hr (step_of_exec h₁) (hok op List.mem_cons_self _ _))
        (fun op' hop' => hok op' (List.mem_cons_of_mem _ hop')) h₂

/-- What every step preserves holds after every run. -/
lemma Run.induction {Q : System S T E P → Prop}
    (step : ∀ op σ σ', Step c op σ σ' → ok op σ σ' → Q σ → Q σ')
    (h : Run c ok σ σ') (h₀ : Q σ) : Q σ' := by
  induction h with
  | refl => exact h₀
  | step op _ hs hok ih => exact step op _ _ hs hok ih

/-! ### What is still to come -/

/-- The entries that are queued, handed to the pool, or about to be dispatched. -/
def outstanding (σ : System S T E P) : List (EventQueueEntry S E) :=
  σ.timers.timeoutQueue.items ++ (σ.pool ++ σ.worker.toList)

variable {w : World S T E P} {e : EventQueueEntry S E}

omit [DecidableEq S] [Inhabited P] in
@[simp] lemma put_world (σ : System S T E P) (d p : ℕ) : σ.put (σ.world d p) = σ := by
  simp [put, world]

omit [DecidableEq S] [Inhabited P] in
lemma mem_outstanding_put : e ∈ (σ.put w).outstanding
    ↔ e ∈ w.timers.timeoutQueue.items ∨ e ∈ σ.pool ++ σ.worker.toList := List.mem_append

omit [DecidableEq S] in
/-- The choice of a parameter concerns nothing but the parameters. -/
lemma argument_frame (σ : System S T E P) (p : Option ℕ) :
    (σ.argument p).2.timers = σ.timers ∧ (σ.argument p).2.stores = σ.stores
      ∧ (σ.argument p).2.traces = σ.traces ∧ (σ.argument p).2.pool = σ.pool
      ∧ (σ.argument p).2.worker = σ.worker := by
  cases p <;> exact ⟨rfl, rfl, rfl, rfl, rfl⟩

omit [DecidableEq S] in
/-- What a call leaves, the choice of its parameter apart. -/
lemma Invokes.cases {α : Type} {f : ℕ → Comp (World S T E P) α} {d : ℕ} {p : Option ℕ}
    (h : Invokes f d p σ σ') : ∃ q τ n a w', σ.argument p = (q, τ)
      ∧ (τ.timers = σ.timers ∧ τ.stores = σ.stores ∧ τ.traces = σ.traces ∧ τ.pool = σ.pool
        ∧ τ.worker = σ.worker)
      ∧ Returns (f n) (τ.world d q) a w' ∧ σ' = τ.put w' := by
  obtain ⟨a, w', ⟨n, hn⟩, rfl⟩ := h
  exact ⟨_, _, n, a, w', rfl, argument_frame σ p, hn, rfl⟩

/-- The worker marks the dispatch of its entry, and makes it. -/
lemma Deliver.cases (h : Deliver c σ σ') : ∃ e q τ n o w', σ.worker = some e
    ∧ ({ σ with worker := none } : System S T E P).argument e.param = (q, τ)
    ∧ (τ.timers = σ.timers ∧ τ.stores = σ.stores ∧ τ.traces = σ.traces ∧ τ.pool = σ.pool
      ∧ τ.worker = none)
    ∧ Returns (Statechart.dispatch c n e.event)
      ((τ.world e.data q).log (.dispatched e.id σ.timers.now)) o w'
    ∧ σ' = τ.put w' := by
  obtain ⟨e, he, hi⟩ := h
  obtain ⟨q, τ, n, o, w', hτ, hframe, hn, rfl⟩ := hi.cases
  obtain ⟨⟨⟩, w₁, h₁, h₂⟩ := returns_bind.mp hn
  exact ⟨e, q, τ, n, o, w', he, hτ, hframe, returns_modify.mp h₁ ▸ h₂, rfl⟩

section Put

variable {Q R : ℕ → Metadata S → List (Obs S T) → Prop} {A B : List (Obs S T) → Prop}

omit [DecidableEq S] [Inhabited P] in
/-- A part of a call, which leaves `v` for `w`, concerns one metadata. -/
lemma forall_put (σ : System S T E P) (w v : World S T E P) (hd : v.dataId = w.dataId)
    (h : ∀ d, Q d ((σ.put w).stores d) ((σ.put w).traces d))
    (hself : Q w.dataId w.data w.trace → R w.dataId v.data v.trace)
    (hother : ∀ d ≠ w.dataId, ∀ m tr, Q d m tr → R d m tr) (d : ℕ) :
    R d ((σ.put v).stores d) ((σ.put v).traces d) := by
  have hq := h d
  simp only [put] at hq ⊢
  by_cases hdw : d = w.dataId
  · subst hdw
    rw [Function.update_self, Function.update_self] at hq
    rw [hd, Function.update_self, Function.update_self]
    exact hself hq
  · rw [Function.update_of_ne hdw, Function.update_of_ne hdw] at hq
    rw [hd, Function.update_of_ne hdw, Function.update_of_ne hdw]
    exact hother d hdw _ _ hq

omit [DecidableEq S] [Inhabited P] in
lemma forall_traces_put (σ : System S T E P) (w v : World S T E P) (hd : v.dataId = w.dataId)
    (h : ∀ d, A ((σ.put w).traces d)) (hself : A w.trace → B v.trace) (hother : ∀ tr, A tr → B tr) :
    ∀ d, B ((σ.put v).traces d) :=
  forall_put (Q := fun _ _ => A) (R := fun _ _ => B) σ w v hd h hself fun _ _ _ => hother

end Put

omit [DecidableEq S] [Inhabited P] in
/-- The tests of the worker only move entries. -/
lemma check_frame (σ : System S T E P) : σ.check.timers = σ.timers ∧ σ.check.stores = σ.stores
    ∧ σ.check.traces = σ.traces
    ∧ ∀ e ∈ σ.check.pool ++ σ.check.worker.toList, e ∈ σ.pool ++ σ.worker.toList := by
  unfold System.check
  split
  · rename_i entry pool hworker hpool
    refine ⟨by split <;> rfl, by split <;> rfl, by split <;> rfl, fun e he => ?_⟩
    split at he
    · simpa [hpool, hworker, or_comm] using he
    · have he : e ∈ pool := by simpa [hworker] using he
      simp [hpool, he]
  · exact ⟨rfl, rfl, rfl, fun e he => he⟩

omit [DecidableEq S] [Inhabited P] in
lemma outstanding_check : ∀ e ∈ σ.check.outstanding, e ∈ σ.outstanding := by
  obtain ⟨ht, -, -, hsub⟩ := check_frame σ
  intro e he
  rcases List.mem_append.mp he with he | he
  · rw [ht] at he
    exact List.mem_append_left _ he
  · exact List.mem_append_right _ (hsub e he)

omit [DecidableEq S] [Inhabited P] in
/-- What has passed the tests is valid. -/
lemma check_worker (hw : σ.worker = none) (he : σ.check.worker = some e) :
    e.id ∉ σ.timers.invalid := by
  unfold System.check at he
  split at he
  · split at he
    · rename_i hok
      obtain rfl := Option.some.inj he
      exact hok.1
    · rw [hw] at he
      cases he
  · rw [hw] at he
    cases he

omit [DecidableEq S] [Inhabited P] in
/-- A busy worker makes no tests. -/
lemma check_of_worker (hw : σ.worker = some e) : σ.check = σ := by
  simp [System.check, hw]

omit [DecidableEq S] [Inhabited P] in
/-- The timeout thread only moves entries, to the pool when they are due. -/
lemma expire_frame (σ : System S T E P) : σ.expire.stores = σ.stores
    ∧ σ.expire.traces = σ.traces ∧ σ.expire.timers.invalid = σ.timers.invalid
    ∧ σ.expire.timers.nextId = σ.timers.nextId ∧ σ.expire.timers.now = σ.timers.now
    ∧ σ.expire.worker = σ.worker ∧ (∀ e ∈ σ.expire.outstanding, e ∈ σ.outstanding)
    ∧ ∀ e ∈ σ.expire.pool ++ σ.expire.worker.toList,
      e ∈ σ.pool ++ σ.worker.toList ∨ e.deadline ≤ σ.timers.now := by
  have hsame : ∀ e ∈ σ.outstanding, e ∈ σ.outstanding := fun _ h => h
  unfold System.expire
  split
  swap
  · exact ⟨rfl, rfl, rfl, rfl, rfl, rfl, hsame, fun _ => Or.inl⟩
  split
  swap
  · exact ⟨rfl, rfl, rfl, rfl, rfl, rfl, hsame, fun _ => Or.inl⟩
  rename_i entry q hq
  obtain ⟨hmem, hdl, hsub⟩ := DelayQueue.of_take hq
  simp only
  split
  · refine ⟨rfl, rfl, rfl, rfl, rfl, rfl, fun e he => ?_, fun _ => Or.inl⟩
    exact (List.mem_append.mp he).elim (fun he => List.mem_append_left _ (hsub e he))
      (List.mem_append_right _)
  · refine ⟨rfl, rfl, rfl, rfl, rfl, rfl, fun e he => ?_, fun e he => ?_⟩
    · simp only [outstanding, List.mem_append, List.mem_singleton] at he ⊢
      rcases he with he | (he | rfl) | he
      · exact Or.inl (hsub e he)
      · exact Or.inr (Or.inl he)
      · exact Or.inl hmem
      · exact Or.inr (Or.inr he)
    · simp only [List.mem_append, List.mem_singleton] at he ⊢
      rcases he with (he | rfl) | he
      · exact Or.inl (Or.inl he)
      · exact Or.inr hdl
      · exact Or.inl (Or.inr he)

end System

end CppStatecharts
