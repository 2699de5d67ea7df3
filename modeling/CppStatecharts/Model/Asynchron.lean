import CppStatecharts.Model.System

/-!
The rest of a chart's interface (`Statechart.cpp`): asynchronous calls, the cancelling of an entry
by a client, and the shutdown.

* `System.share`: the parameter of an asynchronous call, which its entry owns.
* `System.dispatchAsynchron`, `System.startAsynchron`: an entry is left to the pool, or to the
  timeout queue; the latter enters the chart at once.
* `System.cancelTimeout`: `Statechart::cancelTimeout`, called by a client.
* `System.shutdown`, `System.terminate`: `Statechart::shutdown` before and after it waits for the
  threads.
* `Request`, `System.Serves`, `System.Session`: all that can happen, in any order.
-/

namespace CppStatecharts

/-- The parameter of an asynchronous call: a new one, or the pointer a client passes, which may be
null. -/
inductive Shared where
  | new
  | given (param : Option ℕ)
  deriving DecidableEq

/-- What can happen next. A shutdown has two steps, `shutdown` and `terminate`, with the last steps
of the threads between them. -/
inductive Request (S E : Type) where
  | op (op : Op S E)
  | startAsynchron (d : ℕ) (param : Shared)
  | dispatchAsynchron (d : ℕ) (e : Option E) (param : Shared)
  | cancelTimeout (entry : EventQueueEntry S E)
  | shutdown
  | terminate

namespace System

variable {S T E P : Type}

section

variable [Inhabited P]

/-- The parameter an asynchronous call works with. -/
def share (σ : System S T E P) : Shared → Option ℕ × System S T E P
  | .new => (some σ.nextParam, (σ.argument none).2)
  | .given p => (p, σ)

end

/-- The entry `Statechart::dispatchAsynchron` creates. -/
def newEntry (c : Chart S T E P) (σ : System S T E P) (d : ℕ) (e : Option E) (p : Option ℕ) :
    EventQueueEntry S E :=
  let ms := (e.bind c.timeout).getD 0
  { id := σ.timers.nextId, state := c.root, data := d, event := e, param := p,
    relativeTimeoutMs := ms, deadline := deadlineAfter σ.timers.now ms }

/-- `Statechart::dispatchAsynchron` with the pointer `p`, which does nothing once the chart is shut
down. A timeout event goes to the timeout queue, any other to the pool. -/
def submit (c : Chart S T E P) (d : ℕ) (e : Option E) (p : Option ℕ) (σ : System S T E P) :
    System S T E P :=
  if σ.timers.running then
    let entry := newEntry c σ d e p
    let tm := { σ.timers with
      pendingEntries := σ.timers.pendingEntries ++ [entry]
      nextId := σ.timers.nextId + 1 }
    if (e.bind c.timeout).isSome then
      { σ with timers := { tm with timeoutQueue := tm.timeoutQueue.add (·.deadline) entry } }
    else { σ with timers := tm, pool := σ.pool ++ [entry] }
  else σ

/-- A new entry is pending, and queued or with the pool. -/
lemma submit_cases (c : Chart S T E P) (d : ℕ) (e : Option E) (p : Option ℕ)
    (σ : System S T E P) : σ.timers.running = false ∧ σ.submit c d e p = σ
      ∨ σ.timers.running = true ∧ ∃ q pool, σ.submit c d e p = { σ with
          timers := { σ.timers with
            pendingEntries := σ.timers.pendingEntries ++ [newEntry c σ d e p]
            timeoutQueue := q
            nextId := σ.timers.nextId + 1 }
          pool := pool }
        ∧ (q = σ.timers.timeoutQueue.add (·.deadline) (newEntry c σ d e p) ∧ pool = σ.pool
          ∨ q = σ.timers.timeoutQueue ∧ pool = σ.pool ++ [newEntry c σ d e p]) := by
  unfold submit
  by_cases hrun : σ.timers.running = true
  · rw [if_pos hrun]
    refine Or.inr ⟨hrun, ?_⟩
    split
    · exact ⟨_, _, rfl, Or.inl ⟨rfl, rfl⟩⟩
    · exact ⟨_, _, rfl, Or.inr ⟨rfl, rfl⟩⟩
  · rw [if_neg hrun]
    exact Or.inl ⟨by simpa using hrun, rfl⟩

/-- `Statechart::cancelTimeout`, which notes the end of the entry. -/
def cancelTimeout (entry : EventQueueEntry S E) (σ : System S T E P) : System S T E P :=
  { σ with
    timers := σ.timers.cancelTimeout entry.id
    traces := Function.update σ.traces entry.data (.invalidated entry.id :: σ.traces entry.data) }

/-- `Statechart::shutdown` up to the point where it waits for the threads. From then on the pool
refuses every task. -/
def shutdown (σ : System S T E P) : System S T E P :=
  if σ.timers.running then
    { σ with timers := { σ.timers with
        running := false
        timeoutQueue := σ.timers.timeoutQueue.clear.stop } }
  else σ

/-- The end of `Statechart::shutdown`, which releases the pending entries. -/
def terminate (σ : System S T E P) : System S T E P :=
  { σ with timers := { σ.timers with pendingEntries := [] } }

variable [DecidableEq S] [Inhabited P] (c : Chart S T E P)

/-- `Statechart::dispatchAsynchron`. -/
def dispatchAsynchron (d : ℕ) (e : Option E) (p : Shared) (σ : System S T E P) : System S T E P :=
  (σ.share p).2.submit c d e (σ.share p).1

/-- `Statechart::startAsynchron`: the chart is entered at once, its first dispatch is left to the
pool. The parameter of the world is not used. -/
def startAsynchron (d : ℕ) (p : Shared) (σ : System S T E P) : System S T E P :=
  let τ := (σ.share p).2
  (τ.put (Statechart.enter c (τ.world d 0))).submit c d none (σ.share p).1

/-- One step. A client cancels an entry that still exists. In the source `terminate` comes after the
threads have been joined; here it may come at any time after `shutdown`. -/
def Serves : Request S E → System S T E P → System S T E P → Prop
  | .op op, σ, σ' => Step c op σ σ'
  | .startAsynchron d p, σ, σ' => σ' = σ.startAsynchron c d p
  | .dispatchAsynchron d e p, σ, σ' => σ' = σ.dispatchAsynchron c d e p
  | .cancelTimeout entry, σ, σ' =>
      entry ∈ σ.timers.pendingEntries ++ (σ.pool ++ σ.worker.toList) ∧ σ' = σ.cancelTimeout entry
  | .shutdown, σ, σ' => σ' = σ.shutdown
  | .terminate, σ, σ' => σ.timers.running = false ∧ σ' = σ.terminate

/-- A sequence of steps, each of which satisfies `ok`. -/
inductive Session (ok : Request S E → System S T E P → System S T E P → Prop) :
    System S T E P → System S T E P → Prop
  | refl (σ) : Session ok σ σ
  | step {σ σ₁ σ'} (r : Request S E) : Session ok σ σ₁ → Serves c r σ₁ σ' → ok r σ₁ σ' →
      Session ok σ σ'

variable {c} {ok : Request S E → System S T E P → System S T E P → Prop} {σ σ' : System S T E P}

/-- What every step preserves holds after every session. -/
lemma Session.induction {Q : System S T E P → Prop}
    (step : ∀ r σ σ', Serves c r σ σ' → ok r σ σ' → Q σ → Q σ')
    (h : Session c ok σ σ') (h₀ : Q σ) : Q σ' := by
  induction h with
  | refl => exact h₀
  | step r _ hs hok ih => exact step r _ _ hs hok ih

/-- A sequence of computed steps continues a session. -/
lemma Session.execAll {n : ℕ} {l : List (Op S E)} {σ₀ : System S T E P} (h : Session c ok σ₀ σ)
    (hok : ∀ op ∈ l, ∀ σ σ', ok (.op op) σ σ') (he : System.execAll c n l σ = some σ') :
    Session c ok σ₀ σ' := by
  induction l generalizing σ with
  | nil => exact Option.some.inj he ▸ h
  | cons op l ih =>
      obtain ⟨τ, h₁, h₂⟩ := Option.bind_eq_some_iff.mp he
      exact ih (.step (.op op) h (step_of_exec h₁) (hok op List.mem_cons_self _ _))
        (fun op' hop' => hok op' (List.mem_cons_of_mem _ hop')) h₂

end System

end CppStatecharts
