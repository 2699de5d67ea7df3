import Mathlib.Tactic

/-!
`ThreadPool.cpp`: the pool of worker threads. Each section that holds the mutex is one step, and so
is the end of a task.

* `ThreadPool`: the tasks that wait, the shutdown flag and where each worker stands.
* `ThreadPool.execute`, `ThreadPool.shutdown`, `ThreadPool.takeOrExit`, `ThreadPool.finishTask`: the
  steps. A step of a worker that cannot be taken changes nothing; in the source the thread waits.
* `PoolSession`: a pool in use, with what can be observed of it, oldest first. Two calls of
  `execute` may be given the same task, so a task is handed to the pool with the number of its call.
* `PoolSession.run`: any number of clients and workers, in any order.
-/

namespace CppStatecharts

/-- Where `ThreadPool::workerLoop` stands: before the section that takes a task, in a task, or
after the loop. -/
inductive Worker (α : Type) where
  | waiting
  | running (task : α)
  | exited

/-- A pool with `size` workers. -/
structure ThreadPool (α : Type) where
  size : ℕ
  tasks : List α := []
  isShutdown : Bool := false
  workers : ℕ → Worker α := fun _ => .waiting

namespace ThreadPool

variable {α : Type}

/-- The constructor, which makes at least one worker. -/
def new (threads : ℕ) : ThreadPool α := { size := if threads < 1 then 1 else threads }

/-- `ThreadPool::execute` with what it returns; the argument is null when the function is empty. -/
def execute (task : Option α) (p : ThreadPool α) : Bool × ThreadPool α :=
  match task with
  | none => (false, p)
  | some task =>
      if p.isShutdown then (false, p) else (true, { p with tasks := p.tasks ++ [task] })

/-- `ThreadPool::shutdown`. -/
def shutdown (p : ThreadPool α) : ThreadPool α := { p with isShutdown := true }

/-- The first section of a round of `workerLoop`, with the task it ends with: the worker takes the
first task, leaves the loop, or goes on waiting. -/
def takeOrExit (w : ℕ) (p : ThreadPool α) : Option α × ThreadPool α :=
  match p.workers w, p.tasks with
  | .waiting, task :: rest =>
      (some task, { p with
        tasks := rest
        workers := Function.update p.workers w (.running task) })
  | .waiting, [] =>
      (none, if p.isShutdown then { p with workers := Function.update p.workers w .exited } else p)
  | _, _ => (none, p)

/-- The end of the task a worker is in, with this task. An exception ends in the loop, too. -/
def finishTask (w : ℕ) (p : ThreadPool α) : Option α × ThreadPool α :=
  match p.workers w with
  | .running task => (some task, { p with workers := Function.update p.workers w .waiting })
  | _ => (none, p)

end ThreadPool

/-- What can be observed: a call of `execute` with its argument and its result, the beginning of a
task in a worker, and its end, normal or by an exception. -/
inductive PoolObs (α : Type) where
  | returned (call : ℕ) (task : Option α) (result : Bool)
  | taken (call : ℕ) (task : α)
  | finished (call : ℕ) (task : α) (threw : Bool)

/-- A pool in use: the number of calls of `execute` so far, and what was observed. -/
structure PoolSession (α : Type) where
  pool : ThreadPool (ℕ × α)
  calls : ℕ := 0
  log : List (PoolObs α) := []

/-- A step of a client or of a worker. -/
inductive PoolOp (α : Type) where
  | execute (task : Option α)
  | shutdown
  | takeOrExit (w : ℕ)
  | finishTask (w : ℕ) (threw : Bool)

namespace PoolSession

variable {α : Type}

def start (threads : ℕ) : PoolSession α := { pool := .new threads }

def step (s : PoolSession α) : PoolOp α → PoolSession α
  | .execute task =>
      let r := s.pool.execute (task.map (s.calls, ·))
      { pool := r.2, calls := s.calls + 1, log := s.log ++ [.returned s.calls task r.1] }
  | .shutdown => { s with pool := s.pool.shutdown }
  | .takeOrExit w =>
      if w < s.pool.size then
        let r := s.pool.takeOrExit w
        { s with pool := r.2, log := s.log ++ (r.1.map fun t => .taken t.1 t.2).toList }
      else s
  | .finishTask w threw =>
      let r := s.pool.finishTask w
      { s with pool := r.2, log := s.log ++ (r.1.map fun t => .finished t.1 t.2 threw).toList }

/-- Any sequence of steps. -/
def run (l : List (PoolOp α)) (s : PoolSession α) : PoolSession α := l.foldl step s

/-- The calls of `execute` that have returned, with their arguments and results. -/
def returned (s : PoolSession α) : List (ℕ × Option α × Bool) :=
  s.log.filterMap fun | .returned k task result => some (k, task, result) | _ => none

/-- The calls that have returned true, in this order, with their arguments. -/
def accepted (s : PoolSession α) : List (ℕ × Option α) :=
  (s.returned.filter fun r => r.2.2).map fun r => (r.1, r.2.1)

/-- What the workers have taken, in this order. -/
def taken (s : PoolSession α) : List (ℕ × α) :=
  s.log.filterMap fun | .taken k task => some (k, task) | _ => none

/-- What the workers have run to the end. -/
def finished (s : PoolSession α) : List (ℕ × α) :=
  s.log.filterMap fun | .finished k task _ => some (k, task) | _ => none

end PoolSession

end CppStatecharts
