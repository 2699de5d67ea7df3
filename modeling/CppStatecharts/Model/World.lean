import CppStatecharts.Library.Comp
import CppStatecharts.Model.Chart
import CppStatecharts.Model.DelayQueue

/-!
The state a call works on, and the elementary changes the code makes to it.

* `EventQueueEntry`, `Timers`: the entries of `EventQueueEntry.hpp` and the part of `Statechart`
  that keeps them, with `Timers.enqueueTimeout` and `Timers.cancelTimeout`.
* `Obs`: what a run leaves behind: the calls of the client's callbacks and of the observers, the
  fate of the timers, and marks for the firing of a transition, for the beginning and the end of the
  entry into a concurrent state, and for the branch of `HierarchicalState::dispatch` that offers
  an already handled event to the state itself.
* `World`: the metadata, the parameter and the timers of one call, with the record of
  observations, newest first.
* The queries `Chart.getActiveStates` and `Chart.isRunning` of the metadata.
* The elementary changes, from `World.perform` (a callback) and `Chart.activateData`
  (`Metadata::activate`) to `Chart.storeHistory` (`PseudoState::storeHistory`).
-/

namespace CppStatecharts

/-! ### Timers -/

/-- A queue entry. The flag `m_invalid`, the only part that changes, is kept in `Timers.invalid`. -/
structure EventQueueEntry (S E : Type) where
  id : ℕ
  state : S
  data : ℕ
  event : Option E
  param : Option ℕ
  relativeTimeoutMs : ℤ
  deadline : ℤ

/-- What a statechart keeps for its entries: `m_pendingEntries`, `m_timeoutQueue`, the identifiers
of the entries marked invalid, the identifier counter, the clock (in nanoseconds) and
`m_running`. -/
structure Timers (S E : Type) where
  pendingEntries : List (EventQueueEntry S E) := []
  timeoutQueue : DelayQueue (EventQueueEntry S E) := {}
  invalid : List ℕ := []
  nextId : ℕ := 1
  now : ℤ := 0
  running : Bool := true

/-- The value of a signed integer of 64 bits, which wraps around. -/
def int64 (n : ℤ) : ℤ := n.bmod (2 ^ 64)

/-- `std::chrono::steady_clock::now() + std::chrono::milliseconds{ms}`, in nanoseconds. -/
def deadlineAfter (now ms : ℤ) : ℤ := int64 (now + int64 (ms * 1000000))

lemma int64_le {n : ℤ} (h : 0 ≤ n) : int64 n ≤ n := by
  rw [int64, Int.bmod_def]
  split <;> omega

lemma le_int64 {n : ℤ} (h : n < 2 ^ 63) : n ≤ int64 n := by
  rw [int64, Int.bmod_def]
  split <;> omega

namespace Timers

variable {S E : Type}

/-- The entry `Statechart::enqueueTimeout` creates. -/
def newEntry (tm : Timers S E) (s : S) (data : ℕ) (ev : E) (param : ℕ) (ms : ℤ) :
    EventQueueEntry S E :=
  { id := tm.nextId, state := s, data := data, event := some ev, param := some param,
    relativeTimeoutMs := ms, deadline := deadlineAfter tm.now ms }

/-- `Statechart::enqueueTimeout`, which does nothing once the chart is shut down. -/
def enqueueTimeout (tm : Timers S E) (s : S) (data : ℕ) (ev : E) (param : ℕ) (ms : ℤ) :
    Timers S E :=
  if tm.running then
    let entry := tm.newEntry s data ev param ms
    { tm with
      pendingEntries := tm.pendingEntries ++ [entry]
      timeoutQueue := tm.timeoutQueue.add (·.deadline) entry
      nextId := tm.nextId + 1 }
  else tm

/-- `EventQueueEntry::markInvalid`. -/
def markInvalid (tm : Timers S E) (id : ℕ) : Timers S E := { tm with invalid := id :: tm.invalid }

/-- `Statechart::cancelTimeout`: the entry leaves the timeout queue only if it is still pending. -/
def cancelTimeout (tm : Timers S E) (id : ℕ) : Timers S E :=
  let tm := tm.markInvalid id
  if tm.pendingEntries.any (·.id == id) then
    { tm with
      timeoutQueue := tm.timeoutQueue.remove (·.id == id)
      pendingEntries := tm.pendingEntries.eraseP (·.id == id) }
  else tm

end Timers

/-! ### Observations -/

/-- What a run leaves behind. `activated` and `deactivated` are the notifications of the metadata's
observers, `entry` to `effect` the calls of the client's actions, `scheduled` to `dispatched` the
fate of the timer entries, with the clock and the delay. `fire` and `fired` enclose the execution of
a transition and carry the metadata before it and after it; `entering` and `entered` enclose
`ConcurrentState::activate`; `fallThrough s event` stands where `s` is offered what its substate has
handled, `event` telling whether that is an event. -/
inductive Obs (S T : Type) where
  | reset
  | activated (s : S)
  | deactivated (s : S)
  | entry (s : S)
  | doing (s : S)
  | exit (s : S)
  | effect (t : T)
  | scheduled (id : ℕ) (s : S) (now delay : ℤ)
  | invalidated (id : ℕ)
  | dispatched (id : ℕ) (now : ℤ)
  | fire (t : T) (before : Metadata S)
  | fired (t : T) (before after : Metadata S)
  | entering (n : S)
  | entered (n : S)
  | fallThrough (s : S) (event : Bool)

/-! ### The world of a call -/

/-- The metadata and the parameter of a call, the timers of the chart and the observations made on
this metadata, newest first. `dataId` and `paramId` are the addresses of the first two. -/
structure World (S T E P : Type) where
  data : Metadata S
  param : P
  timers : Timers S E
  trace : List (Obs S T)
  dataId : ℕ
  paramId : ℕ

namespace World

variable {S T E P : Type}

/-- A new metadata, on which no call was made yet. -/
def fresh (param : P) : World S T E P :=
  { data := .reset, param, timers := {}, trace := [], dataId := 0, paramId := 0 }

def log (w : World S T E P) (o : Obs S T) : World S T E P := { w with trace := o :: w.trace }

/-- Calls a client's action, if there is one. -/
def perform (o : Obs S T) (a : Option (Action S P)) (w : World S T E P) : World S T E P :=
  match a with
  | none => w
  | some f => { w with data := (f w.data w.param).1, param := (f w.data w.param).2 }.log o

/-- A change of the metadata alone. -/
def onData (f : Metadata S → Metadata S) (w : World S T E P) : World S T E P :=
  { w with data := f w.data }

end World

namespace Chart

variable {S T E P : Type} [DecidableEq S] (c : Chart S T E P)

/-- `dynamic_cast<FinalState*>` of a pointer that may be null. -/
def isFinal : Option S → Bool
  | none => false
  | some s => c.kind s = .finalState

/-- `Metadata::activate`, which notifies the observers. -/
def activateData (s : S) (w : World S T E P) : World S T E P :=
  (w.onData (·.activate (c.context s) s)).log (.activated s)

/-- `Metadata::deactivate`, which notifies the observers unless the state is a history. -/
def deactivateData (s : S) (w : World S T E P) : World S T E P :=
  match w.data.getData s with
  | none => w
  | some _ =>
      let w' := w.onData (·.deactivate (c.kind s).isHistory s)
      if (c.kind s).isHistory then w' else w'.log (.deactivated s)

/-- The states with an entry in `m_activeStates`. -/
def activeStates (m : Metadata S) : List S :=
  (c.root :: c.ownedStates).filter fun s => (m.getData s).isSome

/-- `Metadata::getActiveStates`: the states with an entry. -/
def getActiveStates (m : Metadata S) : List S := c.activeStates m

/-- `Metadata::isRunning`, a loop over the states with an entry. -/
def isRunning (m : Metadata S) : Bool :=
  (c.activeStates m).foldl (fun running s =>
    if c.kind s = .statechart then running
    else if (c.kind s).isPseudo then running
    else running && !decide (c.kind s = .finalState)) true

/-- Adds a region to the set of a concurrent state whose default entry is to be skipped. -/
def registerRegion (n r : S) (w : World S T E P) : World S T E P :=
  w.onData fun m => (m.createRuntimedata n).modify n fun d =>
    if r ∈ d.stateset then d else { d with stateset := d.stateset ++ [r] }

/-- Every pair of a concurrent state and the state after it in an entry list, registered. -/
def registerRegions (l : List S) (w : World S T E P) : World S T E P :=
  (l.zip l.tail).foldl
    (fun w p => if c.kind p.1 = .concurrentState then registerRegion p.1 p.2 w else w) w

def clearStateset (n : S) (w : World S T E P) : World S T E P :=
  w.onData (·.modify n fun d => { d with stateset := [] })

def clearCurrent (s : S) (w : World S T E P) : World S T E P :=
  w.onData (·.modify s fun d => { d with currentState := none })

/-- One round of the loop of `State::activate` over the transitions: a timeout transition is
scheduled, unless the chart is shut down. -/
def scheduleTimeout (s : S) (w : World S T E P) (t : T) : World S T E P :=
  match (c.event t).bind fun ev => (c.timeout ev).map fun ms => (ev, ms) with
  | none => w
  | some (ev, ms) =>
      if w.timers.running then
        { w with
          data := w.data.modify s fun d =>
            { d with timeoutEvents := d.timeoutEvents ++ [w.timers.nextId] }
          timers := w.timers.enqueueTimeout s w.dataId ev w.paramId ms
          trace := .scheduled w.timers.nextId s w.timers.now ms :: w.trace }
      else w

def scheduleTimeouts (s : S) (w : World S T E P) : World S T E P :=
  (c.transitions s).foldl (c.scheduleTimeout s) w

/-- One round of the loop of `State::deactivate` over the timeout entries: `markInvalid` and
`cancelTimeout`. -/
def cancelEntry (w : World S T E P) (id : ℕ) : World S T E P :=
  { w with
    timers := (w.timers.markInvalid id).cancelTimeout id
    trace := .invalidated id :: w.trace }

def cancelTimeouts (s : S) (w : World S T E P) : World S T E P :=
  (w.data.timeouts s).foldl cancelEntry w

/-- `calculateHistoryChain`, cut after `n` states. The recursion follows the current states down
the tree; it goes on forever exactly when it visits a state twice, so it cannot be cut at more than
the number of states. -/
def calculateHistoryChain (m : Metadata S) (type : PseudoStateType) : ℕ → Option S → Option (List S)
  | _, none => some []
  | 0, some _ => none
  | n + 1, some s =>
      if type = .history then some [s]
      else if c.kind s = .hierarchicalState then
        (calculateHistoryChain m type n (m.current s)).map (s :: ·)
      else some [s]

/-- The depth of the deepest state. -/
def maxDepth : ℕ := (c.ownedStates.map c.depth).foldr max 0

/-- More than the number of states of a way down the tree, and than the number of states. -/
def chainBound : ℕ := c.ownedStates.length + 1 + c.maxDepth

/-- `PseudoState::storeHistory` of the history `h`; it does nothing when `h` has no record. -/
def storeHistory (h : S) : Comp (World S T E P) PUnit := fun w =>
  match w.data.getData h, c.context h, c.kind h with
  | some _, some p, .pseudoState type =>
      (c.calculateHistoryChain w.data type c.chainBound (w.data.current p)).map fun chain =>
        (⟨⟩, w.onData (·.modify h fun d => { d with stateset := chain }))
  | _, _, _ => some (⟨⟩, w)

end Chart

end CppStatecharts
