import CppStatecharts.Model.Dispatch

/-!
`Statechart.cpp`: the synchronous interface of a chart.

* `Statechart.dispatch`: the pass that offers the event, followed by the completion loop, which
  offers the null event until a pass reports that nothing fired or the threshold is reached.
* `Statechart.start` and `Statechart.restoreState`.
* `Call`, `Statechart.call`, `Statechart.calls`: a client's sequence of calls, each with its own
  parameter.

As in `Chart.methods`, a function with argument `n` runs with at most `n` nested calls.
-/

namespace CppStatecharts

/-- `InfiniteLoopException`. -/
structure InfiniteLoopException where
  reason : String
  deriving DecidableEq, Repr

/-- How `Statechart::dispatch` comes back. -/
inductive Outcome where
  | returned (rc : Bool)
  | thrown (ex : InfiniteLoopException)
  deriving DecidableEq, Repr

namespace Statechart

variable {S T E P : Type} [DecidableEq S] (c : Chart S T E P) (n : ℕ)

/-- The exception `dispatch` throws, with its message. -/
def infiniteLoopException : InfiniteLoopException where
  reason := "Statechart <" ++ c.name ++ ">: more than " ++ toString c.infiniteLoopThreshold
    ++ " consecutive trigger-less transitions; the model very likely contains a cycle of "
    ++ "unguarded transitions. Use setInfiniteLoopThreshold() to raise the limit if this is "
    ++ "intentional."

/-- One pass: the event is offered to the current state of the chart. -/
def pass (e : Option E) : Comp (World S T E P) Bool := do
  match ← peek (·.data.current c.root) with
  | none => return false
  | some q => (c.methods n).dispatch q e

/-- The completion loop, with `fuel` the number of passes still to fire before the counter
`steps` reaches the threshold; tells whether it was reached. The threshold is positive. -/
def completionLoop : ℕ → Comp (World S T E P) Bool
  | 0 => return true
  | fuel + 1 => do if ← pass c n none then completionLoop fuel else return false

/-- The completion loop and how it is left, `rc` being the result of the pass before it. -/
def complete (rc : Bool) : Comp (World S T E P) Outcome := do
  if ← completionLoop c n c.infiniteLoopThreshold then return .thrown (infiniteLoopException c)
  else return .returned rc

/-- `Statechart::dispatch`. -/
def dispatch (e : Option E) : Comp (World S T E P) Outcome := do
  if ← peek fun w => (w.data.getData c.root).isSome then
    let rc ← pass c n e
    complete c n rc
  else return .returned false

/-- The part of `Statechart::start` before the dispatch. -/
def enter (w : World S T E P) : World S T E P :=
  let w := c.activateData c.root ((w.onData fun _ => .reset).log .reset)
  match c.startState c.root with
  | none => w
  | some st => c.activateData st w

/-- `Statechart::start`. -/
def start : Comp (World S T E P) Outcome := do
  modify (enter c)
  dispatch c n none

/-- The states from the chart down to `s`. -/
def restorePath (s : S) : List S := (c.forest.upFrom (c.depth s) s).reverse

/-- `Statechart::restoreState`. -/
def restoreState (s : S) : Comp (World S T E P) Bool := do
  if ← peek (·.data.isActive c.root) then return false
  else
    modify fun w => (w.onData fun _ => .reset).log .reset
    (restorePath c s).forM fun x => do let _ ← (c.methods n).activate x
    return true

end Statechart

/-- A call of a client, with the parameter it passes. -/
inductive Call (E P : Type) where
  | start (param : P)
  | dispatch (e : Option E) (param : P)

namespace Statechart

variable {S T E P : Type} [DecidableEq S] (c : Chart S T E P) (n : ℕ)

def call : Call E P → Comp (World S T E P) Outcome
  | .start p => do
      modify fun w => { w with param := p }
      start c n
  | .dispatch e p => do
      modify fun w => { w with param := p }
      dispatch c n e

/-- A sequence of calls, one after the other, whatever they return or throw. -/
def calls (l : List (Call E P)) : Comp (World S T E P) PUnit :=
  l.forM fun k => do let _ ← call c n k

end Statechart

end CppStatecharts
