import CppStatecharts.Model.World

/-!
The virtual methods of the states (`State.cpp`, `HierarchicalState.cpp`, `ConcurrentState.cpp`,
`PseudoState.cpp`, `Transition.cpp`, `InternalTransition.cpp`).

The methods call each other through virtual dispatch without any bound on the recursion. They are
written here with the methods they call as a parameter, a table `Methods`, and the recursion is tied
by iterating `Chart.step`: `Chart.methods n` runs with at most `n` nested calls and fails to
return when it would need more. A call returns in the source when some `n` makes it return here.

An internal transition runs the same code as an external one with empty lists (`Chart.deactivates`,
`Chart.activates`), so `Transition.execute` and `Transition.allowed` serve both classes.
-/

namespace CppStatecharts

/-- The methods that are reached by virtual dispatch. -/
structure Methods (S T E P : Type) where
  lookup : S → Comp (World S T E P) Bool
  activate : S → Comp (World S T E P) Bool
  deactivate : S → Comp (World S T E P) PUnit
  dispatch : S → Option E → Comp (World S T E P) Bool

variable {S T E P : Type} [DecidableEq S] (c : Chart S T E P) (v : Methods S T E P)

/-! ### Transitions -/

/-- The two tests of `Transition::execute` on the trigger. -/
def Transition.triggered (t : T) (e : Option E) (w : World S T E P) : Bool :=
  match c.event t with
  | none => true
  | some ev => c.equals ev e w.data w.param && e.isSome

/-- A guard that is absent or holds. -/
def Transition.guardHolds (t : T) (w : World S T E P) : Bool :=
  match c.guard t with
  | none => true
  | some g => g w.data w.param

/-- `Transition::allowed`: the guard holds, and a pseudo-state at the end of the transition can be
left again. -/
def Transition.allowed (t : T) : Comp (World S T E P) Bool := do
  if ← peek (Transition.guardHolds c t) then
    match (c.activates t).getLast? with
    | none => return true
    | some s => if (c.kind s).isPseudo then v.lookup s else return true
  else return false

/-- The loop of `Transition::execute` over the entry list. A concurrent state is told which region
comes next, so that it skips the default entry of that region. -/
def Transition.activateAll : List S → Comp (World S T E P) PUnit
  | [] => return ⟨⟩
  | [s] => do let _ ← v.activate s
  | s :: r :: rest => do
      if c.kind s = .concurrentState then modify (Chart.registerRegion s r)
      let _ ← v.activate s
      Transition.activateAll (r :: rest)

/-- What `Transition::execute` does once the transition is known to fire. -/
def Transition.fire (t : T) : Comp (World S T E P) PUnit := do
  let before ← peek (·.data)
  modify (·.log (.fire t before))
  (c.deactivates t).forM v.deactivate
  modify (World.perform (.effect t) (c.action t))
  Transition.activateAll c v (c.activates t)
  modify fun w => w.log (.fired t before w.data)

/-- `Transition::execute`. -/
def Transition.execute (t : T) (e : Option E) : Comp (World S T E P) Bool := do
  if ← peek (Transition.triggered c t e) then
    if ← Transition.allowed c v t then
      Transition.fire c v t
      return true
    else return false
  else return false

/-! ### `State` -/

def State.activate (s : S) : Comp (World S T E P) Bool := do
  if ← peek (·.data.isActive s) then return false
  else
    modify (c.activateData s)
    modify (c.scheduleTimeouts s)
    modify (World.perform (.entry s) (c.entryAction s))
    modify (World.perform (.doing s) (c.doAction s))
    return true

def State.deactivate (s : S) : Comp (World S T E P) PUnit := do
  if ← peek (·.data.isActive s) then
    modify (Chart.cancelTimeouts s)
    modify (c.deactivateData s)
    modify (World.perform (.exit s) (c.exitAction s))
  else return ⟨⟩

/-- `State::dispatch`: the first transition that fires. -/
def State.dispatch (s : S) (e : Option E) : Comp (World S T E P) Bool :=
  (c.transitions s).anyM fun t => Transition.execute c v t e

/-! ### `HierarchicalState` -/

/-- The condition under which `HierarchicalState::deactivate` stores the history. -/
def HierarchicalState.storesHistory (s h : S) (current : Option S) : Bool :=
  current ≠ c.startState s && current ≠ some h && !c.isFinal current

def HierarchicalState.saveHistory (s : S) (current : Option S) : Comp (World S T E P) PUnit :=
  match c.history s with
  | none => pure ⟨⟩
  | some h => if HierarchicalState.storesHistory c s h current then c.storeHistory h else pure ⟨⟩

def HierarchicalState.deactivateCurrent (current : Option S) : Comp (World S T E P) PUnit :=
  match current with
  | none => pure ⟨⟩
  | some q => v.deactivate q

/-- `HierarchicalState::deactivate`: history first, then the substate, then the state itself. -/
def HierarchicalState.deactivate (s : S) : Comp (World S T E P) PUnit := do
  if ← peek (·.data.isActive s) then
    let current ← peek (·.data.current s)
    HierarchicalState.saveHistory c s current
    HierarchicalState.deactivateCurrent v current
    modify (Chart.clearCurrent s)
    State.deactivate c s
  else return ⟨⟩

/-- The first entry into a hierarchical state without a substate: its start state, if any. -/
def HierarchicalState.enterStart (s : S) : Comp (World S T E P) PUnit := do
  let current ← peek (·.data.current s)
  match current, c.startState s with
  | none, some st =>
      modify (c.activateData st)
      match ← peek (·.data.current s) with
      | none => return ⟨⟩
      | some q => let _ ← v.activate q
  | _, _ => return ⟨⟩

/-- Offers the event to the current substate. -/
def HierarchicalState.dispatchCurrent (s : S) (e : Option E) : Comp (World S T E P) Bool := do
  match ← peek (·.data.current s) with
  | none => return false
  | some q => v.dispatch q e

/-- One round of the loop over the transitions of a hierarchical state: a transition without a
trigger is tried only when the state is completed, and then with a null event first. -/
def HierarchicalState.tryTransition (currentIsFinal : Bool) (e : Option E) (t : T) :
    Comp (World S T E P) Bool := do
  if (c.event t).isSome then Transition.execute c v t e
  else if currentIsFinal then
    if ← Transition.execute c v t none then return true
    else Transition.execute c v t e
  else return false

/-- `HierarchicalState::dispatch`: the substate first, then, unless it handled the event and is not
final, the transitions of the state itself. -/
def HierarchicalState.dispatch (s : S) (e : Option E) : Comp (World S T E P) Bool := do
  if ← peek (·.data.isActive s) then
    HierarchicalState.enterStart c v s
    let handled ← HierarchicalState.dispatchCurrent v s e
    if ← peek (·.data.isActive s) then
      let currentIsFinal ← peek fun w => c.isFinal (w.data.current s)
      if handled && !currentIsFinal then return true
      else
        if handled then modify (·.log (.fallThrough s e.isSome))
        (c.transitions s).anyM (HierarchicalState.tryTransition c v currentIsFinal e)
    else return handled
  else return false

/-! ### `ConcurrentState` -/

/-- The default entry of a region, skipped for a region that an incoming transition targets. -/
def ConcurrentState.enterRegion (n h : S) : Comp (World S T E P) PUnit := do
  if ← peek fun w => decide (h ∈ w.data.stateset n) then return ⟨⟩
  else if ← v.activate h then
    let _ ← v.dispatch h none
  else return ⟨⟩

/-- The loop of `ConcurrentState::activate` over the regions. The source keeps the pointer to the
record of `n` over the loop; in a run where a region leaves `n` and the record is released, it reads
released memory and this function an empty set. -/
def ConcurrentState.enterRegions (n : S) : Comp (World S T E P) PUnit := do
  if ← peek fun w => (w.data.getData n).isSome then
    modify (·.log (.entering n))
    (c.regions n).forM (ConcurrentState.enterRegion v n)
    modify (·.log (.entered n))
  else return ⟨⟩

def ConcurrentState.activate (n : S) : Comp (World S T E P) Bool := do
  if ← State.activate c n then
    ConcurrentState.enterRegions c v n
    return true
  else return false

def ConcurrentState.deactivate (n : S) : Comp (World S T E P) PUnit := do
  modify (Chart.clearStateset n)
  (c.regions n).forM v.deactivate
  State.deactivate c n

/-- `ConcurrentState::finished`: every region has reached its final state. -/
def ConcurrentState.finished (n : S) (w : World S T E P) : Bool :=
  (c.regions n).all fun h => c.isFinal (w.data.current h)

/-- One round of the loop over the regions, which stops once `n` is left. -/
def ConcurrentState.dispatchRegion (n : S) (e : Option E) (h : S) : Comp (World S T E P) Bool := do
  if ← peek (·.data.isActive n) then v.dispatch h e else return false

/-- Offers the event to every region, and tells whether one of them handled it. -/
def ConcurrentState.dispatchRegions (n : S) (e : Option E) : List S → Comp (World S T E P) Bool
  | [] => return false
  | h :: hs => do
      let handled ← ConcurrentState.dispatchRegion v n e h
      let rest ← ConcurrentState.dispatchRegions n e hs
      return handled || rest

/-- One round of the loop over the transitions of a concurrent state: it stops once `n` is left,
and a transition without a trigger waits for the regions to finish. -/
def ConcurrentState.tryTransition (n : S) (e : Option E) (t : T) : Comp (World S T E P) Bool := do
  if ← peek (·.data.isActive n) then
    if (c.event t).isNone && !(← peek (ConcurrentState.finished c n)) then return false
    else Transition.execute c v t e
  else return false

def ConcurrentState.dispatch (n : S) (e : Option E) : Comp (World S T E P) Bool := do
  if ← ConcurrentState.dispatchRegions v n e (c.regions n) then return true
  else (c.transitions n).anyM (ConcurrentState.tryTransition c v n e)

/-! ### `PseudoState` -/

/-- The test of `PseudoState::lookup` on a join: every incoming transition has an active source and
a guard that holds. -/
def PseudoState.joinReady (j : S) (w : World S T E P) : Bool :=
  (c.incoming j).all fun t =>
    match c.deactivates t with
    | [] => false
    | s :: _ => w.data.isActive s && Transition.guardHolds c t w

/-- `PseudoState::lookup`: some outgoing transition can fire at once. -/
def PseudoState.lookup (j : S) : Comp (World S T E P) Bool := do
  if c.kind j = .pseudoState .join && !(← peek (PseudoState.joinReady c j)) then return false
  else (c.transitions j).anyM (Transition.allowed c v)

/-- `PseudoState::activate`: a history restores the states it has stored, a fork registers the
regions its branches lead to. -/
def PseudoState.activate (s : S) : Comp (World S T E P) Bool := do
  modify (c.activateData s)
  modify (World.perform (.entry s) (c.entryAction s))
  if (c.kind s).isHistory then
    let stored ← peek (·.data.stateset s)
    stored.forM fun q => do let _ ← v.activate q
  else if c.kind s = .pseudoState .fork then
    (c.transitions s).forM fun t => do
      if ← peek (Transition.guardHolds c t) then
        modify (c.registerRegions (c.activates t))
  return true

/-- The substate that `PseudoState::dispatch` of a history hands the event on to. -/
def PseudoState.restored (s : S) (w : World S T E P) : Option S :=
  match (c.context s).bind w.data.current with
  | none => none
  | some q => if q = s then none else some q

def PseudoState.dispatch (s : S) (e : Option E) : Comp (World S T E P) Bool := do
  if (c.kind s).isHistory then
    match ← peek (PseudoState.restored c s) with
    | none => State.dispatch c v s e
    | some q => v.dispatch q e
  else if c.kind s = .pseudoState .fork then
    (c.transitions s).forM fun t => do let _ ← Transition.execute c v t e
    return true
  else State.dispatch c v s e

/-! ### Virtual dispatch -/

namespace Chart

/-- The overrides of each class, with the calls they make answered by `v`. -/
def step : Methods S T E P where
  lookup := PseudoState.lookup c v
  activate s :=
    match c.kind s with
    | .concurrentState => ConcurrentState.activate c v s
    | .pseudoState _ => PseudoState.activate c v s
    | _ => State.activate c s
  deactivate s :=
    match c.kind s with
    | .hierarchicalState => HierarchicalState.deactivate c v s
    | .concurrentState => ConcurrentState.deactivate c v s
    | _ => State.deactivate c s
  dispatch s e :=
    match c.kind s with
    | .hierarchicalState => HierarchicalState.dispatch c v s e
    | .concurrentState => ConcurrentState.dispatch c v s e
    | .pseudoState _ => PseudoState.dispatch c v s e
    | _ => State.dispatch c v s e

/-- The methods with at most `n` nested calls. -/
def methods : ℕ → Methods S T E P
  | 0 => ⟨fun _ => failure, fun _ => failure, fun _ => failure, fun _ _ => failure⟩
  | n + 1 => c.step (methods n)

end Chart

end CppStatecharts
