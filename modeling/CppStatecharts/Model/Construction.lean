import CppStatecharts.Model.Chart

/-!
The construction of a statechart: `Statechart::create` and `createTransition`, the constructors they
call, and the registries these write (`Statechart.hpp`, `State.cpp`, `HierarchicalState.cpp`,
`PseudoState.cpp`, `Condition.cpp`, `Transition.cpp`).

* `Creation`: what can be created, with the further arguments of the constructor.
* `Construction`: a chart under construction. Addresses are natural numbers, the chart is at `0`.
* `Statechart.create`: it runs in `Build`, where an exception leaves behind what was written before
  it.
-/

namespace CppStatecharts

/-- `StatechartException`. -/
structure StatechartException where
  reason : String
  deriving DecidableEq, Repr

/-- The class of the state to be created, with the arguments of its constructor that matter for the
registries. `G` are the guards. -/
inductive Creation (G : Type) where
  | state
  | finalState
  | hierarchicalState
  | concurrentState
  | pseudoState (type : PseudoStateType)
  | condition (guard : Option G) (whenTrue otherwise : Option ℕ)

/-- The dynamic type of what is created; a condition is a junction. -/
def Creation.kind {G : Type} : Creation G → StateKind
  | state => .state
  | finalState => .finalState
  | hierarchicalState => .hierarchicalState
  | concurrentState => .concurrentState
  | pseudoState type => .pseudoState type
  | condition .. => .pseudoState .junction

/-- A transition under construction; its ends may be null. -/
structure Link (G : Type) where
  source : Option ℕ
  target : Option ℕ
  guard : Option G

/-- What a chart knows of its states and transitions: `m_states`, `m_ownedStates`,
`m_ownedTransitions`, and of every state `m_startState`, `m_history`, `m_regions`, `m_transitions`
and `m_incoming`. -/
structure Registry (G : Type) where
  states : String → Option ℕ := fun _ => none
  ownedStates : List ℕ := []
  ownedTransitions : List (Link G) := []
  startState : ℕ → Option ℕ := fun _ => none
  history : ℕ → Option ℕ := fun _ => none
  regions : ℕ → List ℕ := fun _ => []
  transitions : ℕ → List (Link G) := fun _ => []
  incoming : ℕ → List (Link G) := fun _ => []

/-- A chart under construction: its registries, the fields of the objects allocated so far, and the
next free address. -/
structure Construction (G : Type) extends Registry G where
  kind : ℕ → StateKind := fun _ => .statechart
  context : ℕ → Option ℕ := fun _ => none
  name : ℕ → String := fun _ => ""
  next : ℕ := 1

/-- A constructor or a factory: what it wrote stays written when it throws. -/
abbrev Build (G : Type) := ExceptT StatechartException (StateM (Construction G))

variable {G α β : Type}

namespace Build

/-- What is returned or thrown, and the chart that is left behind. -/
def result (m : Build G α) (c : Construction G) : Except StatechartException α × Construction G :=
  (ExceptT.run m).run c

variable {c : Construction G} {m : Build G α} {f : α → Build G β}

@[simp] lemma result_pure (a : α) : (pure a : Build G α).result c = (.ok a, c) := rfl

@[simp] lemma result_throw (e : StatechartException) : (throw e : Build G α).result c =
    (.error e, c) := rfl

@[simp] lemma result_get : (get : Build G (Construction G)).result c = (.ok c, c) := rfl

@[simp] lemma result_modify (g : Construction G → Construction G) :
    (modify g : Build G PUnit).result c = (.ok ⟨⟩, g c) := rfl

@[simp] lemma result_ite {b : Prop} [Decidable b] (m m' : Build G α) :
    (if b then m else m').result c = if b then m.result c else m'.result c := by
  split <;> rfl

/-- An exception is passed on. -/
lemma result_bind : (m >>= f).result c
    = match m.result c with
      | (.ok a, c₁) => (f a).result c₁
      | (.error e, c₁) => (.error e, c₁) := by
  change (ExceptT.run (m >>= f)).run c = _
  rw [ExceptT.run_bind, StateT.run_bind]
  rcases h : m.result c with ⟨r, c₁⟩
  change (ExceptT.run m).run c = (r, c₁) at h
  rw [h]
  cases r <;> rfl

end Build

/-! ### Transitions -/

/-- `State::addTransition`: guarded transitions are checked first. -/
def State.addTransition (l : List (Link G)) (t : Link G) : List (Link G) :=
  if t.guard.isSome then t :: l else l ++ [t]

/-- `Statechart::createTransition` with the constructor's `Transition::init`: the transition is
added to its source and, when it leads to a join, to its target. -/
def Statechart.createTransition (source target : Option ℕ) (guard : Option G) : Build G PUnit := do
  let t : Link G := { source, target, guard }
  match source with
  | none => pure ⟨⟩
  | some s =>
      modify fun c => { c with
        transitions :=
          Function.update c.transitions s (State.addTransition (c.transitions s) t) }
  match target with
  | none => pure ⟨⟩
  | some s =>
      if (← get).kind s = .pseudoState .join then
        modify fun c => { c with incoming := Function.update c.incoming s (c.incoming s ++ [t]) }
  modify fun c => { c with ownedTransitions := c.ownedTransitions ++ [t] }

/-! ### Constructors -/

/-- `State::State` stores its arguments. -/
def State.construct (s : ℕ) (kind : StateKind) (name : String) (parent : Option ℕ) :
    Build G PUnit :=
  modify fun c =>
    { c with
      kind := Function.update c.kind s kind
      context := Function.update c.context s parent
      name := Function.update c.name s name }

/-- `HierarchicalState::HierarchicalState`: inside a concurrent state, it becomes a region. -/
def HierarchicalState.construct (s : ℕ) (name : String) (parent : Option ℕ) : Build G PUnit := do
  State.construct s .hierarchicalState name parent
  match parent with
  | none => pure ⟨⟩
  | some p =>
      if (← get).kind p = .concurrentState then
        modify fun c => { c with regions := Function.update c.regions p (c.regions p ++ [s]) }

/-- `PseudoState::PseudoState` registers start states and histories with the parent. -/
def PseudoState.construct (s : ℕ) (type : PseudoStateType) (name : String) (parent : Option ℕ) :
    Build G PUnit := do
  State.construct s (.pseudoState type) name parent
  match parent with
  | none => throw ⟨"PseudoState requires a non-null parent context"⟩
  | some p =>
      if type = .start then
        if ((← get).startState p).isNone then
          modify fun c => { c with startState := Function.update c.startState p (some s) }
        else throw ⟨"Parent has already a start state!"⟩
      else if type = .history ∨ type = .deepHistory then
        if (← get).kind p = .hierarchicalState then
          if ((← get).history p).isNone then
            modify fun c => { c with history := Function.update c.history p (some s) }
          else throw ⟨"Parent has already a history state!"⟩
        else throw ⟨"Parent is not hierarchical state!"⟩

/-- `Condition::Condition`: a junction with two transitions. -/
def Condition.construct (s : ℕ) (name : String) (parent : Option ℕ) (guard : Option G)
    (whenTrue otherwise : Option ℕ) : Build G PUnit := do
  PseudoState.construct s .junction name parent
  Statechart.createTransition (some s) whenTrue guard
  Statechart.createTransition (some s) otherwise none

/-- The constructor of the class. -/
def Creation.construct (s : ℕ) (name : String) (parent : Option ℕ) : Creation G → Build G PUnit
  | state => State.construct s .state name parent
  | finalState => State.construct s .finalState name parent
  | hierarchicalState => HierarchicalState.construct s name parent
  | concurrentState => State.construct s .concurrentState name parent
  | pseudoState type => PseudoState.construct s type name parent
  | condition guard whenTrue otherwise => Condition.construct s name parent guard whenTrue otherwise

/-! ### The factory -/

/-- `std::make_unique`: the constructor runs at a new address. -/
def Creation.allocate (x : Creation G) (name : String) (parent : Option ℕ) : Build G ℕ := do
  let s := (← get).next
  modify fun c => { c with next := s + 1 }
  x.construct s name parent
  return s

/-- `Statechart::create`. -/
def Statechart.create (x : Creation G) (name : String) (parent : Option ℕ) : Build G ℕ := do
  if name = "" then throw ⟨"Parameter name cannot be null"⟩
  if parent = none then throw ⟨"Parameter parent cannot be null"⟩
  if ((← get).states name).isSome then
    throw ⟨"State name <" ++ name ++ "> already used! Please define a unique name."⟩
  let s ← x.allocate name parent
  modify fun c =>
    { c with
      states := Function.update c.states name (some s)
      ownedStates := c.ownedStates ++ [s] }
  return s

/-- A call of `create` on a chart, with what it returns or throws. -/
def Statechart.tryCreate (x : Creation G) (name : String) (parent : Option ℕ) (c : Construction G) :
    Except StatechartException ℕ × Construction G :=
  (Statechart.create x name parent).result c

end CppStatecharts
