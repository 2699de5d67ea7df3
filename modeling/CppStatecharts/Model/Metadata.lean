import Mathlib.Tactic

/-!
`Metadata.cpp` and `StateRuntimedata.hpp`: the runtime data of one statechart instance.

* `StateRuntimedata`, `Metadata`: the record kept for a state and the map from states to records.
  The map holds records of inactive states too: those kept for a history pseudo-state and those
  created ahead of an activation.
* `Metadata.isActive`, `Metadata.current`, `Metadata.stateset`, `Metadata.timeouts`: what the code
  reads through `isActive` and `getData`.
* `Metadata.activate`, `Metadata.deactivate`, `Metadata.createRuntimedata` and the writes through a
  record pointer (`Metadata.modify`), each with its effect on what can be read.
-/

namespace CppStatecharts

/-- The record of a state: whether it is active, its current substate, the set of states used for
history and for region bookkeeping, and the identifiers of the timeout entries queued for it. -/
structure StateRuntimedata (S : Type) where
  active : Bool := false
  currentState : Option S := none
  stateset : List S := []
  timeoutEvents : List ℕ := []

/-- The runtime data of one instance, `m_activeStates`. -/
structure Metadata (S : Type) where
  activeStates : S → Option (StateRuntimedata S)

namespace Metadata

variable {S : Type}

/-- The data after `Metadata::reset`, and of a fresh object. -/
def reset : Metadata S := ⟨fun _ => none⟩

def getData (m : Metadata S) (s : S) : Option (StateRuntimedata S) := m.activeStates s

def isActive (m : Metadata S) (s : S) : Bool :=
  match m.getData s with
  | none => false
  | some d => d.active

/-- `getData(s)->currentState`, or null when there is no record. -/
def current (m : Metadata S) (s : S) : Option S := (m.getData s).bind (·.currentState)

/-- `getData(s)->stateset`, or nothing when there is no record. -/
def stateset (m : Metadata S) (s : S) : List S := ((m.getData s).map (·.stateset)).getD []

/-- `getData(s)->timeoutEvents`, or nothing when there is no record. -/
def timeouts (m : Metadata S) (s : S) : List ℕ := ((m.getData s).map (·.timeoutEvents)).getD []

variable {m : Metadata S} {s x : S}

@[ext] lemma ext_getData {m m' : Metadata S} (h : ∀ x, m.getData x = m'.getData x) : m = m' := by
  cases m; cases m'
  exact congrArg _ (funext h)

@[simp] lemma getData_reset : (reset : Metadata S).getData x = none := rfl

lemma isActive_congr {m m' : Metadata S} (h : m.getData x = m'.getData x) :
    m.isActive x = m'.isActive x := by
  simp [isActive, h]

lemma current_congr {m m' : Metadata S} (h : m.getData x = m'.getData x) :
    m.current x = m'.current x := by
  simp [current, h]

lemma stateset_congr {m m' : Metadata S} (h : m.getData x = m'.getData x) :
    m.stateset x = m'.stateset x := by
  simp [stateset, h]

lemma timeouts_congr {m m' : Metadata S} (h : m.getData x = m'.getData x) :
    m.timeouts x = m'.timeouts x := by
  simp [timeouts, h]

@[simp] lemma isActive_reset : (reset : Metadata S).isActive x = false := rfl

@[simp] lemma current_reset : (reset : Metadata S).current x = none := rfl

/-- An active state has a record. -/
lemma exists_of_isActive (h : m.isActive s = true) : ∃ d, m.getData s = some d
    ∧ d.active = true := by
  unfold isActive at h
  cases hd : m.getData s with
  | none => simp [hd] at h
  | some d => exact ⟨d, rfl, by simpa [hd] using h⟩

variable [DecidableEq S]

/-- Replaces the record of `s`. -/
def put (m : Metadata S) (s : S) (d : Option (StateRuntimedata S)) : Metadata S :=
  ⟨Function.update m.activeStates s d⟩

/-- A write through the pointer `getData(s)`; there is nothing to write to when it is null. -/
def modify (m : Metadata S) (s : S) (f : StateRuntimedata S → StateRuntimedata S) : Metadata S :=
  match m.getData s with
  | none => m
  | some d => m.put s (some (f d))

def createRuntimedata (m : Metadata S) (s : S) : Metadata S :=
  match m.getData s with
  | none => m.put s (some {})
  | some _ => m

/-- `Metadata::activate` of `s`, whose context is `p`. -/
def activate (m : Metadata S) (p : Option S) (s : S) : Metadata S :=
  let m' := m.put s (some { (m.getData s).getD {} with active := true, currentState := none })
  match p with
  | none => m'
  | some p => m'.modify p fun d => { d with currentState := some s }

/-- `Metadata::deactivate` of `s`: the record of a history pseudo-state is kept. -/
def deactivate (m : Metadata S) (isHistory : Bool) (s : S) : Metadata S :=
  if isHistory then m.modify s fun d => { d with active := false } else m.put s none

/-! ### What is read after a write -/

variable {p : S} {d : Option (StateRuntimedata S)} {f : StateRuntimedata S → StateRuntimedata S}

@[simp] lemma getData_put_self : (m.put s d).getData s = d := by simp [put, getData]

lemma getData_put_of_ne (h : x ≠ s) : (m.put s d).getData x = m.getData x := by
  simp [put, getData, h]

@[simp] lemma getData_modify_self : (m.modify s f).getData s = (m.getData s).map f := by
  unfold modify
  cases h : m.getData s <;> simp [h]

lemma getData_modify_of_ne (h : x ≠ s) : (m.modify s f).getData x = m.getData x := by
  unfold modify
  cases m.getData s <;> simp [getData_put_of_ne h]

lemma getData_createRuntimedata_self :
    (m.createRuntimedata s).getData s = some ((m.getData s).getD {}) := by
  unfold createRuntimedata
  cases h : m.getData s <;> simp [h]

lemma getData_createRuntimedata_of_ne (h : x ≠ s) :
    (m.createRuntimedata s).getData x = m.getData x := by
  unfold createRuntimedata
  cases m.getData s <;> simp [getData_put_of_ne h]

lemma getData_activate_self (hp : p ≠ s) : (m.activate (some p) s).getData s
    = some { (m.getData s).getD {} with active := true, currentState := none } := by
  simp [activate, getData_modify_of_ne hp.symm]

lemma getData_activate_parent (hp : p ≠ s) : (m.activate (some p) s).getData p
    = (m.getData p).map fun d => { d with currentState := some s } := by
  simp [activate, getData_put_of_ne hp]

lemma getData_activate_of_ne (hs : x ≠ s) (hp : x ≠ p) :
    (m.activate (some p) s).getData x = m.getData x := by
  simp [activate, getData_modify_of_ne hp, getData_put_of_ne hs]

lemma getData_activate_root_self : (m.activate none s).getData s
    = some { (m.getData s).getD {} with active := true, currentState := none } := by
  simp [activate]

lemma getData_activate_root_of_ne (hs : x ≠ s) :
    (m.activate none s).getData x = m.getData x := by
  simp [activate, getData_put_of_ne hs]

lemma getData_deactivate_self {b : Bool} : (m.deactivate b s).getData s
    = if b then (m.getData s).map fun d => { d with active := false } else none := by
  cases b <;> simp [deactivate]

lemma getData_deactivate_of_ne {b : Bool} (h : x ≠ s) :
    (m.deactivate b s).getData x = m.getData x := by
  cases b <;> simp [deactivate, getData_modify_of_ne h, getData_put_of_ne h]

end Metadata

end CppStatecharts
