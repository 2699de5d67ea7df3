import CppStatecharts.Library.Forest
import CppStatecharts.Model.Metadata

/-!
The static side of a statechart: states, transitions, events and the registries filled while a
chart is built (`State.cpp`, `Context.cpp`, `Transition.cpp`, `PseudoState.cpp`, `Event.cpp`,
`TimeoutEvent.cpp`).

* `StateKind`, `PseudoStateType`: the dynamic type of a state, which is all that `dynamic_cast`
  reveals of it.
* `Action`, `Guard`: the two callback types of `forward.hpp`. A guard receives both arguments by
  constant reference, so it is a predicate; an action may change both.
* `Event`: the two event classes of the library, with the virtual `Event.equals`.
* `Chart`: the states with their contexts, the transitions in the order of their creation, and
  what the constructors enforce. The registries `Chart.startState`, `Chart.history`,
  `Chart.regions`, `Chart.transitions` and `Chart.incoming` are read off the creation order.
* `Chart.calculateStateSet`: the exit and entry lists of a transition
  (`deactivates`, `activates`); `calculateStateSet_self`, `calculateStateSet_branch`,
  `calculateStateSet_down` and `calculateStateSet_up` are their shapes.
-/

namespace CppStatecharts

inductive PseudoStateType where
  | start
  | junction
  | fork
  | join
  | history
  | deepHistory
  deriving DecidableEq, Repr

/-- The dynamic type of a state. -/
inductive StateKind where
  | statechart
  | state
  | finalState
  | hierarchicalState
  | concurrentState
  | pseudoState (type : PseudoStateType)
  deriving DecidableEq, Repr

namespace StateKind

/-- The types derived from `Context`. -/
def isContext : StateKind → Bool
  | statechart | hierarchicalState | concurrentState => true
  | _ => false

def isPseudo : StateKind → Bool
  | pseudoState _ => true
  | _ => false

/-- Shallow and deep history pseudo-states. -/
def isHistory : StateKind → Bool
  | pseudoState .history | pseudoState .deepHistory => true
  | _ => false

lemma isHistory_eq_false_of_isPseudo {k : StateKind} (h : k.isPseudo = false) :
    k.isHistory = false := by
  cases k <;> simp_all [isPseudo, isHistory]

lemma isHistory_eq_false_of_isContext {k : StateKind} (h : k.isContext = true) :
    k.isHistory = false := by
  cases k <;> simp_all [isContext, isHistory]

lemma eq_of_isHistory {k : StateKind} (h : k.isHistory = true) :
    k = .pseudoState .history ∨ k = .pseudoState .deepHistory := by
  cases k with
  | pseudoState type => cases type <;> simp_all [isHistory]
  | _ => cases h

end StateKind

/-- An action callback: it receives the runtime data and the parameter by reference. -/
abbrev Action (S P : Type) := Metadata S → P → Metadata S × P

/-- A guard callback: it receives the runtime data and the parameter by constant reference. -/
abbrev Guard (S P : Type) := Metadata S → P → Bool

/-- The event classes of the library. A timeout event carries the two halves of its unique
identifier and its delay in milliseconds. -/
inductive Event where
  | event (id : String)
  | timeoutEvent (uuidHigh uuidLow : UInt64) (timeout : ℤ)
  deriving DecidableEq, Repr

namespace Event

def id : Event → String
  | event id => id
  | timeoutEvent .. => "TimeoutEvent"

/-- `Event::equals` and its override `TimeoutEvent::equals`; the argument may be null. -/
def equals : Event → Option Event → Bool
  | event _, none => false
  | event id, some e => id == e.id
  | timeoutEvent high low _, some (timeoutEvent high' low' _) => high' == high && low' == low
  | timeoutEvent .., _ => false

/-- The delay of a timeout event. -/
def timeout : Event → Option ℤ
  | event _ => none
  | timeoutEvent _ _ ms => some ms

end Event

lemma defaultThreshold_pos : 0 < 1000 := by decide

/-- A statechart as it stands once it is built. `S` and `T` are the addresses of its states and
transitions, `E` the event objects, `P` the parameters. `equals` is the virtual `Event::equals` and
`timeout` the cast to `TimeoutEvent`, for whatever event classes the client derives. The last
group of fields is what the constructors and setters enforce. -/
structure Chart (S T E P : Type) where
  name : String
  root : S
  ownedStates : List S
  ownedTransitions : List T
  kind : S → StateKind
  context : S → Option S
  depth : S → ℕ
  entryAction : S → Option (Action S P) := fun _ => none
  doAction : S → Option (Action S P) := fun _ => none
  exitAction : S → Option (Action S P) := fun _ => none
  source : T → S
  target : T → S
  event : T → Option E := fun _ => none
  guard : T → Option (Guard S P) := fun _ => none
  action : T → Option (Action S P) := fun _ => none
  internal : T → Bool := fun _ => false
  equals : E → Option E → Metadata S → P → Bool
  timeout : E → Option ℤ
  infiniteLoopThreshold : ℕ := 1000
  depth_context : ∀ {s p}, context s = some p → depth p < depth s := by decide
  context_root : ∀ s, context s = none ↔ s = root := by decide
  context_kind : ∀ {s p}, context s = some p → (kind p).isContext = true := by decide
  kind_statechart : ∀ s, kind s = .statechart ↔ s = root := by decide
  mem_ownedStates : ∀ s, s ∈ ownedStates ↔ s ≠ root := by decide
  nodup_ownedStates : ownedStates.Nodup := by decide
  start_unique : ∀ {s s'}, kind s = .pseudoState .start → kind s' = .pseudoState .start →
    context s = context s' → s = s' := by decide
  history_unique : ∀ {s s'}, (kind s).isHistory = true → (kind s').isHistory = true →
    context s = context s' → s = s' := by decide
  history_context : ∀ {s p}, (kind s).isHistory = true → context s = some p →
    kind p = .hierarchicalState := by decide
  internal_target : ∀ {t}, internal t = true → target t = source t := by decide
  threshold_pos : 0 < infiniteLoopThreshold := by first | exact defaultThreshold_pos | decide

namespace Chart

variable {S T E P : Type} (c : Chart S T E P)

/-- The tree of states, with the chart at its root. -/
def forest : Forest S := ⟨c.context, c.depth, c.depth_context⟩

/-- `x` is `s` or lies, at any depth, inside `s`. -/
abbrev Below (x s : S) : Prop := c.forest.Below x s

/-! ### The registries -/

section Registries

variable [DecidableEq S]

/-- `m_startState` of a context. -/
def startState (p : S) : Option S :=
  c.ownedStates.find? fun s => c.kind s = .pseudoState .start ∧ c.context s = some p

/-- `m_history` of a hierarchical state. -/
def history (p : S) : Option S :=
  c.ownedStates.find? fun s => (c.kind s).isHistory ∧ c.context s = some p

/-- `m_regions` of a concurrent state: its hierarchical children, in creation order. -/
def regions (n : S) : List S :=
  c.ownedStates.filter fun s => c.kind s = .hierarchicalState ∧ c.context s = some n

/-- `State::addTransition`: guarded transitions are checked first. -/
def addTransition (l : List T) (t : T) : List T :=
  if (c.guard t).isSome then t :: l else l ++ [t]

/-- `m_transitions` of a state. -/
def transitions (s : S) : List T :=
  (c.ownedTransitions.filter fun t => c.source t = s).foldl c.addTransition []

/-- `m_incoming` of a join pseudo-state. -/
def incoming (j : S) : List T := c.ownedTransitions.filter fun t => c.target t = j

end Registries

/-! ### The exit and entry lists of a transition -/

/-- The loops of `Transition::calculateStateSet` that walk up from a state to below the chart,
building the path top-down in `acc`. -/
def walk : ℕ → S → List S → List S
  | 0, s, acc => s :: acc
  | n + 1, s, acc =>
      match c.context s with
      | some p => if c.kind p = .statechart then s :: acc else walk n p (s :: acc)
      | none => s :: acc

/-- The path from below the chart down to `s`. -/
def path (s : S) : List S := c.walk (c.depth s) s []

/-- `Transition::calculateStateSet`: the states to leave, innermost first, and the states to
enter, outermost first. -/
def calculateStateSet [DecidableEq S] (start finish : S) : List S × List S :=
  let deactivate := c.path start
  let activate := c.path finish
  let minSize := min activate.length deactivate.length
  let lca := if start = finish then minSize - 1 else commonPrefix activate deactivate
  ((deactivate.drop lca).reverse, activate.drop lca)

/-- `m_deactivate` of a transition; an internal transition clears it. -/
def deactivates [DecidableEq S] (t : T) : List S :=
  if c.internal t then [] else (c.calculateStateSet (c.source t) (c.target t)).1

/-- `m_activate` of a transition; an internal transition clears it. -/
def activates [DecidableEq S] (t : T) : List S :=
  if c.internal t then [] else (c.calculateStateSet (c.source t) (c.target t)).2

/-! ### The tree and the registries as built -/

variable {c} {s p x y n h : S} {t : T}

lemma parent_forest : c.forest.parent s = c.context s := rfl

lemma context_eq_some_of_ne_root (hs : s ≠ c.root) : ∃ p, c.context s = some p := by
  cases h : c.context s with
  | none => exact absurd ((c.context_root s).mp h) hs
  | some p => exact ⟨p, rfl⟩

lemma ne_root_of_context (hs : c.context s = some p) : s ≠ c.root := by
  rintro rfl
  rw [(c.context_root _).mpr rfl] at hs
  cases hs

/-- Every state lies below the chart. -/
lemma below_root (s : S) : c.Below s c.root := by
  induction hd : c.depth s using Nat.strong_induction_on generalizing s with
  | _ d ih =>
      by_cases hs : s = c.root
      · exact hs ▸ Forest.below_refl _
      · obtain ⟨p, hp⟩ := context_eq_some_of_ne_root hs
        exact Forest.below_trans (Forest.below_of_parent (F := c.forest) hp)
          (ih (c.depth p) (hd ▸ c.depth_context hp) p rfl)

/-- A state that is not a context has nothing inside. -/
lemma eq_of_below_of_not_isContext (hs : (c.kind s).isContext = false) (h : c.Below x s) :
    x = s := by
  by_contra hne
  obtain ⟨q, hq, -⟩ := Forest.exists_child_of_below h hne
  rw [c.context_kind hq] at hs
  cases hs

section Registries

variable [DecidableEq S]

lemma startState_eq_some (h : c.startState p = some s) :
    c.kind s = .pseudoState .start ∧ c.context s = some p := by
  simpa [startState] using List.find?_some h

lemma history_eq_some_iff :
    c.history p = some s ↔ (c.kind s).isHistory = true ∧ c.context s = some p := by
  constructor
  · intro h
    simpa [history] using List.find?_some h
  · rintro ⟨hk, hp⟩
    have hsome : (c.history p).isSome := by
      rw [history, List.find?_isSome]
      exact ⟨s, (c.mem_ownedStates s).mpr (ne_root_of_context hp), by simp [hk, hp]⟩
    obtain ⟨s', hs'⟩ := Option.isSome_iff_exists.mp hsome
    have h' : (c.kind s').isHistory = true ∧ c.context s' = some p := by
      simpa [history] using List.find?_some hs'
    rw [hs', c.history_unique h'.1 hk (h'.2.trans hp.symm)]

lemma mem_regions :
    s ∈ c.regions n ↔ c.kind s = .hierarchicalState ∧ c.context s = some n := by
  simp only [regions, List.mem_filter, c.mem_ownedStates, decide_eq_true_eq,
    and_iff_right_iff_imp]
  exact fun h => ne_root_of_context h.2

lemma nodup_regions : (c.regions n).Nodup := c.nodup_ownedStates.filter _

omit [DecidableEq S] in
lemma mem_foldl_addTransition (l acc : List T) :
    t ∈ l.foldl c.addTransition acc ↔ t ∈ acc ∨ t ∈ l := by
  induction l generalizing acc with
  | nil => simp
  | cons u l ih =>
      rw [List.foldl_cons, ih, addTransition]
      split <;> simp <;> tauto

lemma mem_transitions : t ∈ c.transitions s ↔ t ∈ c.ownedTransitions ∧ c.source t = s := by
  simp [transitions, mem_foldl_addTransition]

lemma mem_incoming : t ∈ c.incoming s ↔ t ∈ c.ownedTransitions ∧ c.target t = s := by
  simp [incoming]

end Registries

/-! ### The shape of the lists -/

lemma descends_walk (hs : s ≠ c.root) {k : ℕ} (hk : c.depth s ≤ k) {acc : List S}
    (h : c.forest.Descends s acc x) : c.forest.Descends c.root (c.walk k s acc) x := by
  induction k generalizing s acc with
  | zero =>
      obtain ⟨p, hp⟩ := context_eq_some_of_ne_root hs
      exact absurd (c.depth_context hp) (by omega)
  | succ k ih =>
      obtain ⟨p, hp⟩ := context_eq_some_of_ne_root hs
      have hd := c.depth_context hp
      rw [walk, hp]
      by_cases hkind : c.kind p = .statechart
      · simp only [hkind, ↓reduceIte]
        rw [(c.kind_statechart p).mp hkind] at hp
        exact ⟨hp, h⟩
      · simp only [hkind, ↓reduceIte]
        exact ih (fun hr => hkind ((c.kind_statechart p).mpr hr)) (by omega) ⟨hp, h⟩

/-- The path to a state below the chart is the way down to it. -/
lemma descends_path (hs : s ≠ c.root) : c.forest.Descends c.root (c.path s) s :=
  descends_walk hs le_rfl rfl

lemma path_root : c.path c.root = [c.root] := by
  have h := (c.context_root c.root).mpr rfl
  rw [path]
  cases c.depth c.root <;> simp [walk, h]

lemma exists_path_eq (s : S) : ∃ l, c.path s = l ++ [s] := by
  by_cases hs : s = c.root
  · exact ⟨[], by rw [hs, path_root]; rfl⟩
  · have h := descends_path hs
    cases hl : c.path s with
    | nil => rw [hl] at h; exact absurd h hs
    | cons q l =>
        have hlast := Forest.Descends.getLast? (hl ▸ h)
        rw [← hl] at hlast ⊢
        exact ⟨_, (List.dropLast_append_getLast? _ hlast).symm⟩

/-- The lists of a self-transition hold just the state. -/
lemma calculateStateSet_self [DecidableEq S] (s : S) : c.calculateStateSet s s = ([s], [s]) := by
  obtain ⟨l, hl⟩ := exists_path_eq (c := c) s
  simp [calculateStateSet, hl]

/-- The lists of a transition between incomparable states: with `m` the innermost common
context, they lead up from the source to a child of `m` and from another child of `m` down to the
target. -/
lemma calculateStateSet_branch [DecidableEq S] {a b : S} (hab : ¬ c.Below a b)
    (hba : ¬ c.Below b a) :
    ∃ m d e u v, c.calculateStateSet a b = ((d :: u).reverse, e :: v)
      ∧ c.forest.Descends m (d :: u) a ∧ c.forest.Descends m (e :: v) b ∧ d ≠ e := by
  have ha : a ≠ c.root := fun h => hba (h ▸ below_root b)
  have hb : b ≠ c.root := fun h => hab (h ▸ below_root a)
  have hne : a ≠ b := fun h => hab (h ▸ Forest.below_refl _)
  obtain ⟨m, d, e, u, v, h₁, h₂, h₃, h₄, h₅⟩ :=
    (descends_path ha).branch (descends_path hb) hab hba
  exact ⟨m, d, e, u, v, by simp [calculateStateSet, hne, h₁, h₂], h₃, h₄, h₅⟩

/-- The lists of a transition to the source itself or between incomparable states. -/
lemma calculateStateSet_beside [DecidableEq S] {a b : S} (ha : a ≠ c.root)
    (hab : c.Below a b → a = b)
    (hba : c.Below b a → a = b) :
    ∃ m d e u v, c.calculateStateSet a b = ((d :: u).reverse, e :: v)
      ∧ c.forest.Descends m (d :: u) a ∧ c.forest.Descends m (e :: v) b
      ∧ (a = b ∧ d = a ∧ e = a ∨ a ≠ b ∧ d ≠ e) := by
  by_cases hne : a = b
  · subst hne
    obtain ⟨p, hp⟩ := context_eq_some_of_ne_root ha
    exact ⟨p, a, a, [], [], calculateStateSet_self a, ⟨hp, rfl⟩, ⟨hp, rfl⟩, Or.inl ⟨rfl, rfl, rfl⟩⟩
  · obtain ⟨m, d, e, u, v, hl, hd, he, hde⟩ := calculateStateSet_branch (fun h => hne (hab h))
      fun h => hne (hba h)
    exact ⟨m, d, e, u, v, hl, hd, he, Or.inr ⟨hne, hde⟩⟩

/-- A transition down the tree leaves nothing and enters the states on the way. -/
lemma calculateStateSet_down [DecidableEq S] {a b : S} {l : List S} (ha : a ≠ c.root) (hab : a ≠ b)
    (h : c.forest.Descends a l b) : c.calculateStateSet a b = ([], l) := by
  have hb : b ≠ c.root := by
    rintro rfl
    exact hab (Forest.below_antisymm (below_root a) h.below)
  have hpath : c.path b = c.path a ++ l := (descends_path hb).unique <|
    Forest.descends_append.mpr ⟨a, descends_path ha, h⟩
  simp [calculateStateSet, hab, hpath, (commonPrefix_append (c.path a) l).1]

/-- A transition up the tree leaves the states on the way and enters nothing; the chart counts as
one of the states to enter. -/
lemma calculateStateSet_up [DecidableEq S] {a b : S} {l : List S} (hab : a ≠ b)
    (h : c.forest.Descends b l a) :
    c.calculateStateSet a b = (l.reverse, if b = c.root then [b] else []) := by
  have ha : a ≠ c.root := by
    rintro rfl
    exact hab (Forest.below_antisymm h.below (below_root b))
  by_cases hb : b = c.root
  · subst hb
    cases l with
    | nil => exact absurd h ha
    | cons q l =>
        have hpath : c.path a = q :: l := (descends_path ha).unique h
        have hq : c.root ≠ q := fun hq => ne_root_of_context h.1 hq.symm
        simp [calculateStateSet, hab, hpath, path_root, commonPrefix, hq]
  · have hpath : c.path a = c.path b ++ l := (descends_path ha).unique <|
      Forest.descends_append.mpr ⟨b, descends_path hb, h⟩
    simp [calculateStateSet, hab, hb, hpath, (commonPrefix_append (c.path b) l).2]

end Chart

end CppStatecharts
