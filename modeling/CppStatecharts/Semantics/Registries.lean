import CppStatecharts.Model.Construction

/-!
The registries of a chart under construction.

* `Creation.Registers`: what the constructor of a class writes; `Creation.construct_cases`: it does
  that, or throws and has written nothing.
* `Statechart.tryCreate_cases`: the same of `Statechart::create`.
* `Construction.Consistent`: the registries are those of the states created so far;
  `Building.consistent`: they are after any calls.
* `Building.registers_exact`: what the registries hold, and that a call that throws changes none of
  them.
* `Clash`: calls of which some throw.
* `Chart.Built`: a finished chart; `Chart.Built.startState_eq`, `Chart.Built.history_eq`,
  `Chart.Built.regions_eq`: its registries are these.
-/

namespace CppStatecharts

variable {G : Type} {c c' : Construction G} {x : Creation G} {name : String} {parent : Option ℕ}
variable {s p n : ℕ} {r : Except StatechartException ℕ} {e : StatechartException}

/-! ### Constructors -/

/-- What the constructor of a class writes for the new object `s` inside `p`. -/
structure Creation.Registers (x : Creation G) (p s : ℕ) (c c' : Construction G) : Prop where
  states : c'.states = c.states
  ownedStates : c'.ownedStates = c.ownedStates
  kind : c'.kind = Function.update c.kind s x.kind
  context : c'.context = Function.update c.context s (some p)
  next : c'.next = c.next
  startState : c'.startState
    = if x.kind = .pseudoState .start then Function.update c.startState p (some s) else c.startState
  start_free : x.kind = .pseudoState .start → c.startState p = none
  history : c'.history = if x.kind.isHistory then Function.update c.history p
    (some s) else c.history
  history_free : x.kind.isHistory = true → c.history p = none ∧ c.kind p = .hierarchicalState
  regions : c'.regions = if x.kind = .hierarchicalState ∧ c.kind p = .concurrentState
    then Function.update c.regions p (c.regions p ++ [s]) else c.regions

/-- A new transition changes nothing but the lists of transitions. -/
structure Construction.Linked (c c' : Construction G) : Prop where
  states : c'.states = c.states
  ownedStates : c'.ownedStates = c.ownedStates
  kind : c'.kind = c.kind
  context : c'.context = c.context
  next : c'.next = c.next
  startState : c'.startState = c.startState
  history : c'.history = c.history
  regions : c'.regions = c.regions

lemma Statechart.result_createTransition (source target : Option ℕ) (guard : Option G) :
    ∃ c', (Statechart.createTransition source target guard).result c = (.ok ⟨⟩, c')
      ∧ c.Linked c' := by
  cases source <;> cases target <;> simp only [Statechart.createTransition, Build.result_bind,
    Build.result_modify, Build.result_get, Build.result_ite]
  case none.none | some.none => exact ⟨_, rfl, rfl, rfl, rfl, rfl, rfl, rfl, rfl, rfl⟩
  all_goals
    split
    · exact ⟨_, rfl, rfl, rfl, rfl, rfl, rfl, rfl, rfl, rfl⟩
    · exact ⟨_, rfl, rfl, rfl, rfl, rfl, rfl, rfl, rfl, rfl⟩

lemma Creation.Registers.of_linked {c₁ : Construction G} (h : x.Registers p s c c₁)
    (hl : c₁.Linked c') :
    x.Registers p s c c' where
  states := hl.states.trans h.states
  ownedStates := hl.ownedStates.trans h.ownedStates
  kind := hl.kind.trans h.kind
  context := hl.context.trans h.context
  next := hl.next.trans h.next
  startState := hl.startState.trans h.startState
  start_free := h.start_free
  history := hl.history.trans h.history
  history_free := h.history_free
  regions := hl.regions.trans h.regions

/-- Only the dynamic type matters. -/
lemma Creation.Registers.of_kind {y : Creation G} (h : x.Registers p s c c')
    (hk : x.kind = y.kind) :
    y.Registers p s c c' := by
  refine ⟨h.states, h.ownedStates, hk ▸ h.kind, h.context, h.next, hk ▸ h.startState,
    hk ▸ h.start_free, hk ▸ h.history, hk ▸ h.history_free, hk ▸ h.regions⟩

/-- Nothing but the fields of the object at `s` differs. -/
structure Construction.Untouched (c : Construction G) (s : ℕ) (c' : Construction G) : Prop where
  registry : c'.toRegistry = c.toRegistry
  next : c'.next = c.next
  kind : ∀ q, q ≠ s → c'.kind q = c.kind q
  context : ∀ q, q ≠ s → c'.context q = c.context q

/-- A constructor does what it has to, or throws and has registered nothing. -/
def Creation.Constructs (x : Creation G) (p s : ℕ) (c : Construction G)
    (res : Except StatechartException PUnit × Construction G) : Prop :=
  match res with
  | (.ok _, c') => x.Registers p s c c'
  | (.error _, c') => c.Untouched s c'

/-- A pseudo-state registers with its parent if there is a free place of its kind. -/
lemma PseudoState.construct_cases (type : PseudoStateType) (name : String) (hp : p ≠ s) :
    (Creation.pseudoState type).Constructs p s c
      ((PseudoState.construct (G := G) s type name (some p)).result c) := by
  simp only [PseudoState.construct, State.construct, Build.result_bind, Build.result_modify,
    Build.result_get, Build.result_ite, Build.result_throw, Build.result_pure,
    Function.update_of_ne hp]
  cases type with
  | start =>
      by_cases hfree : c.startState p = none
      · simp only [hfree, Option.isNone_none, ↓reduceIte]
        exact ⟨rfl, rfl, rfl, rfl, rfl, by simp [Creation.kind], fun _ => hfree,
          by simp [Creation.kind, StateKind.isHistory],
          by simp [Creation.kind, StateKind.isHistory],
          by simp [Creation.kind]⟩
      · have hfree' : (c.startState p).isNone = false := by
          simpa [Option.isSome_iff_ne_none] using hfree
        simp only [hfree', Bool.false_eq_true, ↓reduceIte]
        exact ⟨rfl, rfl, fun q hq => Function.update_of_ne hq _ _, fun q hq =>
          Function.update_of_ne hq _ _⟩
  | history | deepHistory =>
      by_cases hk : c.kind p = .hierarchicalState
      · by_cases hfree : c.history p = none
        · simp only [hk, hfree, Option.isNone_none, reduceCtorEq, or_true, true_or, ↓reduceIte]
          exact ⟨rfl, rfl, rfl, rfl, rfl, by simp [Creation.kind], by simp [Creation.kind],
            by simp [Creation.kind, StateKind.isHistory], fun _ => ⟨hfree, hk⟩,
            by simp [Creation.kind]⟩
        · have hfree' : (c.history p).isNone = false := by
            simpa [Option.isSome_iff_ne_none] using hfree
          simp only [hk, hfree', Bool.false_eq_true, reduceCtorEq, or_true, true_or, ↓reduceIte]
          exact ⟨rfl, rfl, fun q hq => Function.update_of_ne hq _ _,
            fun q hq => Function.update_of_ne hq _ _⟩
      · simp only [hk, reduceCtorEq, or_true, true_or, ↓reduceIte]
        exact ⟨rfl, rfl, fun q hq => Function.update_of_ne hq _ _,
          fun q hq => Function.update_of_ne hq _ _⟩
  | junction | fork | join =>
      simp only [reduceCtorEq, or_self, ↓reduceIte]
      exact ⟨rfl, rfl, rfl, rfl, rfl, by simp [Creation.kind], by simp [Creation.kind],
        by simp [Creation.kind, StateKind.isHistory], by simp [Creation.kind, StateKind.isHistory],
        by simp [Creation.kind]⟩

/-- Every constructor. -/
lemma Creation.construct_cases (x : Creation G) (name : String) (hp : p ≠ s) :
    x.Constructs p s c ((x.construct s name (some p)).result c) := by
  cases x with
  | state | finalState | concurrentState =>
      exact ⟨rfl, rfl, rfl, rfl, rfl, by simp [Creation.kind], by simp [Creation.kind],
        by simp [Creation.kind, StateKind.isHistory], by simp [Creation.kind, StateKind.isHistory],
        by simp [Creation.kind]⟩
  | hierarchicalState =>
      simp only [Creation.construct, HierarchicalState.construct, State.construct,
        Build.result_bind,
        Build.result_modify, Build.result_get, Build.result_ite, Build.result_pure,
        Function.update_of_ne hp]
      split
      · exact ⟨rfl, rfl, rfl, rfl, rfl, by simp [Creation.kind], by simp [Creation.kind],
          by simp [Creation.kind, StateKind.isHistory],
          by simp [Creation.kind, StateKind.isHistory],
          by simp [Creation.kind, *]⟩
      · exact ⟨rfl, rfl, rfl, rfl, rfl, by simp [Creation.kind], by simp [Creation.kind],
          by simp [Creation.kind, StateKind.isHistory],
          by simp [Creation.kind, StateKind.isHistory],
          by simp [Creation.kind, *]⟩
  | pseudoState type => exact PseudoState.construct_cases type name hp
  | condition guard whenTrue otherwise =>
      have h := PseudoState.construct_cases (G := G) (c := c) .junction name hp
      rw [Creation.construct, Condition.construct, Build.result_bind]
      rcases hres : (PseudoState.construct (G := G) s .junction name (some p)).result c with
        ⟨e | u, c₁⟩
      · rw [hres] at h
        exact h
      · rw [hres] at h
        obtain ⟨c₂, h₂, hl₂⟩ := Statechart.result_createTransition (c := c₁) (some s) whenTrue guard
        obtain ⟨c₃, h₃, hl₃⟩ := Statechart.result_createTransition (c := c₂) (some s) otherwise none
        simp only [Build.result_bind, h₂, h₃]
        exact (Creation.Registers.of_linked h hl₂).of_linked hl₃ |>.of_kind rfl

/-! ### The factory -/

namespace Statechart

/-- What a successful call of `create` does: the constructor has run at a new address, which is
entered into the table under an unused name and into the list of owned states. -/
structure Creates (x : Creation G) (name : String) (p s : ℕ) (c c' : Construction G) : Prop where
  fresh : s = c.next
  unused : c.states name = none
  next : c'.next = c.next + 1
  states : c'.states = Function.update c.states name (some s)
  ownedStates : c'.ownedStates = c.ownedStates ++ [s]
  kind : c'.kind = Function.update c.kind s x.kind
  context : c'.context = Function.update c.context s (some p)
  startState : c'.startState
    = if x.kind = .pseudoState .start then Function.update c.startState p (some s) else c.startState
  start_free : x.kind = .pseudoState .start → c.startState p = none
  history : c'.history = if x.kind.isHistory then Function.update c.history p
    (some s) else c.history
  history_free : x.kind.isHistory = true → c.history p = none ∧ c.kind p = .hierarchicalState
  regions : c'.regions = if x.kind = .hierarchicalState ∧ c.kind p = .concurrentState
    then Function.update c.regions p (c.regions p ++ [s]) else c.regions

/-- A call of `create` does all that, or throws and has registered nothing. -/
lemma tryCreate_cases (name : String) (hp : ∀ p, parent = some p → p < c.next) :
    match tryCreate x name parent c with
    | (.ok s, c') => ∃ p, parent = some p ∧ Creates x name p s c c'
    | (.error _, c') => c'.toRegistry = c.toRegistry ∧ c.next ≤ c'.next
        ∧ ∀ q < c.next, c'.kind q = c.kind q ∧ c'.context q = c.context q := by
  by_cases hname : name = ""
  · simp [tryCreate, create, hname]
  cases parent with
  | none => simp [tryCreate, create, hname]
  | some p =>
      cases hunused : c.states name with
      | some q => simp [tryCreate, create, Build.result_bind, hname, hunused]
      | none =>
          have hps : p ≠ c.next := (hp p rfl).ne
          have h := x.construct_cases (c := { c with next := c.next + 1 }) name hps
          simp only [tryCreate, create, Creation.allocate, Build.result_bind, Build.result_get,
            Build.result_modify, Build.result_pure, hname, hunused, reduceCtorEq, ↓reduceIte,
            Option.isSome_none, Bool.false_eq_true]
          rcases hres : (x.construct c.next name (some p)).result { c with next := c.next + 1 }
            with ⟨e | u, c₁⟩
          · rw [hres] at h
            refine ⟨h.registry, h.next ▸ Nat.le_succ _, fun q hq => ?_⟩
            exact ⟨h.kind q hq.ne, h.context q hq.ne⟩
          · rw [hres] at h
            refine ⟨p, rfl, rfl, hunused, h.next, ?_, ?_, h.kind, h.context, h.startState,
              h.start_free, h.history, h.history_free, h.regions⟩
            · exact congrArg (Function.update · name _) h.states
            · exact congrArg (· ++ _) h.ownedStates

end Statechart

/-! ### Sequences of calls -/

/-- A call of `create`. -/
structure CreateCall (G : Type) where
  creation : Creation G
  name : String
  parent : Option ℕ

/-- The parent with which the new state registers as its start state. -/
def CreateCall.startOf (r : CreateCall G) : Option ℕ :=
  if r.creation.kind = .pseudoState .start then r.parent else none

/-- The parent with which the new state registers as its history. -/
def CreateCall.historyOf (r : CreateCall G) : Option ℕ :=
  if r.creation.kind.isHistory then r.parent else none

/-- The new state is a hierarchical state inside `n`. -/
def CreateCall.inside (r : CreateCall G) (n : ℕ) : Bool :=
  r.creation.kind = .hierarchicalState ∧ r.parent = some n

/-- `p` is the chart, or a context created in it. -/
def Construction.IsParent (c : Construction G) (p : ℕ) : Prop :=
  p = 0 ∨ p ∈ c.ownedStates ∧ (c.kind p).isContext = true

instance (c : Construction G) (p : ℕ) : Decidable (c.IsParent p) :=
  inferInstanceAs (Decidable (_ ∨ _))

/-- Calls of `create` with what they returned or threw, newest first, and the chart they have
built. -/
inductive Building : List (CreateCall G × Except StatechartException ℕ) → Construction G → Prop
  | new : Building [] {}
  | create {l : _} {c c' : Construction G} {r : CreateCall G} {res : _} : Building l c →
      (∀ p, r.parent = some p → c.IsParent p) →
      Statechart.tryCreate r.creation r.name r.parent c = (res, c') → Building ((r, res) :: l) c'

/-- The calls that returned a state, oldest first. -/
def Building.created : List (CreateCall G × Except StatechartException ℕ) → List (CreateCall G × ℕ)
  | [] => []
  | (r, .ok s) :: l => created l ++ [(r, s)]
  | (_, .error _) :: l => created l

/-- The registries are those of the states `d` created so far. -/
structure Construction.Consistent (c : Construction G) (d : List (CreateCall G × ℕ)) : Prop where
  owned : c.ownedStates = d.map (·.2)
  nodup : c.ownedStates.Nodup
  lt : ∀ {s}, s ∈ c.ownedStates → s < c.next
  parent : ∀ {r s}, (r, s) ∈ d → ∃ p, r.parent = some p ∧ p < c.next
  kind : ∀ {r s}, (r, s) ∈ d → c.kind s = r.creation.kind ∧ c.context s = r.parent
  states : ∀ name s, c.states name = some s ↔ ∃ r, (r, s) ∈ d ∧ some r.name = some name
  startState : ∀ p s, c.startState p = some s ↔ ∃ r, (r, s) ∈ d ∧ r.startOf = some p
  history : ∀ p s, c.history p = some s ↔ ∃ r, (r, s) ∈ d ∧ r.historyOf = some p
  regions : ∀ n, c.kind n = .concurrentState ∨ c.next ≤ n →
    c.regions n = (d.filter (·.1.inside n)).map (·.2)
  positive : 0 < c.next

variable {d : List (CreateCall G × ℕ)} {q : CreateCall G}

/-- A table in which every entry stands under a key of its own gets another one. -/
lemma forall_table_append {K : Type} [DecidableEq K] {f : K → Option ℕ}
    {key : CreateCall G → Option K}
    (h : ∀ k u, f k = some u ↔ ∃ q, (q, u) ∈ d ∧ key q = some k)
      (hfree : ∀ k, key q = some k → f k = none)
    {g : K → Option ℕ} (hg : ∀ k, g k = if key q = some k then some s else f k) (k : K) (u : ℕ) :
    g k = some u ↔ ∃ q', (q', u) ∈ d ++ [(q, s)] ∧ key q' = some k := by
  rw [hg]
  simp only [List.mem_append, List.mem_singleton, Prod.mk.injEq]
  by_cases hk : key q = some k
  · have hnone : ∀ q', (q', u) ∈ d → key q' ≠ some k := fun q' hq hk' => by
      have := (h k u).mpr ⟨q', hq, hk'⟩
      rw [hfree k hk] at this
      cases this
    rw [if_pos hk, Option.some.injEq]
    constructor
    · rintro rfl
      exact ⟨q, Or.inr ⟨rfl, rfl⟩, hk⟩
    · rintro ⟨q', hq | ⟨rfl, rfl⟩, hk'⟩
      · exact absurd hk' (hnone q' hq)
      · rfl
  · rw [if_neg hk, h]
    constructor
    · rintro ⟨q', hq, hk'⟩
      exact ⟨q', Or.inl hq, hk'⟩
    · rintro ⟨q', hq | ⟨rfl, rfl⟩, hk'⟩
      · exact ⟨q', hq, hk'⟩
      · exact absurd hk' hk

namespace Construction

/-- A call that throws leaves everything consistent. -/
lemma Consistent.of_error (h : c.Consistent d) (hr : c'.toRegistry = c.toRegistry)
    (hn : c.next ≤ c'.next)
    (hk : ∀ q < c.next, c'.kind q = c.kind q ∧ c'.context q = c.context q) : c'.Consistent d := by
  have howned : c'.ownedStates = c.ownedStates := congrArg Registry.ownedStates hr
  refine ⟨howned ▸ h.owned, howned ▸ h.nodup, fun hs => (h.lt (howned ▸ hs)).trans_le hn,
    fun hd => ?_, fun {r s} hd => ?_, ?_, ?_, ?_, fun n hkn => ?_, h.positive.trans_le hn⟩
  · obtain ⟨p, hp, hlt⟩ := h.parent hd
    exact ⟨p, hp, hlt.trans_le hn⟩
  · have hs : s ∈ c.ownedStates := h.owned ▸ List.mem_map_of_mem (f := (·.2)) hd
    obtain ⟨h₁, h₂⟩ := hk s (h.lt hs)
    rw [h₁, h₂]
    exact h.kind hd
  · rw [show c'.states = c.states from congrArg Registry.states hr]
    exact h.states
  · rw [show c'.startState = c.startState from congrArg Registry.startState hr]
    exact h.startState
  · rw [show c'.history = c.history from congrArg Registry.history hr]
    exact h.history
  · rw [show c'.regions = c.regions from congrArg Registry.regions hr]
    refine h.regions n ?_
    by_cases hlt : n < c.next
    · exact Or.inl ((hk n hlt).1 ▸ hkn.resolve_right (by omega))
    · exact Or.inr (by omega)

/-- Nor does a call that creates a state. -/
lemma Consistent.of_creates (h : c.Consistent d) (hp : q.parent = some p) (hlt : p < c.next)
    (hc : Statechart.Creates q.creation q.name p s c c') : c'.Consistent (d ++ [(q, s)]) := by
  have hs := hc.fresh
  have hnew : s ∉ c.ownedStates := fun hmem => by
    have := h.lt hmem
    omega
  have hps : p ≠ s := by omega
  refine ⟨?_, ?_, fun {s'} hs' => ?_, fun {r' s'} hd => ?_, fun {r' s'} hd => ?_, ?_, ?_, ?_,
    fun n hn => ?_, by rw [hc.next]; omega⟩
  · rw [hc.ownedStates, h.owned, List.map_append]
    rfl
  · rw [hc.ownedStates]
    refine List.nodup_append.mpr ⟨h.nodup, List.nodup_singleton _, fun a ha b hb hab => hnew ?_⟩
    rwa [← List.mem_singleton.mp hb, ← hab]
  · rw [hc.next]
    rw [hc.ownedStates] at hs'
    rcases List.mem_append.mp hs' with hs' | hs'
    · exact (h.lt hs').trans (Nat.lt_succ_self _)
    · rw [List.mem_singleton.mp hs', hs]
      exact Nat.lt_succ_self _
  · rw [hc.next]
    rcases List.mem_append.mp hd with hd | hd
    · obtain ⟨p', hp', hlt'⟩ := h.parent hd
      exact ⟨p', hp', by omega⟩
    · obtain ⟨rfl, rfl⟩ := Prod.mk.inj (List.mem_singleton.mp hd)
      exact ⟨p, hp, by omega⟩
  · rw [hc.kind, hc.context]
    rcases List.mem_append.mp hd with hd | hd
    · have hmem : s' ∈ c.ownedStates := h.owned ▸ List.mem_map_of_mem (f := (·.2)) hd
      have hne : s' ≠ s := fun heq => hnew (heq ▸ hmem)
      rw [Function.update_of_ne hne, Function.update_of_ne hne]
      exact h.kind hd
    · obtain ⟨rfl, rfl⟩ := Prod.mk.inj (List.mem_singleton.mp hd)
      rw [Function.update_self, Function.update_self, hp]
      exact ⟨rfl, rfl⟩
  · refine forall_table_append h.states (fun k hk => ?_) fun k => ?_
    · rw [← Option.some.inj hk]
      exact hc.unused
    · rw [hc.states, Function.update_apply]
      simp [eq_comm]
  · refine forall_table_append h.startState (fun k hk => ?_) fun k => ?_
    · by_cases hstart : q.creation.kind = .pseudoState .start
      · rw [CreateCall.startOf, if_pos hstart, hp] at hk
        rw [← Option.some.inj hk]
        exact hc.start_free hstart
      · rw [CreateCall.startOf, if_neg hstart] at hk
        cases hk
    · rw [hc.startState, CreateCall.startOf]
      by_cases hstart : q.creation.kind = .pseudoState .start
      · simp [hstart, hp, Function.update_apply, eq_comm]
      · simp [hstart]
  · refine forall_table_append h.history (fun k hk => ?_) fun k => ?_
    · by_cases hhist : q.creation.kind.isHistory = true
      · rw [CreateCall.historyOf, if_pos hhist, hp] at hk
        rw [← Option.some.inj hk]
        exact (hc.history_free hhist).1
      · rw [CreateCall.historyOf, if_neg hhist] at hk
        cases hk
    · rw [hc.history, CreateCall.historyOf]
      by_cases hhist : q.creation.kind.isHistory = true
      · simp [hhist, hp, Function.update_apply, eq_comm]
      · simp [hhist]
  · have hkind : n ≠ s → c'.kind n = c.kind n := fun hne => by
      rw [hc.kind, Function.update_of_ne hne]
    have hbase := h.regions n <| by
      by_cases hns : n = s
      · exact Or.inr (by omega)
      · exact hn.imp (fun hk => (hkind hns).symm.trans hk) fun hle => by rw [hc.next] at hle; omega
    rw [hc.regions, List.filter_append, List.map_append, ← hbase]
    cases hin : q.inside n with
    | true =>
        -- only a concurrent state can be the parent here
        obtain ⟨hk, hpn⟩ : q.creation.kind = .hierarchicalState ∧ q.parent = some n := by
          simpa [CreateCall.inside] using hin
        obtain rfl := Option.some.inj (hp.symm.trans hpn)
        have hconc : c.kind p = .concurrentState := by
          rw [← hkind hps]
          exact hn.resolve_right (by rw [hc.next]; omega)
        simp [hk, hconc, hin]
    | false =>
        have hin' : ¬ (q.creation.kind = .hierarchicalState ∧ p = n) := by
          simpa [CreateCall.inside, hp] using hin
        split
        · rename_i hk
          have hne : n ≠ p := fun heq => hin' ⟨hk.1, heq.symm⟩
          simp [hin, Function.update_of_ne hne]
        · simp [hin]

lemma Consistent.parent_lt (h : c.Consistent d) (hp : c.IsParent p) : p < c.next := by
  rcases hp with rfl | ⟨hp, -⟩
  · exact h.positive
  · exact h.lt hp

end Construction

/-- A call of `create` keeps the registries consistent. -/
lemma Construction.Consistent.tryCreate
    {l : List (CreateCall G × Except StatechartException ℕ)}
    {res : Except StatechartException ℕ} (h : c.Consistent (Building.created l))
    (hp : ∀ p, q.parent = some p → p < c.next)
    (hres : Statechart.tryCreate q.creation q.name q.parent c = (res, c')) :
    c'.Consistent (Building.created ((q, res) :: l)) := by
  have hcases := Statechart.tryCreate_cases (x := q.creation) (c := c) q.name hp
  rw [hres] at hcases
  cases res with
  | error e =>
      obtain ⟨hr, hn, hk⟩ := hcases
      exact h.of_error hr hn hk
  | ok s =>
      obtain ⟨p, hqp, hc⟩ := hcases
      exact h.of_creates hqp (hp p hqp) hc

lemma Construction.consistent_new : ({} : Construction G).Consistent [] :=
  ⟨rfl, .nil, by simp, by simp, by simp, by simp, by simp, by simp, by simp, by simp⟩

/-- The registries are consistent after any calls. -/
lemma Building.consistent {l : List (CreateCall G × Except StatechartException ℕ)}
    (h : Building l c) :
    c.Consistent (Building.created l) := by
  induction h with
  | new => exact Construction.consistent_new
  | create _ hp hres ih => exact ih.tryCreate (fun p h => ih.parent_lt (hp p h)) hres

lemma CreateCall.startOf_eq_some : q.startOf = some p ↔ q.creation.kind = .pseudoState .start
    ∧ q.parent = some p := by
  rw [CreateCall.startOf]
  split <;> simp [*]

lemma CreateCall.historyOf_eq_some : q.historyOf = some p ↔ q.creation.kind.isHistory = true
    ∧ q.parent = some p := by
  rw [CreateCall.historyOf]
  split <;> simp [*]

/-- **The registries.** After any calls of `create`, of which some throw, the table of names maps
the names of the states created to these states, each to its own; the start state and the history of
a parent are the one state of this kind that was created in it, or null; the regions of a concurrent
state are the hierarchical states created in it, in this order and once each; and a further call
that throws leaves all registries as they are. -/
theorem Building.registers_exact {l : List (CreateCall G × Except StatechartException ℕ)}
    (h : Building l c) :
    (∀ name s, c.states name = some s ↔ ∃ q, (q, s) ∈ Building.created l ∧ q.name = name)
    ∧ (∀ name name' s, c.states name = some s → c.states name' = some s → name = name')
    ∧ (∀ p s, c.startState p = some s ↔ ∃ q, (q, s) ∈ Building.created l
        ∧ q.creation.kind = .pseudoState .start ∧ q.parent = some p)
    ∧ (∀ p s, c.history p = some s ↔ ∃ q, (q, s) ∈ Building.created l
        ∧ q.creation.kind.isHistory = true ∧ q.parent = some p)
    ∧ (∀ n, c.kind n = .concurrentState → (c.regions n).Nodup
        ∧ c.regions n = ((Building.created l).filter fun q =>
            q.1.creation.kind = .hierarchicalState ∧ q.1.parent = some n).map (·.2))
    ∧ c.ownedStates = (Building.created l).map (·.2)
    ∧ ∀ (q : CreateCall G) e c', (∀ p, q.parent = some p → c.IsParent p) →
        Statechart.tryCreate q.creation q.name q.parent c = (.error e, c') →
          c'.toRegistry = c.toRegistry := by
  have hc := h.consistent
  have hsub : ((Building.created l).map (·.2)).Nodup := hc.owned ▸ hc.nodup
  refine ⟨fun name s => by simpa using hc.states name s, fun name name' s hn hn' => ?_,
    fun p s => ?_, fun p s => ?_, fun n hn => ⟨?_, ?_⟩, hc.owned, fun q e c' hp hres => ?_⟩
  · obtain ⟨r, hr, hrn⟩ := (hc.states name s).mp hn
    obtain ⟨r', hr', hrn'⟩ := (hc.states name' s).mp hn'
    have heq : (r, s) = (r', s) := List.inj_on_of_nodup_map hsub hr hr' rfl
    obtain rfl := congrArg Prod.fst heq
    exact Option.some.inj (hrn.symm.trans hrn')
  · simpa only [CreateCall.startOf_eq_some] using hc.startState p s
  · simpa only [CreateCall.historyOf_eq_some] using hc.history p s
  · rw [hc.regions n (Or.inl hn)]
    exact hsub.sublist (List.filter_sublist.map _)
  · rw [hc.regions n (Or.inl hn)]
    rfl
  · have hcases := Statechart.tryCreate_cases (x := q.creation) (c := c) q.name
      fun p h => hc.parent_lt (hp p h)
    rw [hres] at hcases
    exact hcases.1

/-! ### An instance -/

namespace Clash

/-- A concurrent state with a region, which gets a start state; then a second start state, a history
of the chart, a name in use and a null parent. -/
def requests : List (CreateCall Unit) :=
  [⟨.concurrentState, "both", some 0⟩, ⟨.hierarchicalState, "left", some 1⟩,
    ⟨.pseudoState .start, "start", some 2⟩, ⟨.pseudoState .start, "again", some 2⟩,
    ⟨.pseudoState .history, "past", some 0⟩, ⟨.state, "left", some 0⟩, ⟨.state, "lost", none⟩,
    ⟨.condition none (some 2) none, "choice", some 0⟩]

/-- The calls and the chart after the first `n` of them. -/
def run : ℕ → List (CreateCall Unit × Except StatechartException ℕ) × Construction Unit
  | 0 => ([], {})
  | n + 1 =>
      match requests[n]? with
      | none => run n
      | some r =>
          let res := Statechart.tryCreate r.creation r.name r.parent (run n).2
          ((r, res.1) :: (run n).1, res.2)

lemma building_run {n : ℕ} {q : CreateCall Unit} (h : Building (run n).1 (run n).2)
    (hq : requests[n]? = some q) (hp : ∀ p ∈ q.parent, (run n).2.IsParent p) :
    Building (run (n + 1)).1 (run (n + 1)).2 := by
  simp only [run, hq]
  exact .create h hp rfl

/-- The second start state is not entered, nor are the others that fail. -/
theorem registries_run : (∀ name s, (run 8).2.states name = some s
      ↔ ∃ q, (q, s) ∈ Building.created (run 8).1 ∧ q.name = name)
    ∧ (run 8).2.ownedStates = [1, 2, 3, 6] ∧ (run 8).2.startState 2 = some 3
      ∧ (run 8).2.regions 1 = [2] := by
  have h₁ : Building (run 1).1 (run 1).2 := building_run .new rfl (by decide)
  have h₂ := building_run h₁ rfl (by decide)
  have h₃ := building_run h₂ rfl (by decide)
  have h₄ := building_run h₃ rfl (by decide)
  have h₅ := building_run h₄ rfl (by decide)
  have h₆ := building_run h₅ rfl (by decide)
  have h₇ := building_run h₆ rfl (by decide)
  have h₈ := building_run h₇ rfl (by decide)
  exact ⟨(Building.registers_exact h₈).1, by decide, by decide, by decide⟩

end Clash

/-! ### Finished charts -/

section Built

variable {S T E P : Type} [DecidableEq S] {ch : Chart S T E P} {address : S → ℕ} {u : S}

/-- `ch` is the chart `c`, its states standing at the given addresses. -/
structure Chart.Built (ch : Chart S T E P) (c : Construction G) (address : S → ℕ) : Prop where
  injective : Function.Injective address
  ownedStates : ch.ownedStates.map address = c.ownedStates
  kind : ∀ {s}, s ∈ ch.ownedStates → c.kind (address s) = ch.kind s
  context : ∀ {s}, s ∈ ch.ownedStates → c.context (address s) = (ch.context s).map address

/-- The states of some kind inside `u`, as they were created. -/
lemma Chart.Built.filter_eq (hb : ch.Built c address) (hc : c.Consistent d)
    (k : StateKind → Bool) :
    (ch.ownedStates.filter fun s => k (ch.kind s) ∧ ch.context s = some u).map address
      = (d.filter fun q => k q.1.creation.kind ∧ q.1.parent = some (address u)).map (·.2) := by
  have hcreated : (d.filter fun q =>
      k q.1.creation.kind ∧ q.1.parent = some (address u)).map (·.2)
        = c.ownedStates.filter fun s => k (c.kind s) ∧ c.context s = some (address u) := by
    rw [hc.owned, List.filter_map]
    refine congrArg (List.map _) (List.filter_congr fun q hq => ?_)
    obtain ⟨hk, hp⟩ := hc.kind (r := q.1) (s := q.2) hq
    simp [hk, hp]
  rw [hcreated, ← hb.ownedStates, List.filter_map]
  refine congrArg (List.map _) (List.filter_congr fun s hs => ?_)
  have hiff : (ch.context s).map address = some (address u) ↔ ch.context s = some u := by
    rw [← Option.map_some, Option.map_inj_right hb.injective]
  simp [hb.kind hs, hb.context hs, hiff]

lemma eq_head?_of_forall_mem_iff {f : Option ℕ} {l : List ℕ} (h : ∀ s, f = some s ↔ s ∈ l) :
    f = l.head? := by
  cases l with
  | nil => exact Option.eq_none_iff_forall_ne_some.mpr fun s hs => by simpa using (h s).mp hs
  | cons a l => exact (h a).mpr List.mem_cons_self

/-- **The start state.** `m_startState` is the start state of the finished chart. -/
theorem Chart.Built.startState_eq (hb : ch.Built c address) (hc : c.Consistent d) (u : S) :
    c.startState (address u) = (ch.startState u).map address := by
  have hfilter := hb.filter_eq hc (u := u) fun k => k = .pseudoState .start
  rw [Chart.startState, ← List.head?_filter, ← List.head?_map]
  simp only [decide_eq_true_eq] at hfilter
  rw [hfilter]
  refine eq_head?_of_forall_mem_iff fun s => ?_
  rw [hc.startState]
  simp [CreateCall.startOf_eq_some]

/-- **The history.** `m_history` is the history of the finished chart. -/
theorem Chart.Built.history_eq (hb : ch.Built c address) (hc : c.Consistent d) (u : S) :
    c.history (address u) = (ch.history u).map address := by
  have hfilter := hb.filter_eq hc (u := u) StateKind.isHistory
  rw [Chart.history, ← List.head?_filter, ← List.head?_map, hfilter]
  refine eq_head?_of_forall_mem_iff fun s => ?_
  rw [hc.history]
  simp [CreateCall.historyOf_eq_some]

/-- **The regions.** `m_regions` are the regions of the finished chart. -/
theorem Chart.Built.regions_eq (hb : ch.Built c address) (hc : c.Consistent d)
    (hu : ch.kind u = .concurrentState) : c.regions (address u) = (ch.regions u).map address := by
  have hmem : u ∈ ch.ownedStates := (ch.mem_ownedStates u).mpr fun hroot => by
    simp [(ch.kind_statechart u).mpr hroot] at hu
  have hfilter := hb.filter_eq hc (u := u) fun k => k = .hierarchicalState
  simp only [decide_eq_true_eq] at hfilter
  rw [hc.regions _ (Or.inl ((hb.kind hmem).trans hu)), Chart.regions, hfilter]
  rfl

end Built

end CppStatecharts
