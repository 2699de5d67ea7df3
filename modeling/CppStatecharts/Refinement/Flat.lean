import CppStatecharts.Semantics.Relabel
import CppStatecharts.Semantics.Fuel
import CppStatecharts.Timers.Frame

/-!
Flat charts refine an automaton.

* `Reference.Config`, `Reference.react`, `Reference.Runs`: the automaton. In a state it takes the
  first enabled transition, runs the actions in order, and goes on with the null event until nothing
  is enabled. The flag `ahead` tells whether a transition into a pseudo-state has to look ahead for
  a way out of it, as in the source.
* `Chart.Flat`: all states are children of the chart, and none of them has an inside.
* `World.Shows`, `World.Matches`: a world that the automaton describes.
* `Reference.runs_of_returnsAll`: a flat chart does what the automaton does. Without the look-ahead
  it does not: `Hesitant.not_runs`.
-/

namespace CppStatecharts

variable {S T E P : Type} [DecidableEq S]

/-! ### The automaton -/

namespace Reference

/-- The current state, the parameter, and the actions executed so far, newest first. -/
structure Config (S T P : Type) where
  current : Option S
  param : P
  actions : List (Obs S T)

variable (c : Chart S T E P) (ahead : Bool)

/-- The metadata that callbacks see in the state `q`: the chart and `q` are active. -/
def seen (q : S) : Metadata S := (Metadata.reset.activate none c.root).activate (some c.root) q

/-- The metadata that callbacks see once `q` is left. -/
def left (q : S) : Metadata S := (seen c q).deactivate false q

/-- The trigger is absent or matches; nothing matches the null event. -/
def triggers (e : Option E) (q : S) (p : P) (t : T) : Bool :=
  match c.event t with
  | none => true
  | some ev => e.isSome && c.equals ev e (seen c q) p

def holds (q : S) (p : P) (t : T) : Bool :=
  match c.guard t with
  | none => true
  | some g => g (seen c q) p

/-- The trigger matches, the guard holds, and, if the automaton looks ahead, a pseudo-state can be
left again. -/
def enabled (e : Option E) (q : S) (p : P) (t : T) : Bool :=
  triggers c e q p t && holds c q p t
    && (!ahead || c.internal t || !(c.kind (c.target t)).isPseudo
      || (c.transitions (c.target t)).any (holds c q p))

/-- Runs an action, if there is one. -/
def act (o : Obs S T) (a : Option (Action S P)) (m : Metadata S) (k : Config S T P) :
    Config S T P :=
  match a with
  | none => k
  | some f => { k with param := (f m k.param).2, actions := o :: k.actions }

/-- Exit, action, entry and do; just the action for an internal transition. -/
def fire (q : S) (t : T) (k : Config S T P) : Config S T P :=
  if c.internal t then act (.effect t) (c.action t) (seen c q) k
  else
    let x := c.target t
    let k := act (.exit q) (c.exitAction q) (left c q) k
    let k := act (.effect t) (c.action t) (left c q) k
    let k := act (.entry x) (c.entryAction x) (seen c x) k
    let k := if ahead && (c.kind x).isPseudo then k else act (.doing x) (c.doAction x) (seen c x) k
    { k with current := some x }

/-- The first enabled transition of the current state. -/
def react (e : Option E) (k : Config S T P) : Option (Config S T P) :=
  k.current.bind fun q =>
    ((c.transitions q).find? (enabled c ahead e q k.param)).map fun t => fire c ahead q t k

/-- Goes on with the null event until no transition is enabled. -/
inductive Settles : Config S T P → Config S T P → Prop
  | rest {k} : react c ahead none k = none → Settles k k
  | step {k k₁ k'} : react c ahead none k = some k₁ → Settles k₁ k' → Settles k k'

def Dispatches (e : Option E) (k k' : Config S T P) : Prop :=
  Settles c ahead ((react c ahead e k).getD k) k'

def Calls : Call E P → Config S T P → Config S T P → Prop
  | .start p, k, k' =>
      Dispatches c ahead none { k with current := c.startState c.root, param := p } k'
  | .dispatch e p, k, k' => Dispatches c ahead e { k with param := p } k'

/-- A sequence of calls. -/
def Runs : List (Call E P) → Config S T P → Config S T P → Prop
  | [], k, k' => k' = k
  | a :: l, k, k' => ∃ k₁, Calls c ahead a k k₁ ∧ Runs l k₁ k'

variable {c ahead} {k k₁ k₂ : Config S T P}

omit [DecidableEq S] in
@[simp] lemma current_act {o : Obs S T} {a : Option (Action S P)} {m : Metadata S} :
    (act o a m k).current = k.current := by
  cases a <;> rfl

lemma Settles.unique (h₁ : Settles c ahead k k₁) (h₂ : Settles c ahead k k₂) : k₁ = k₂ := by
  induction h₁ with
  | rest h =>
      cases h₂ with
      | rest => rfl
      | step h' => rw [h] at h'; cases h'
  | step h _ ih =>
      cases h₂ with
      | rest h' => rw [h] at h'; cases h'
      | step h' h₂ =>
          obtain rfl := Option.some.inj (h.symm.trans h')
          exact ih h₂

lemma Calls.unique {a : Call E P} (h₁ : Calls c ahead a k k₁) (h₂ : Calls c ahead a k k₂) :
    k₁ = k₂ := by
  cases a <;> exact Settles.unique h₁ h₂

/-- The automaton is deterministic. -/
lemma Runs.unique {l : List (Call E P)} (h₁ : Runs c ahead l k k₁) (h₂ : Runs c ahead l k k₂) :
    k₁ = k₂ := by
  induction l generalizing k with
  | nil => exact Eq.trans h₁ (Eq.symm h₂)
  | cons a l ih =>
      obtain ⟨k₃, hc₁, h₁⟩ := h₁
      obtain ⟨k₄, hc₂, h₂⟩ := h₂
      obtain rfl := hc₁.unique hc₂
      exact ih h₁ h₂

end Reference

/-! ### Flat charts -/

/-- All states are children of the chart, and ordinary, final or its start pseudo-state; transitions
lead from one to another. -/
structure Chart.Flat (c : Chart S T E P) : Prop where
  context : ∀ s, s ≠ c.root → c.context s = some c.root
  kind : ∀ s, s ≠ c.root →
    c.kind s = .state ∨ c.kind s = .finalState ∨ c.kind s = .pseudoState .start
  target : ∀ t, c.target t ≠ c.root

namespace Chart.Flat

variable {c : Chart S T E P} {q x s : S} {t : T}

omit [DecidableEq S] in
lemma path_eq (hf : c.Flat) (hs : s ≠ c.root) : c.path s = [s] := by
  have hp := hf.context s hs
  have hd := c.depth_context hp
  obtain ⟨n, hn⟩ : ∃ n, c.depth s = n + 1 := ⟨c.depth s - 1, by omega⟩
  rw [Chart.path, hn, Chart.walk, hp]
  simp [(c.kind_statechart c.root).mpr rfl]

lemma calculateStateSet (hf : c.Flat) (hq : q ≠ c.root) (hx : x ≠ c.root) :
    c.calculateStateSet q x = ([q], [x]) := by
  by_cases h : q = x
  · subst h
    exact c.calculateStateSet_self q
  · have hne : x ≠ q := fun h' => h h'.symm
    simp [Chart.calculateStateSet, hf.path_eq hq, hf.path_eq hx, h, hne, commonPrefix]

lemma deactivates (hf : c.Flat) (ht : c.internal t = false) (hs : c.source t ≠ c.root) :
    c.deactivates t = [c.source t] := by
  simp [Chart.deactivates, ht, hf.calculateStateSet hs (hf.target t)]

lemma activates (hf : c.Flat) (ht : c.internal t = false) (hs : c.source t ≠ c.root) :
    c.activates t = [c.target t] := by
  simp [Chart.activates, ht, hf.calculateStateSet hs (hf.target t)]

omit [DecidableEq S] in
/-- A pseudo-state is the start pseudo-state. -/
lemma kind_of_isPseudo (hf : c.Flat) (hs : s ≠ c.root) (hp : (c.kind s).isPseudo = true) :
    c.kind s = .pseudoState .start := by
  rcases hf.kind s hs with h | h | h
  · simp [h, StateKind.isPseudo] at hp
  · simp [h, StateKind.isPseudo] at hp
  · exact h

omit [DecidableEq S] in
lemma ne_root_of_isPseudo (hp : (c.kind s).isPseudo = true) : s ≠ c.root := by
  rintro rfl
  rw [(c.kind_statechart _).mpr rfl] at hp
  cases hp

omit [DecidableEq S] in
/-- There is one pseudo-state only. -/
lemma eq_of_isPseudo (hf : c.Flat) (hs : (c.kind s).isPseudo = true)
    (hx : (c.kind x).isPseudo = true) : s = x := by
  have hs' := ne_root_of_isPseudo hs
  have hx' := ne_root_of_isPseudo hx
  exact c.start_unique (hf.kind_of_isPseudo hs' hs) (hf.kind_of_isPseudo hx' hx)
    ((hf.context s hs').trans (hf.context x hx').symm)

omit [DecidableEq S] in
lemma isHistory (hf : c.Flat) (hs : s ≠ c.root) : (c.kind s).isHistory = false := by
  rcases hf.kind s hs with h | h | h <;> rw [h] <;> rfl

end Chart.Flat

/-! ### Worlds that the automaton describes -/

section Shows

open Reference

variable {c : Chart S T E P} {w w' : World S T E P} {m : Metadata S} {k : Config S T P}
variable {q x s : S} {t : T} {e : Option E} {b : Bool} {n : ℕ}

/-- Up to the timeout entries, the metadata is `m`; parameter and actions are those of `k`. -/
structure World.Shows (w : World S T E P) (m : Metadata S) (k : Config S T P) : Prop where
  data : w.data.untimed = m
  param : w.param = k.param
  performed : Obs.performed w.trace = k.actions

namespace World.Shows

omit [DecidableEq S] in
lemma untimed (h : w.Shows m k) : w.data.untimed = m.untimed := by
  rw [← h.data]
  exact Metadata.untimed_mapTimeouts.symm

omit [DecidableEq S] in
lemma isActive (h : w.Shows m k) : w.data.isActive x = m.isActive x := by
  rw [← h.data]
  exact Metadata.isActive_mapTimeouts.symm

omit [DecidableEq S] in
lemma current (h : w.Shows m k) : w.data.current x = m.current x := by
  rw [← h.data]
  exact Metadata.current_mapTimeouts.symm

omit [DecidableEq S] in
lemma log (h : w.Shows m k) {o : Obs S T} (ho : o.isAction = false) : (w.log o).Shows m k :=
  ⟨h.data, h.param, by simpa [Obs.performed, ho] using h.performed⟩

omit [DecidableEq S] in
/-- Both run an action. -/
lemma perform (h : w.Shows m k) {o : Obs S T} {a : Option (Action S P)} (ho : o.isAction = true)
    (hd : (w.perform o a).data = w.data) (ha : ∀ f, a = some f → f.Unaware) :
    (w.perform o a).Shows m (act o a m k) := by
  refine ⟨by rw [hd]; exact h.data, ?_, ?_⟩
  · cases a with
    | none => exact h.param
    | some f =>
        have hf := (ha f rfl).param w.data m w.param h.untimed
        rw [h.param] at hf
        simpa [World.perform, World.log, act, h.param] using hf
  · cases a with
    | none => exact h.performed
    | some f => simpa [World.perform, World.log, act, Obs.performed, ho] using h.performed

lemma activateData (h : w.Shows m k) :
    (c.activateData s w).Shows (m.activate (c.context s) s) k := by
  refine ⟨?_, h.param, h.performed⟩
  rw [← h.data, data_activateData]
  exact Metadata.mapTimeouts_activate rfl

omit [DecidableEq S] in
lemma cancelTimeouts (h : w.Shows m k) : (Chart.cancelTimeouts s w).Shows m k :=
  ⟨(congrArg Metadata.untimed data_cancelTimeouts).trans h.data,
    frame_cancelTimeouts.2.1.trans h.param, frame_cancelTimeouts.2.2.trans h.performed⟩

lemma scheduleTimeouts (h : w.Shows m k) : (c.scheduleTimeouts s w).Shows m k :=
  ⟨(Metadata.untimed_eq_of_agree (agree_scheduleTimeouts c w s)).trans h.data,
    frame_scheduleTimeouts.1.trans h.param, frame_scheduleTimeouts.2.trans h.performed⟩

lemma deactivateData (h : w.Shows m k) (hs : w.data.isActive s = true)
    (hk : (c.kind s).isHistory = false) :
    (c.deactivateData s w).Shows (m.deactivate false s) k := by
  obtain ⟨d, hd, -⟩ := w.data.exists_of_isActive hs
  unfold Chart.deactivateData
  rw [hd, hk]
  simp only [Bool.false_eq_true, ↓reduceIte]
  refine ⟨?_, h.param, h.performed⟩
  rw [← h.data, data_log, data_onData, Metadata.untimed, Metadata.untimed,
    Metadata.mapTimeouts_deactivate]

end World.Shows

/-! ### What callbacks see -/

lemma getData_seen (hq : q ≠ c.root) : (seen c q).getData x
    = if x = q then some { active := true }
      else if x = c.root then some { active := true, currentState := some q } else none := by
  unfold seen
  by_cases hxq : x = q
  · subst hxq
    rw [Metadata.getData_activate_self hq.symm, Metadata.getData_activate_root_of_ne hq, if_pos rfl]
    rfl
  by_cases hxr : x = c.root
  · subst hxr
    rw [Metadata.getData_activate_parent hxq, Metadata.getData_activate_root_self, if_neg hxq,
      if_pos rfl]
    rfl
  · rw [Metadata.getData_activate_of_ne hxq hxr, Metadata.getData_activate_root_of_ne hxr,
      if_neg hxq, if_neg hxr]
    rfl

lemma isActive_seen : (seen c q).isActive x = (decide (x = q) || decide (x = c.root)) := by
  simp [seen]

lemma current_seen (hq : q ≠ c.root) : (seen c q).current c.root = some q := by
  simp [Metadata.current, getData_seen hq, hq.symm]

lemma untimed_seen : (seen c q).untimed = seen c q := by
  rw [Metadata.untimed, seen, Metadata.mapTimeouts_activate rfl, Metadata.mapTimeouts_activate rfl]
  rfl

/-- Entering `x` after `q` is left. -/
lemma activate_left (hq : q ≠ c.root) (hx : x ≠ c.root) :
    (left c q).activate (some c.root) x = seen c x := by
  have hleft : ∀ y, (left c q).getData y
      = if y = c.root then some { active := true, currentState := some q } else none := by
    intro y
    by_cases hy : y = q
    · subst hy
      simp [left, Metadata.getData_deactivate_self, hq]
    · simp [left, Metadata.getData_deactivate_of_ne hy, getData_seen hq, hy]
  ext y : 1
  rw [getData_seen hx]
  by_cases hyx : y = x
  · subst hyx
    rw [Metadata.getData_activate_self hx.symm, hleft, if_neg hx, if_pos rfl]
    rfl
  by_cases hyr : y = c.root
  · subst hyr
    rw [Metadata.getData_activate_parent hyx, hleft, if_neg hyx, if_pos rfl, if_pos rfl]
    rfl
  · rw [Metadata.getData_activate_of_ne hyx hyr, hleft, if_neg hyx, if_neg hyr, if_neg hyr]

/-! ### The look-ahead -/

lemma guardHolds_eq (hu : c.Unaware) (h : w.Shows (seen c q) k) :
    Transition.guardHolds c t w = holds c q k.param t := by
  unfold Transition.guardHolds holds
  cases hg : c.guard t with
  | none => rfl
  | some g => exact h.param ▸ hu.guard hg _ _ _ h.untimed

lemma triggered_eq (hu : c.Unaware) (h : w.Shows (seen c q) k) :
    Transition.triggered c t e w = triggers c e q k.param t := by
  unfold Transition.triggered triggers
  cases c.event t with
  | none => rfl
  | some ev =>
      have hev := hu.equals ev e _ _ w.param h.untimed
      rw [h.param] at hev
      simp only [h.param, hev, Bool.and_comm]

variable {v : Methods S T E P}

/-- The methods look ahead as the automaton does. -/
def Methods.Foresee (c : Chart S T E P) (q : S) (v : Methods S T E P) (w : World S T E P) : Prop :=
  ∀ s b w', (c.kind s).isPseudo = true → Returns (v.lookup s) w b w' →
    b = (c.transitions s).any (holds c q w.param)

lemma allowed_eq (hf : c.Flat) (hu : c.Unaware) (h : w.Shows (seen c q) k) (hv : v.Foresee c q w)
    (hs : c.source t ≠ c.root) (ha : Returns (Transition.allowed c v t) w b w') :
    b = (holds c q k.param t && (c.internal t || !(c.kind (c.target t)).isPseudo
      || (c.transitions (c.target t)).any (holds c q k.param))) := by
  have hg := guardHolds_eq (t := t) hu h
  cases hh : holds c q k.param t with
  | false =>
      rw [hh] at hg
      simp only [Transition.allowed, returns_bind, returns_peek, hg] at ha
      obtain ⟨_, _, ⟨rfl, rfl⟩, ha⟩ := ha
      simpa using (returns_pure.mp (by simpa using ha)).1
  | true =>
      rw [hh] at hg
      cases hi : c.internal t with
      | true =>
          have hl : c.activates t = [] := by simp [Chart.activates, hi]
          exact ((Transition.returns_allowed hg (by simp [hl])).mp ha).1
      | false =>
          have hl := hf.activates hi hs
          cases hp : (c.kind (c.target t)).isPseudo with
          | false => exact ((Transition.returns_allowed hg (by simp [hl, hp])).mp ha).1
          | true =>
              have hlook := (Transition.returns_allowed_of_isPseudo hg (by simp [hl]) hp).mp ha
              have hb := hv _ _ _ hp hlook
              rw [hb, h.param]
              simp

/-- By induction on the nested calls: a transition of the start pseudo-state to itself asks for what
is being looked for. -/
lemma foresee_methods (hf : c.Flat) (hu : c.Unaware) (h : w.Shows (seen c q) k) :
    ∀ n, (c.methods n).Foresee c q w
  | 0 => fun _ _ _ _ hl => absurd hl (by simp [Chart.methods])
  | n + 1 => by
      intro s b w' hs hl
      have hroot := Chart.Flat.ne_root_of_isPseudo hs
      have hjoin : c.kind s ≠ .pseudoState .join := by rw [hf.kind_of_isPseudo hroot hs]; decide
      have hany := (PseudoState.returns_lookup hjoin).mp hl
      have hstep : ∀ t ∈ c.transitions s, ∀ b w',
          Returns (Transition.allowed c (c.methods n) t) w b w' →
          b = holds c q w.param t ∧ (b = false → w' = w) := by
        intro t ht b w' ha
        have hsrc := (Chart.mem_transitions.mp ht).2
        refine ⟨?_, fun _ => (pure_methods c n).allowed ha⟩
        rw [allowed_eq hf hu h (foresee_methods hf hu h n) (hsrc ▸ hroot) ha, ← h.param]
        cases hh : holds c q w.param t with
        | false => rfl
        | true =>
            cases hp : (c.kind (c.target t)).isPseudo with
            | false => simp
            | true =>
                have hself : (c.transitions s).any (holds c q w.param) = true :=
                  List.any_eq_true.mpr ⟨t, ht, hh⟩
                simp [hf.eq_of_isPseudo hp hs, hself]
      rcases anyM_find? hstep hany with ⟨hnone, rfl, -⟩ | ⟨t, ht, hsome, rfl, -⟩
      · simpa using hnone
      · exact (List.any_eq_true.mpr ⟨t, ht, List.find?_some hsome⟩).symm

/-! ### Taking a transition -/

lemma World.Shows.leave (h : w.Shows (seen c q) k) (hf : c.Flat) (hc : c.ActionsKeepData)
    (hu : c.Unaware) (hq : q ≠ c.root) (hd : Returns ((c.methods n).deactivate q) w ⟨⟩ w') :
    w'.Shows (left c q) (act (.exit q) (c.exitAction q) (left c q) k) := by
  cases n with
  | zero => exact absurd hd (by simp [Chart.methods])
  | succ n =>
      have hact : w.data.isActive q = true := h.isActive.trans (by simp [isActive_seen])
      have hd' : Returns (State.deactivate c q) w ⟨⟩ w' := by
        rcases hf.kind q hq with hk | hk | hk <;>
          simpa only [Chart.methods, Chart.step, hk] using hd
      rcases State.returns_deactivate.mp hd' with ⟨hn, -⟩ | ⟨-, rfl⟩
      · rw [hact] at hn
        cases hn
      · have hleft : (c.leave q w).Shows (left c q) k :=
          h.cancelTimeouts.deactivateData (by simpa using hact) (hf.isHistory hq)
        exact hleft.perform rfl hc.data_exit fun _ hf => hu.actions.exit hf

lemma World.Shows.arrive (h : w.Shows (left c q) k) (hf : c.Flat) (hc : c.ActionsKeepData)
    (hu : c.Unaware) (hq : q ≠ c.root) (hx : x ≠ c.root)
    (ha : Returns ((c.methods n).activate x) w b w') :
    w'.Shows (seen c x)
      (if (c.kind x).isPseudo then act (.entry x) (c.entryAction x) (seen c x) k
        else act (.doing x) (c.doAction x) (seen c x)
          (act (.entry x) (c.entryAction x) (seen c x) k)) := by
  have hseen : (c.activateData x w).Shows (seen c x) k := by
    have hact := h.activateData (c := c) (s := x)
    rwa [hf.context x hx, activate_left hq hx] at hact
  cases n with
  | zero => exact absurd ha (by simp [Chart.methods])
  | succ n =>
      cases hp : (c.kind x).isPseudo with
      | true =>
          have hk := hf.kind_of_isPseudo hx hp
          have ha' : Returns (PseudoState.activate c (c.methods n) x) w b w' := by
            simpa only [Chart.methods, Chart.step, hk] using ha
          obtain ⟨-, ⟨hh, -⟩ | ⟨-, hfork, -⟩ | ⟨-, -, rfl⟩⟩ := PseudoState.returns_activate.mp ha'
          · rw [hf.isHistory hx] at hh
            cases hh
          · rw [hk] at hfork
            cases hfork
          · exact hseen.perform rfl hc.data_entry fun _ hf => hu.actions.entry hf
      | false =>
          have ha' : Returns (State.activate c x) w b w' := by
            rcases hf.kind x hx with hk | hk | hk
            · simpa only [Chart.methods, Chart.step, hk] using ha
            · simpa only [Chart.methods, Chart.step, hk] using ha
            · simp [hk, StateKind.isPseudo] at hp
          have hact : w.data.isActive x = false := by
            rw [h.isActive, left, Metadata.isActive_deactivate, isActive_seen]
            by_cases hxq : x = q <;> simp [hxq, hx]
          rcases State.returns_activate.mp ha' with ⟨hn, -⟩ | ⟨-, -, rfl⟩
          · rw [hact] at hn
            cases hn
          · have harr : (c.arrive x w).Shows (seen c x) k := hseen.scheduleTimeouts
            have hent := harr.perform (o := .entry x) (a := c.entryAction x) rfl hc.data_entry
              fun _ hf => hu.actions.entry hf
            exact hent.perform rfl hc.data_doing fun _ hf => hu.actions.doing hf

/-- The world is the one the automaton is in. -/
structure World.Matches (c : Chart S T E P) (w : World S T E P) (k : Config S T P) : Prop where
  current : w.data.current c.root = k.current
  param : w.param = k.param
  performed : Obs.performed w.trace = k.actions
  data : ∀ q, k.current = some q → q ≠ c.root ∧ w.data.untimed = seen c q

lemma World.Matches.shows (h : w.Matches c k) (hq : k.current = some q) : w.Shows (seen c q) k :=
  ⟨(h.data q hq).2, h.param, h.performed⟩

lemma World.Shows.matches (h : w.Shows (seen c q) k) (hq : q ≠ c.root) (hk : k.current = some q) :
    w.Matches c k := by
  refine ⟨(h.current.trans (current_seen hq)).trans hk.symm, h.param, h.performed, ?_⟩
  rintro x hx
  obtain rfl := Option.some.inj (hk.symm.trans hx)
  exact ⟨hq, h.data⟩

/-- Both take the transition. -/
lemma World.Matches.fire (h : w.Matches c k) (hf : c.Flat) (hc : c.ActionsKeepData) (hu : c.Unaware)
    (hq : k.current = some q) (ht : c.source t = q)
    (hfire : Returns (Transition.fire c (c.methods n) t) w ⟨⟩ w') :
    w'.Matches c (Reference.fire c true q t k) := by
  have hroot := (h.data q hq).1
  obtain ⟨w₁, w₂, h₁, h₂, rfl⟩ := Transition.returns_fire.mp hfire
  have hs := (h.shows hq).log (o := .fire t w.data) rfl
  have heffect : ∀ {m : Metadata S} {k}, w₁.Shows m k →
      (w₁.perform (.effect t) (c.action t)).Shows m (act (.effect t) (c.action t) m k) :=
    fun h => h.perform rfl hc.data_effect fun _ hf => hu.actions.effect hf
  cases hi : c.internal t with
  | true =>
      simp only [Chart.deactivates, Chart.activates, hi, ↓reduceIte, returns_forM_nil,
        Transition.activateAll, returns_pure, true_and] at h₁ h₂
      rw [← h₁] at hs
      rw [h₂]
      rw [Reference.fire, if_pos hi]
      exact ((heffect hs).log (o := .fired t w.data _) rfl).matches hroot (current_act.trans hq)
  | false =>
      have hsrc : c.source t ≠ c.root := ht ▸ hroot
      rw [hf.deactivates hi hsrc, ht] at h₁
      rw [hf.activates hi hsrc] at h₂
      simp only [returns_forM_cons, returns_forM_nil, exists_eq_right'] at h₁
      simp only [Transition.activateAll, returns_bind, returns_pure] at h₂
      obtain ⟨_, _, h₂, -, rfl⟩ := h₂
      have hleft := heffect (hs.leave hf hc hu hroot h₁)
      have harr := (hleft.arrive hf hc hu hroot (hf.target t) h₂).log
        (o := .fired t w.data w₂.data) rfl
      rw [Reference.fire, if_neg (by simp [hi])]
      refine World.Shows.matches ⟨harr.data, ?_, ?_⟩ (hf.target t) rfl
      · cases hp : (c.kind (c.target t)).isPseudo <;> simpa [hp] using harr.param
      · cases hp : (c.kind (c.target t)).isPseudo <;> simpa [hp] using harr.performed

/-- A transition is tried: it fires if the automaton finds it enabled. -/
lemma execute_eq (hf : c.Flat) (hu : c.Unaware) (h : w.Shows (seen c q) k)
    (hs : c.source t ≠ c.root) (hx : Returns (Transition.execute c (c.methods n) t e) w b w') :
    b = enabled c true e q k.param t ∧ (b = false → w' = w) := by
  have hallowed : ∀ b, Returns (Transition.allowed c (c.methods n) t) w b w →
      enabled c true e q k.param t = (Transition.triggered c t e w && b) := by
    intro b ha
    have hb := allowed_eq hf hu h (foresee_methods hf hu h n) hs ha
    rw [hb, triggered_eq hu h, enabled]
    simp [Bool.and_assoc]
  rcases (Transition.returns_execute (pure_methods c n)).mp hx with
    ⟨rfl, ht, ha, -⟩ | ⟨rfl, rfl, ha⟩
  · exact ⟨by rw [hallowed true ha, ht]; rfl, by simp⟩
  · refine ⟨?_, fun _ => rfl⟩
    cases ht : Transition.triggered c t e w' with
    | false =>
        rw [triggered_eq hu h] at ht
        simp [enabled, ht]
    | true => simp [hallowed false (ha ht)]

/-! ### Calls -/

/-- What a pass does: nothing when the automaton is stuck, else the step of the automaton. -/
lemma World.Matches.pass (h : w.Matches c k) (hf : c.Flat) (hc : c.ActionsKeepData) (hu : c.Unaware)
    (hp : Returns (Statechart.pass c n e) w b w') :
    b = false ∧ react c true e k = none ∧ w'.Matches c k
      ∨ b = true ∧ ∃ k', react c true e k = some k' ∧ w'.Matches c k' := by
  simp only [Statechart.pass, returns_bind, returns_peek, h.current] at hp
  obtain ⟨_, w₁, ⟨rfl, hw⟩, hp⟩ := hp
  subst w₁
  cases hq : k.current with
  | none =>
      rw [hq] at hp
      obtain ⟨rfl, rfl⟩ := returns_pure.mp hp
      exact Or.inl ⟨rfl, by simp [react, hq], h⟩
  | some q =>
      rw [hq] at hp
      have hroot := (h.data q hq).1
      have hs := h.shows hq
      cases n with
      | zero => exact absurd hp (by simp [Chart.methods])
      | succ n =>
          have hp' : Returns (State.dispatch c (c.methods n) q e) w b w' := by
            rcases hf.kind q hroot with hk | hk | hk <;>
              simpa [Chart.methods, Chart.step, hk, PseudoState.dispatch, StateKind.isHistory]
                using hp
          have hstep : ∀ t ∈ c.transitions q, ∀ b w',
              Returns (Transition.execute c (c.methods n) t e) w b w' →
              b = enabled c true e q k.param t ∧ (b = false → w' = w) := fun t ht _ _ =>
            execute_eq hf hu hs ((Chart.mem_transitions.mp ht).2 ▸ hroot)
          rcases anyM_find? hstep hp' with ⟨hnone, rfl, rfl⟩ | ⟨t, ht, hsome, rfl, hx⟩
          · exact Or.inl ⟨rfl, by simp [react, hq, hnone], h⟩
          · rcases (Transition.returns_execute (pure_methods c n)).mp hx with
              ⟨-, -, -, hfire⟩ | ⟨hb, -⟩
            · exact Or.inr ⟨rfl, _, by simp [react, hq, hsome],
                h.fire hf hc hu hq (Chart.mem_transitions.mp ht).2 hfire⟩
            · cases hb

/-- The completion loop, unless it reaches the threshold. -/
lemma World.Matches.completionLoop (hf : c.Flat) (hc : c.ActionsKeepData) (hu : c.Unaware) :
    ∀ fuel {w : World S T E P} {k}, w.Matches c k →
      Returns (Statechart.completionLoop c n fuel) w false w' →
      ∃ k', Settles c true k k' ∧ w'.Matches c k'
  | 0, _, _, _, hl => absurd (returns_pure.mp hl).1 (by simp)
  | fuel + 1, w, k, h, hl => by
      obtain ⟨b, w₁, hp, hrest⟩ := returns_bind.mp hl
      rcases h.pass hf hc hu hp with ⟨rfl, hk, h₁⟩ | ⟨rfl, k₁, hk, h₁⟩
      · obtain ⟨-, rfl⟩ := returns_pure.mp hrest
        exact ⟨k, Settles.rest hk, h₁⟩
      · obtain ⟨k', hk', h'⟩ := completionLoop hf hc hu fuel h₁ hrest
        exact ⟨k', Settles.step hk hk', h'⟩

lemma World.Matches.dispatch (h : w.Matches c k) (hf : c.Flat) (hc : c.ActionsKeepData)
    (hu : c.Unaware) {rc : Bool} (hd : Returns (Statechart.dispatch c n e) w (.returned rc) w') :
    ∃ k', Dispatches c true e k k' ∧ w'.Matches c k' := by
  unfold Statechart.dispatch at hd
  obtain ⟨_, w₀, hpeek, hd⟩ := returns_bind.mp hd
  obtain ⟨rfl, hw⟩ := returns_peek.mp hpeek
  subst w₀
  rcases returns_ite.mp hd with ⟨-, hd⟩ | ⟨hnone, hd⟩
  · obtain ⟨b, w₁, hp, hd⟩ := returns_bind.mp hd
    obtain ⟨thrown, w₂, hl, hd⟩ := returns_bind.mp hd
    cases thrown with
    | true => cases (returns_pure.mp hd).1
    | false =>
        obtain ⟨-, rfl⟩ := returns_pure.mp hd
        rcases h.pass hf hc hu hp with ⟨-, hk, h₁⟩ | ⟨-, k₁, hk, h₁⟩
        · obtain ⟨k', hs, h'⟩ := World.Matches.completionLoop hf hc hu _ h₁ hl
          exact ⟨k', by rwa [Dispatches, hk], h'⟩
        · obtain ⟨k', hs, h'⟩ := World.Matches.completionLoop hf hc hu _ h₁ hl
          exact ⟨k', by rwa [Dispatches, hk], h'⟩
  · -- the chart was never started
    obtain ⟨-, rfl⟩ := returns_pure.mp hd
    have hk : k.current = none := by
      rw [← h.current, Metadata.current, Option.not_isSome_iff_eq_none.mp hnone]
      rfl
    have hstuck : ∀ e, react c true e k = none := fun e => by simp [react, hk]
    exact ⟨k, by rw [Dispatches, hstuck]; exact Settles.rest (hstuck none), h⟩

lemma World.Matches.enter (h : w.Matches c k) :
    (Statechart.enter c w).Matches c { k with current := c.startState c.root } := by
  have hroot := (c.context_root c.root).mpr rfl
  unfold Statechart.enter
  cases hst : c.startState c.root with
  | none =>
      refine ⟨?_, h.param, h.performed, fun _ h => by cases h⟩
      simp [hroot, Metadata.current_activate_none]
  | some st =>
      have hctx := (Chart.startState_eq_some hst).2
      have hne := Chart.ne_root_of_context hctx
      have hdata : (c.activateData st (c.activateData c.root
          ((w.onData fun _ => .reset).log .reset))).data = seen c st := by
        rw [data_activateData, data_activateData, hctx, hroot]
        rfl
      refine ⟨?_, h.param, h.performed, ?_⟩
      · simp only [hdata, current_seen hne]
      · rintro q ⟨⟩
        exact ⟨hne, by simp only [hdata, untimed_seen]⟩

/-- A call that returns. -/
lemma World.Matches.call (h : w.Matches c k) (hf : c.Flat) (hc : c.ActionsKeepData)
    (hu : c.Unaware) {a : Call E P} {rc : Bool}
    (ha : Returns (Statechart.call c n a) w (.returned rc) w') :
    ∃ k', Calls c true a k k' ∧ w'.Matches c k' := by
  have hparam : ∀ p, { w with param := p }.Matches c { k with param := p } :=
    fun p => ⟨h.current, rfl, h.performed, h.data⟩
  cases a with
  | start p =>
      simp only [Statechart.call, Statechart.start, returns_bind, returns_modify, exists_punit,
        exists_eq_left] at ha
      exact (hparam p).enter.dispatch hf hc hu ha
  | dispatch e p =>
      simp only [Statechart.call, returns_bind, returns_modify, exists_punit, exists_eq_left] at ha
      exact (hparam p).dispatch hf hc hu ha

end Shows

namespace Statechart

variable (c : Chart S T E P)

/-- A sequence of calls, none of which throws. -/
def ReturnsAll : List (Call E P) → World S T E P → World S T E P → Prop
  | [], w, w' => w' = w
  | a :: l, w, w' => ∃ rc w₁, Returned (fun n => call c n a) w (.returned rc) w₁
      ∧ ReturnsAll l w₁ w'

variable {c}

/-- A run of the code is a run of the automaton. -/
lemma ReturnsAll.runs (hf : c.Flat) (hc : c.ActionsKeepData) (hu : c.Unaware)
    {l : List (Call E P)} {w w' : World S T E P} {k : Reference.Config S T P} (h : w.Matches c k)
    (hl : ReturnsAll c l w w') : ∃ k', Reference.Runs c true l k k' ∧ w'.Matches c k' := by
  induction l generalizing w k with
  | nil => exact ⟨k, rfl, Eq.symm hl ▸ h⟩
  | cons a l ih =>
      obtain ⟨rc, w₁, ⟨n, ha⟩, hl⟩ := hl
      obtain ⟨k₁, hk₁, h₁⟩ := h.call hf hc hu ha
      obtain ⟨k', hk', h'⟩ := ih h₁ hl
      exact ⟨k', ⟨k₁, hk₁, hk'⟩, h'⟩

end Statechart

/-- **Flat charts refine the automaton.** In a flat chart whose actions leave the metadata alone, a
sequence of calls none of which throws ends in the current state, with the parameter and after the
actions, of the one run of the automaton on these calls. -/
theorem Reference.runs_of_returnsAll {c : Chart S T E P} (hf : c.Flat) (hc : c.ActionsKeepData)
    (hu : c.Unaware) {l : List (Call E P)} {p : P} {w : World S T E P}
    (hl : Statechart.ReturnsAll c l (World.fresh p) w) :
    ∃ k, (∀ k', Reference.Runs c true l ⟨none, p, []⟩ k' ↔ k' = k)
      ∧ w.data.current c.root = k.current ∧ w.param = k.param
      ∧ Obs.performed w.trace = k.actions := by
  have hfresh : (World.fresh p : World S T E P).Matches c ⟨none, p, []⟩ :=
    ⟨rfl, rfl, rfl, fun _ h => by cases h⟩
  obtain ⟨k, hk, h⟩ := hl.runs hf hc hu hfresh
  exact ⟨k, fun k' => ⟨fun h' => h'.unique hk, fun h' => h' ▸ hk⟩, h.current, h.param, h.performed⟩

/-! ### A start state without a way out -/

namespace Hesitant

inductive St where
  | chart | s | a
  deriving DecidableEq

instance : Fintype St := ⟨{.chart, .s, .a}, fun x => by cases x <;> decide⟩

inductive Tr where
  | begin | back
  deriving DecidableEq

instance : Fintype Tr := ⟨{.begin, .back}, fun t => by cases t <;> decide⟩

/-- The start state is left if the parameter is set, and entered again on the event `back`. -/
def chart : Chart St Tr Event Bool where
  name := "hesitant"
  root := .chart
  ownedStates := [.s, .a]
  ownedTransitions := [.begin, .back]
  kind
    | .chart => .statechart
    | .s => .pseudoState .start
    | .a => .state
  context
    | .chart => none
    | _ => some .chart
  depth
    | .chart => 0
    | _ => 1
  entryAction
    | .a => some fun m p => (m, p)
    | _ => none
  source
    | .begin => .s
    | .back => .a
  target
    | .begin => .a
    | .back => .s
  event
    | .begin => none
    | .back => some (.event "back")
  guard
    | .begin => some fun _ p => p
    | .back => none
  equals ev e _ _ := ev.equals e
  timeout := Event.timeout

lemma flat : chart.Flat where
  context := by decide
  kind := by decide
  target := by decide

lemma actionsKeepData : chart.ActionsKeepData := by
  refine ⟨fun {x f} h => ?_, fun h => ?_, fun h => ?_, fun h => ?_⟩
  · cases x <;> simp only [chart, reduceCtorEq, Option.some.injEq] at h
    subst h
    exact fun _ _ => rfl
  all_goals simp [chart] at h

lemma unaware : chart.Unaware := by
  refine ⟨⟨fun {x f} h => ?_, fun h => ?_, fun h => ?_, fun h => ?_⟩, fun {t g} h => ?_,
    fun _ _ _ _ _ _ => rfl⟩
  · cases x <;> simp only [chart, reduceCtorEq, Option.some.injEq] at h
    subst h
    exact ⟨fun _ _ _ => rfl, fun _ _ _ _ => rfl, fun _ _ _ h => h⟩
  · simp [chart] at h
  · simp [chart] at h
  · simp [chart] at h
  · cases t <;> simp only [chart, reduceCtorEq, Option.some.injEq] at h
    subst h
    exact fun _ _ _ _ => rfl

/-- **The look-ahead.** Told to go back when the parameter is not set, the chart stays where it is;
the automaton that does not look ahead goes to the start state. -/
theorem not_runs : ∃ w, chart.Flat ∧ chart.ActionsKeepData ∧ chart.Unaware
    ∧ Statechart.ReturnsAll chart [.start true, .dispatch (some (.event "back")) false]
      (World.fresh true) w
    ∧ ∀ k, Reference.Runs chart false [.start true, .dispatch (some (.event "back")) false]
      ⟨none, true, []⟩ k → w.data.current chart.root ≠ k.current := by
  refine ⟨_, flat, actionsKeepData, unaware,
    ⟨_, _, ⟨4, rfl⟩, _, _, ⟨4, rfl⟩, rfl⟩, fun k hk => ?_⟩
  have hstart : Reference.Calls chart false (.start true) ⟨none, true, []⟩
      ⟨some .a, true, [.entry .a]⟩ := .rest rfl
  have hback : Reference.Calls chart false (.dispatch (some (.event "back")) false)
      ⟨some .a, true, [.entry .a]⟩ ⟨some .s, false, [.entry .a]⟩ := .rest rfl
  rw [hk.unique ⟨_, hstart, _, hback, rfl⟩]
  decide

/-- When the parameter is set, the chart goes back and begins again, and so does the automaton. -/
theorem runs_back : ∃ w, Statechart.ReturnsAll chart
      [.start true, .dispatch (some (.event "back")) true] (World.fresh true) w
    ∧ w.data.current chart.root = some .a ∧ Obs.performed w.trace = [.entry .a, .entry .a]
    ∧ ∃ k, (∀ k', Reference.Runs chart true [.start true, .dispatch (some (.event "back")) true]
        ⟨none, true, []⟩ k' ↔ k' = k)
      ∧ w.data.current chart.root = k.current ∧ w.param = k.param
      ∧ Obs.performed w.trace = k.actions := by
  have hl : ∃ w, Statechart.ReturnsAll chart [.start true, .dispatch (some (.event "back")) true]
      (World.fresh true) w ∧ w.data.current chart.root = some .a
      ∧ Obs.performed w.trace = [.entry .a, .entry .a] :=
    ⟨_, ⟨_, _, ⟨4, rfl⟩, _, _, ⟨4, rfl⟩, rfl⟩, rfl, rfl⟩
  obtain ⟨w, hl, hcur, hperf⟩ := hl
  exact ⟨w, hl, hcur, hperf, Reference.runs_of_returnsAll flat actionsKeepData unaware hl⟩

end Hesitant

end CppStatecharts
