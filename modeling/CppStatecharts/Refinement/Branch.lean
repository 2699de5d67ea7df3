import CppStatecharts.Configuration.Restore
import CppStatecharts.Refinement.Flat

/-!
An automaton on the branches of the tree, for charts without concurrency.

* `Branch.shape`, `Branch.left`: the metadata when a state and its ancestors are active, and when it
  has just been left (`isActive_shape`, `current_shape`, `activate_left`, `clear_left`).
* `Branch.fire`, `Branch.ask`, `Branch.react`: the automaton. Its state is the innermost active
  state. The event climbs the branch; a state that is asked takes its first enabled transition, and
  once a transition has fired only completed states are asked.
* `Visit`, `Branch.serve`: what clients ask, and the outcomes, with the completion loop and its
  threshold.
* `Chart.Nested`: a tree of ordinary, final and hierarchical states with start states and junctions.
* `Branch.exists_scope`: the lists of a transition are the ways up to its scope and down from it.
* `Branch.execute_iff`: a transition fires when the automaton finds it enabled.
-/

namespace CppStatecharts

variable {S T E P : Type} [DecidableEq S]

/-- What a client asks of a chart, with the parameter it passes. -/
inductive Visit (S E P : Type) where
  | call (l : Call E P)
  | restoreState (s : S) (param : P)

/-! ### The automaton -/

namespace Branch

open Reference

variable (c : Chart S T E P)

/-- The metadata when just `q` and its ancestors are active. -/
def shape (q : S) : Metadata S :=
  (Statechart.restorePath c q).foldl (fun m x => m.activate (c.context x) x) .reset

/-- The metadata when `q` was just left. -/
def left (q : S) : Metadata S := (shape c q).deactivate false q

/-- The trigger is absent or matches; nothing matches the null event. -/
def Triggered (e : Option E) (q : S) (p : P) (t : T) : Prop :=
  ∀ ev, c.event t = some ev → e.isSome = true ∧ c.equals ev e (shape c q) p = true

def Holds (q : S) (p : P) (t : T) : Prop := ∀ g, c.guard t = some g → g (shape c q) p = true

/-- The guards hold along some way through pseudo-states to a state. -/
inductive Leads (q : S) (p : P) : T → Prop
  | inside {t} : Holds c q p t → c.internal t = true → Leads q p t
  | state {t} : Holds c q p t → (c.kind (c.target t)).isPseudo = false → Leads q p t
  | pseudo {t t'} : Holds c q p t → c.internal t = false →
      (c.kind (c.target t)).isPseudo = true → t' ∈ c.transitions (c.target t) → Leads q p t' →
      Leads q p t

/-- The substate of `s` is final. -/
def Completed (q s : S) : Prop := c.kind q = .finalState ∧ c.context q = some s

/-- What a state asks of a transition: a hierarchical state keeps those without a trigger until it
is completed. -/
def Enabled (e : Option E) (q s : S) (p : P) (t : T) : Prop :=
  (c.kind s = .hierarchicalState → c.event t = none → Completed c q s)
    ∧ Triggered c e q p t ∧ Leads c q p t

/-- The innermost state that both ends of a transition lie inside. -/
def scope (t : T) : Option S :=
  (c.forest.upFrom (c.depth (c.source t)) (c.source t)).find? fun m =>
    (c.Below (c.source t) m ∧ c.source t ≠ m) ∧ c.Below (c.target t) m ∧ c.target t ≠ m

/-- The states on the way up from `q` to the scope of a transition. -/
def upTo (t : T) (q : S) : List S :=
  (c.forest.upFrom (c.depth q) q).takeWhile fun x => some x ≠ scope c t

def exit (k : Config S T P) (x : S) : Config S T P :=
  act (.exit x) (c.exitAction x) (left c x) k

def enter (k : Config S T P) (x : S) : Config S T P :=
  let k := act (.entry x) (c.entryAction x) (shape c x) k
  if (c.kind x).isPseudo then k else act (.doing x) (c.doAction x) (shape c x) k

/-- The last of the states, innermost first, that are left before the action of a transition. -/
def outermost (t : T) (q : S) : S := ((upTo c t q).getLast?).getD q

/-- Exits from the inside out, the action, and entries from the outside in; just the action for an
internal transition. -/
def fire (q : S) (t : T) (k : Config S T P) : Config S T P :=
  if c.internal t then act (.effect t) (c.action t) (shape c q) k
  else
    let k := (upTo c t q).foldl (exit c) k
    let k := act (.effect t) (c.action t) (left c (outermost c t q)) k
    let k := (upTo c t (c.target t)).reverse.foldl (enter c) k
    { k with current := some (c.target t) }

/-- A hierarchical state without a substate enters its start state. -/
def begin (k : Config S T P) : Config S T P :=
  match k.current with
  | none => k
  | some q =>
      if c.kind q = .hierarchicalState then
        match c.startState q with
        | none => k
        | some st => { enter c k st with current := some st }
      else k

open Classical in
/-- The first enabled transition of `s` fires. -/
noncomputable def offer (e : Option E) (q s : S) (k : Config S T P) : Bool × Config S T P :=
  match (c.transitions s).find? fun t => Enabled c e q s k.param t with
  | none => (false, k)
  | some t => (true, fire c q t k)

open Classical in
/-- The state `s` is asked. It is passed over when it has been left, and also when the event was
taken, unless `s` is now completed. The flag tells whether the event was taken. -/
noncomputable def ask (e : Option E) (r : Bool × Config S T P) (s : S) : Bool × Config S T P :=
  match r.2.current with
  | none => r
  | some q =>
      if ¬ c.Below q s ∨ r.1 = true ∧ ¬ Completed c q s then r else offer c e q s r.2

/-- The event climbs the branch. -/
noncomputable def react (e : Option E) (k : Config S T P) : Bool × Config S T P :=
  match (begin c k).current with
  | none => (false, k)
  | some q => (c.path q).reverse.foldl (ask c e) (false, begin c k)

/-- The null event is offered until nobody takes it, but at most `fuel` times. -/
noncomputable def settle : ℕ → Config S T P → Bool × Config S T P
  | 0, k => (true, k)
  | fuel + 1, k => let r := react c none k; if r.1 then settle fuel r.2 else (false, r.2)

/-- A dispatch throws when the null event was taken too often. -/
noncomputable def dispatch (e : Option E) (k : Config S T P) : Outcome × Config S T P :=
  if k.current.isSome then
    let r := react c e k
    let r' := settle c c.infiniteLoopThreshold r.2
    (if r'.1 then .thrown (Statechart.infiniteLoopException c) else .returned r.1, r'.2)
  else (.returned false, k)

/-- A chart without a start state stays in itself. -/
noncomputable def visit : Visit S E P → Config S T P → Outcome × Config S T P
  | .call (.start p), k =>
      dispatch c none { k with current := some ((c.startState c.root).getD c.root), param := p }
  | .call (.dispatch e p), k => dispatch c e { k with param := p }
  | .restoreState s p, k =>
      if k.current.isSome then (.returned false, { k with param := p })
      else
        let k := (Statechart.restorePath c s).foldl (enter c) { k with param := p }
        (.returned true, { k with current := some s })

/-- The outcomes of a sequence of visits, and what they leave. -/
noncomputable def serve : List (Visit S E P) → Config S T P → List Outcome × Config S T P
  | [], k => ([], k)
  | a :: l, k =>
      let r := visit c a k
      let r' := serve l r.2
      (r.1 :: r'.1, r'.2)

end Branch

/-! ### Nested charts -/

/-- There are neither concurrent states nor histories, and transitions lead neither up nor down the
tree. -/
structure Chart.Nested (c : Chart S T E P) : Prop where
  noConcurrent : ∀ s, c.kind s ≠ .concurrentState
  noHistory : ∀ s, (c.kind s).isHistory = false
  noFork : ∀ s, c.kind s ≠ .pseudoState .fork
  noJoin : ∀ s, c.kind s ≠ .pseudoState .join
  source : ∀ t ∈ c.ownedTransitions, c.source t ≠ c.root
  apart : ∀ t ∈ c.ownedTransitions, c.source t ≠ c.target t →
    ¬ c.Below (c.source t) (c.target t) ∧ ¬ c.Below (c.target t) (c.source t)

namespace Branch

open Reference

variable {c : Chart S T E P} {p q s x y m d : S} {l : List S} {t : T}

/-! ### The metadata along a branch -/

lemma restorePath_root : Statechart.restorePath c c.root = [c.root] := by
  obtain ⟨l, hl, hdesc⟩ := Statechart.restorePath_eq (c := c) c.root
  have hnil : l = [] := hdesc.unique (rfl : c.forest.Descends c.root [] c.root)
  rw [hl, hnil]

lemma restorePath_of_context (h : c.context x = some p) :
    Statechart.restorePath c x = Statechart.restorePath c p ++ [x] := by
  obtain ⟨l, hl, hx⟩ := Statechart.restorePath_eq (c := c) x
  obtain ⟨l', hl', hp⟩ := Statechart.restorePath_eq (c := c) p
  rw [hl, hl', hx.unique (hp.snoc h), List.cons_append]

lemma shape_root : shape c c.root = Metadata.reset.activate none c.root := by
  rw [shape, restorePath_root, List.foldl_cons, List.foldl_nil, (c.context_root c.root).mpr rfl]

lemma shape_of_context (h : c.context x = some p) :
    shape c x = (shape c p).activate (some p) x := by
  rw [shape, restorePath_of_context h, List.foldl_append, ← shape, List.foldl_cons,
    List.foldl_nil, h]

/-- What holds at the chart and goes from a context to its substates holds everywhere. -/
lemma descend_induction {Q : S → Prop} (root : Q c.root)
    (step : ∀ x p, c.context x = some p → Q p → Q x) (q : S) : Q q := by
  induction hd : c.depth q using Nat.strong_induction_on generalizing q with
  | _ n ih =>
      by_cases hq : q = c.root
      · exact hq ▸ root
      · obtain ⟨p, hp⟩ := Chart.context_eq_some_of_ne_root hq
        exact step q p hp (ih (c.depth p) (hd ▸ c.depth_context hp) p rfl)

lemma isActive_shape : (shape c q).isActive x = decide (c.Below q x) := by
  induction q using descend_induction (c := c) with
  | root =>
      rw [shape_root, Metadata.isActive_activate, Metadata.isActive_reset, Bool.or_false,
        decide_eq_decide]
      exact ⟨fun h => h ▸ Forest.below_refl _,
        fun h => Forest.below_antisymm (Chart.below_root x) h⟩
  | step q p hp ih =>
      have hbelow : c.Below q x ↔ x = q ∨ c.Below p x := by
        refine Forest.below_iff.trans (or_congr eq_comm ⟨?_, fun h => ⟨p, hp, h⟩⟩)
        rintro ⟨p', hp', h⟩
        exact Option.some.inj (hp'.symm.trans hp) ▸ h
      rw [shape_of_context hp, Metadata.isActive_activate, ih, ← Bool.decide_or, decide_eq_decide,
        hbelow]

lemma getData_shape (h : ¬ c.Below q x) : (shape c q).getData x = none := by
  have hne : ∀ {q}, ¬ c.Below q x → x ≠ q := by
    rintro q h rfl
    exact h (Forest.below_refl _)
  induction q using descend_induction (c := c) with
  | root =>
      rw [shape_root, Metadata.getData_activate_root_of_ne (hne h)]
      rfl
  | step q p hp ih =>
      have hxp : ¬ c.Below p x := fun hx =>
        h (Forest.below_trans (Forest.below_of_parent (F := c.forest) hp) hx)
      rw [shape_of_context hp, Metadata.getData_activate_of_ne (hne h) (hne hxp), ih hxp]

lemma current_shape_self : (shape c q).current q = none := by
  by_cases hq : q = c.root
  · rw [hq, shape_root, Metadata.current_activate_none, if_pos rfl]
  · obtain ⟨p, hp⟩ := Chart.context_eq_some_of_ne_root hq
    have hpq := (Forest.ne_of_parent (F := c.forest) hp).symm
    rw [shape_of_context hp, Metadata.current_activate hpq, if_pos rfl]

/-- The current state of an ancestor is the next state on the branch. -/
lemma current_shape (hq : c.Below q y) (hy : c.context y = some s) :
    (shape c q).current s = some y := by
  induction q using descend_induction (c := c) with
  | root =>
      have hroot := Forest.below_antisymm (Chart.below_root y) hq
      exact absurd hroot (Chart.ne_root_of_context hy)
  | step q p hp ih =>
      have hpq := (Forest.ne_of_parent (F := c.forest) hp).symm
      rw [shape_of_context hp, Metadata.current_activate hpq]
      by_cases hqy : q = y
      · subst hqy
        obtain rfl := Option.some.inj (hp.symm.trans hy)
        have hd : ((shape c p).getData p).isSome = true := by
          obtain ⟨d, hd, -⟩ := Metadata.exists_of_isActive
            (isActive_shape (c := c) (q := p) (x := p) ▸ decide_eq_true (Forest.below_refl p))
          rw [hd]
          rfl
        rw [if_neg hpq, if_pos ⟨rfl, hd⟩]
      · have hpy := Forest.below_parent hq hqy hp
        have hsp : s ≠ p := by
          rintro rfl
          exact Forest.not_below_of_parent (F := c.forest) hy hpy
        have hsq : s ≠ q := by
          rintro rfl
          exact Forest.not_below_of_parent (F := c.forest) hy hq
        rw [if_neg hsq, if_neg fun h => hsp h.1, ih hpy]

lemma current_shape_iff :
    (shape c q).current s = some y ↔ c.context y = some s ∧ c.Below q y := by
  refine ⟨fun h => ?_, fun h => current_shape h.2 h.1⟩
  by_cases hqx : c.Below q s
  · have hne : q ≠ s := by
      rintro rfl
      rw [current_shape_self] at h
      cases h
    obtain ⟨y', hy', hqy'⟩ := Forest.exists_child_of_below hqx hne
    rw [current_shape hqy' hy'] at h
    exact Option.some.inj h ▸ ⟨hy', hqy'⟩
  · rw [Metadata.current, getData_shape hqx] at h
    cases h

lemma untimed_shape : (shape c q).untimed = shape c q := by
  induction q using descend_induction (c := c) with
  | root =>
      rw [shape_root, Metadata.untimed, Metadata.mapTimeouts_activate rfl]
      rfl
  | step q p hp ih =>
      rw [shape_of_context hp, Metadata.untimed, Metadata.mapTimeouts_activate rfl]
      exact congrArg (·.activate (some p) q) ih

/-- To activate the innermost state once more changes nothing. -/
lemma activate_again (hx : c.context x = some p) :
    (shape c x).activate (some p) x = shape c x := by
  have hxp := Forest.ne_of_parent (F := c.forest) hx
  rw [shape_of_context hx]
  ext y : 1
  by_cases hyx : y = x
  · subst hyx
    rw [Metadata.getData_activate_self hxp.symm, Metadata.getData_activate_self hxp.symm]
    rfl
  by_cases hyp : y = p
  · subst hyp
    rw [Metadata.getData_activate_parent hyx, Metadata.getData_activate_parent hyx,
      Option.map_map]
    rfl
  rw [Metadata.getData_activate_of_ne hyx hyp]

/-- A state that was left makes room for another one. -/
lemma activate_left (hd : c.context d = some p) (hx : c.context x = some p) :
    (left c d).activate (some p) x = shape c x := by
  have hdp := Forest.ne_of_parent (F := c.forest) hd
  have hxp := Forest.ne_of_parent (F := c.forest) hx
  have hnone : ∀ {y}, c.context y = some p → (shape c p).getData y = none := fun hy =>
    getData_shape (Forest.not_below_of_parent (F := c.forest) hy)
  rw [left, shape_of_context hd, shape_of_context hx]
  ext y : 1
  by_cases hyx : y = x
  · subst hyx
    rw [Metadata.getData_activate_self hxp.symm, Metadata.getData_activate_self hxp.symm, hnone hx]
    by_cases hyd : y = d
    · subst hyd
      rw [Metadata.getData_deactivate_self, if_neg Bool.false_ne_true]
    · rw [Metadata.getData_deactivate_of_ne hyd, Metadata.getData_activate_of_ne hyd hxp, hnone hx]
  by_cases hyp : y = p
  · subst hyp
    rw [Metadata.getData_activate_parent hyx, Metadata.getData_activate_parent hyx,
      Metadata.getData_deactivate_of_ne hdp.symm, Metadata.getData_activate_parent hdp.symm,
      Option.map_map]
    rfl
  rw [Metadata.getData_activate_of_ne hyx hyp, Metadata.getData_activate_of_ne hyx hyp]
  by_cases hyd : y = d
  · subst hyd
    rw [Metadata.getData_deactivate_self, if_neg Bool.false_ne_true, hnone hd]
  · rw [Metadata.getData_deactivate_of_ne hyd, Metadata.getData_activate_of_ne hyd hyp]

/-- When the pointer to a state that was left is cleared, its context is innermost. -/
lemma clear_left (hd : c.context d = some p) :
    (left c d).modify p (fun r => { r with currentState := none }) = shape c p := by
  have hdp := Forest.ne_of_parent (F := c.forest) hd
  rw [left, shape_of_context hd]
  ext y : 1
  by_cases hyp : y = p
  · subst hyp
    have hself := current_shape_self (c := c) (q := y)
    rw [Metadata.getData_modify_self, Metadata.getData_deactivate_of_ne hdp.symm,
      Metadata.getData_activate_parent hdp.symm, Option.map_map]
    cases hy : (shape c y).getData y with
    | none => rfl
    | some r =>
        have hr : r.currentState = none := by simpa [Metadata.current, hy] using hself
        cases r
        simp_all
  rw [Metadata.getData_modify_of_ne hyp]
  by_cases hyd : y = d
  · subst hyd
    rw [Metadata.getData_deactivate_self, if_neg Bool.false_ne_true,
      getData_shape (Forest.not_below_of_parent (F := c.forest) hd)]
  · rw [Metadata.getData_deactivate_of_ne hyd, Metadata.getData_activate_of_ne hyd hyp]

/-! ### The states between -/

omit [DecidableEq S] in
lemma exists_upFrom_eq_cons (n : ℕ) (x : S) : ∃ l, c.forest.upFrom n x = x :: l := by
  cases n <;> exact ⟨_, rfl⟩

lemma upTo_eq (hm : scope c t = some m) (h : c.forest.Descends m l q) : upTo c t q = l.reverse := by
  obtain ⟨k, -, hup⟩ := h.upFrom_eq (n := c.depth q) le_rfl
  obtain ⟨rest, hrest⟩ := exists_upFrom_eq_cons (c := c) k m
  have hne : ∀ y ∈ l.reverse, decide (some y ≠ scope c t) = true := fun y hy => by
    have := (h.mem_iff.mp (List.mem_reverse.mp hy)).2.2
    simpa [hm] using this
  rw [upTo, hup, hrest, List.takeWhile_append_of_pos hne, List.takeWhile_cons_of_neg (by simp [hm]),
    List.append_nil]

/-- The lists of a transition lead from its source up to its scope and down to its target. -/
lemma exists_scope (hn : c.Nested) (ht : t ∈ c.ownedTransitions) (hi : c.internal t = false) :
    ∃ m d e u v, c.deactivates t = (d :: u).reverse ∧ c.activates t = e :: v
      ∧ c.forest.Descends m (d :: u) (c.source t) ∧ c.forest.Descends m (e :: v) (c.target t)
      ∧ scope c t = some m := by
  obtain ⟨m, d, e, u, v, hl, hd, he, hde⟩ := Chart.calculateStateSet_beside (hn.source t ht)
    (fun h => by_contra fun hne => (hn.apart t ht hne).1 h)
    fun h => by_contra fun hne => (hn.apart t ht hne).2 h
  refine ⟨m, d, e, u, v, by simp [Chart.deactivates, hi, hl], by simp [Chart.activates, hi, hl],
    hd, he, ?_⟩
  obtain ⟨k, -, hup⟩ := Forest.Descends.upFrom_eq hd (n := c.depth (c.source t)) le_rfl
  obtain ⟨rest, hrest⟩ := exists_upFrom_eq_cons (c := c) k m
  have hstrict : ∀ {x y l}, c.forest.Descends m (x :: l) y → c.Below y m ∧ y ≠ m := fun h =>
    ⟨h.below, fun hy => Forest.not_below_of_parent h.1 (hy ▸ h.2.below)⟩
  have hno : (d :: u).reverse.find? (fun m => decide ((c.Below (c.source t) m ∧ c.source t ≠ m)
      ∧ c.Below (c.target t) m ∧ c.target t ≠ m)) = none := by
    refine List.find?_eq_none.mpr fun y hy => ?_
    obtain ⟨hyd, -⟩ := hd.below_head y (List.mem_reverse.mp hy)
    simp only [decide_eq_true_eq, not_and]
    rintro ⟨-, hsy⟩ hty
    rcases hde with ⟨-, hds, -⟩ | ⟨-, hde⟩
    · -- a transition to its source itself
      have hyu := List.mem_reverse.mp hy
      have hsd : c.Below (c.source t) y := (hd.mem_iff.mp hyu).1
      exact absurd (Forest.below_antisymm hsd (hds ▸ hyd)) hsy
    · exact absurd (Forest.eq_of_below_children hd.1 he.1 (Forest.below_trans hty hyd) he.2.below)
        hde
  rw [scope, hup, hrest, List.find?_append, hno, Option.none_or, List.find?_cons_of_pos]
  exact decide_eq_true ⟨hstrict hd, hstrict he⟩

/-! ### The look-ahead -/

section Ahead

variable {w w' : World S T E P} {k : Config S T P} {v : Methods S T E P} {a : P} {e : Option E}
variable {b : Bool} {n : ℕ}

lemma Leads.holds (h : Leads c q a t) : Holds c q a t := by
  cases h <;> assumption

lemma guardHolds_iff (hu : c.Unaware) (h : w.Shows (shape c q) k) :
    Transition.guardHolds c t w = true ↔ Holds c q k.param t := by
  unfold Transition.guardHolds Holds
  cases hg : c.guard t with
  | none => simp
  | some g =>
      have heq : g w.data k.param = g (shape c q) k.param := hu.guard hg _ _ _ h.untimed
      simp [heq, h.param]

lemma triggered_iff (hu : c.Unaware) (h : w.Shows (shape c q) k) :
    Transition.triggered c t e w = true ↔ Triggered c e q k.param t := by
  unfold Transition.triggered Triggered
  cases c.event t with
  | none => simp
  | some ev =>
      have heq : c.equals ev e w.data k.param = c.equals ev e (shape c q) k.param :=
        hu.equals ev e _ _ _ h.untimed
      simp [heq, h.param, and_comm]

/-- The methods look ahead as the automaton does. -/
def Foresee (c : Chart S T E P) (q : S) (v : Methods S T E P) (w : World S T E P) : Prop :=
  ∀ s b w', (c.kind s).isPseudo = true → Returns (v.lookup s) w b w' →
    (b = true ↔ ∃ t ∈ c.transitions s, Leads c q w.param t)

lemma allowed_iff (hn : c.Nested) (hu : c.Unaware) (h : w.Shows (shape c q) k)
    (hv : Foresee c q v w) (ht : t ∈ c.ownedTransitions)
    (ha : Returns (Transition.allowed c v t) w b w') : b = true ↔ Leads c q k.param t := by
  have hg := guardHolds_iff (t := t) hu h
  by_cases hh : Holds c q k.param t
  swap
  · have hgf : Transition.guardHolds c t w = false := Bool.eq_false_iff.mpr fun h => hh (hg.mp h)
    simp only [Transition.allowed, returns_bind, returns_peek, hgf] at ha
    obtain ⟨_, _, ⟨rfl, rfl⟩, ha⟩ := ha
    obtain rfl : b = false := by simpa using (returns_pure.mp (by simpa using ha)).1
    exact ⟨fun h => absurd h Bool.false_ne_true, fun h => absurd h.holds hh⟩
  cases hi : c.internal t with
  | true =>
      have hl : c.activates t = [] := by simp [Chart.activates, hi]
      obtain ⟨rfl, -⟩ := (Transition.returns_allowed (hg.mpr hh) (by simp [hl])).mp ha
      exact ⟨fun _ => .inside hh hi, fun _ => rfl⟩
  | false =>
      obtain ⟨m, d, e', u, v', -, hl, -, he, -⟩ := exists_scope hn ht hi
      have hlast : (c.activates t).getLast? = some (c.target t) :=
        hl ▸ Forest.Descends.getLast? he
      cases hp : (c.kind (c.target t)).isPseudo with
      | false =>
          obtain ⟨rfl, -⟩ := (Transition.returns_allowed (hg.mpr hh) (by simp [hlast, hp])).mp ha
          exact ⟨fun _ => .state hh hp, fun _ => rfl⟩
      | true =>
          have hlook := (Transition.returns_allowed_of_isPseudo (hg.mpr hh) hlast hp).mp ha
          rw [hv _ _ _ hp hlook, h.param]
          constructor
          · rintro ⟨t', ht', hl'⟩
            exact .pseudo hh hi hp ht' hl'
          · intro hl
            cases hl with
            | inside _ hi' => rw [hi] at hi'; cases hi'
            | state _ hp' => rw [hp] at hp'; cases hp'
            | pseudo _ _ _ ht' hl' => exact ⟨_, ht', hl'⟩

/-- By induction on the nested calls. -/
lemma foresee_methods (hn : c.Nested) (hu : c.Unaware) (h : w.Shows (shape c q) k) :
    ∀ n, Foresee c q (c.methods n) w
  | 0 => fun _ _ _ _ hl => absurd hl (by simp [Chart.methods])
  | n + 1 => by
      classical
      intro s b w' _ hl
      have hany := (PseudoState.returns_lookup (hn.noJoin s)).mp hl
      have hstep : ∀ t ∈ c.transitions s, ∀ b w',
          Returns (Transition.allowed c (c.methods n) t) w b w' →
          b = decide (Leads c q w.param t) ∧ (b = false → w' = w) := by
        intro t ht b w' ha
        have hiff := allowed_iff hn hu h (foresee_methods hn hu h n)
          (Chart.mem_transitions.mp ht).1 ha
        rw [← h.param] at hiff
        refine ⟨?_, fun _ => (pure_methods c n).allowed ha⟩
        rw [Bool.eq_iff_iff, hiff, decide_eq_true_eq]
      rcases anyM_find? hstep hany with ⟨hnone, rfl, -⟩ | ⟨t, ht, hsome, rfl, -⟩
      · simpa using hnone
      · exact ⟨fun _ => ⟨t, ht, by simpa using List.find?_some hsome⟩, fun _ => rfl⟩

/-- A transition is tried: it fires if the automaton finds it enabled. -/
lemma execute_iff (hn : c.Nested) (hu : c.Unaware) (h : w.Shows (shape c q) k)
    (ht : t ∈ c.ownedTransitions) (hx : Returns (Transition.execute c (c.methods n) t e) w b w') :
    (b = true ↔ Triggered c e q k.param t ∧ Leads c q k.param t) ∧ (b = false → w' = w) := by
  have hallowed : ∀ {b}, Returns (Transition.allowed c (c.methods n) t) w b w →
      (b = true ↔ Leads c q k.param t) := fun ha =>
    allowed_iff hn hu h (foresee_methods hn hu h n) ht ha
  have htrig := triggered_iff (t := t) (e := e) hu h
  rcases (Transition.returns_execute (pure_methods c n)).mp hx with
    ⟨rfl, ht, ha, -⟩ | ⟨rfl, rfl, ha⟩
  · exact ⟨⟨fun _ => ⟨htrig.mp ht, (hallowed ha).mp rfl⟩, fun _ => rfl⟩, by simp⟩
  · refine ⟨⟨fun h => absurd h Bool.false_ne_true, fun hen => ?_⟩, fun _ => rfl⟩
    exact (hallowed (ha (htrig.mpr hen.1))).mpr hen.2

end Ahead

end Branch

end CppStatecharts
