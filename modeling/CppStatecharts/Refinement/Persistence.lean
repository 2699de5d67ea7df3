import CppStatecharts.Refinement.Nested

/-!
A nested chart is saved as its innermost active state.

* `Reference.Config.after`: a configuration with an older record below its own. The automaton never
  reads the record: `Branch.serve_after`.
* `World.Depicts.current_of_innermost`: the innermost active state is the one the automaton is in.
* `Branch.resumed_of_restored`: a metadata that is restored to that state goes on like the one it
  was read from.
-/

namespace CppStatecharts

variable {S T E P : Type}

namespace Reference.Config

/-- The configuration with the actions `as` before its own. -/
def after (k : Config S T P) (as : List (Obs S T)) : Config S T P :=
  { k with actions := k.actions ++ as }

variable {k : Config S T P} {as : List (Obs S T)}

@[simp] lemma current_after : (k.after as).current = k.current := rfl

@[simp] lemma param_after : (k.after as).param = k.param := rfl

@[simp] lemma actions_after : (k.after as).actions = k.actions ++ as := rfl

lemma after_current (q : Option S) :
    ({ k.after as with current := q } : Config S T P) = { k with current := q }.after as := rfl

lemma act_after (o : Obs S T) (a : Option (Action S P)) (m : Metadata S) :
    act o a m (k.after as) = (act o a m k).after as := by
  cases a <;> rfl

/-- The record is not read in a loop whose rounds do not read it. -/
lemma foldl_after {ι : Type} {f : Config S T P → ι → Config S T P}
    (hf : ∀ k i, f (k.after as) i = (f k i).after as) (l : List ι) (k : Config S T P) :
    l.foldl f (k.after as) = (l.foldl f k).after as := by
  induction l generalizing k with
  | nil => rfl
  | cons i l ih => rw [List.foldl_cons, List.foldl_cons, hf, ih]

end Reference.Config

namespace World.Depicts

open Reference

variable [DecidableEq S] {c : Chart S T E P} {w v : World S T E P} {k : Config S T P} {q : S}

/-- The innermost active state is the state of the automaton. -/
lemma current_of_innermost (h : w.Depicts c k) (hq : w.data.isActive q = true)
    (hin : ∀ x, w.data.isActive x = true → c.Below q x) : k.current = some q := by
  cases hk : k.current with
  | none =>
      rw [h.idle hk, Metadata.isActive_reset] at hq
      cases hq
  | some q' =>
      have hact : ∀ x, w.data.isActive x = decide (c.Below q' x) := fun x => by
        rw [(h.shows hk).isActive, Branch.isActive_shape]
      have hq' : c.Below q' q := by simpa [hact] using hq
      have hbelow := hin q' (by simp [hact])
      rw [Forest.below_antisymm hq' hbelow]

/-- Two worlds that the automaton describes with the same state have the same active states and
pointers. -/
lemma congr {k₁ k₂ : Config S T P} (h : w.Depicts c k₁) (h' : v.Depicts c k₂)
    (hk : k₂.current = k₁.current) : (∀ x, v.data.isActive x = w.data.isActive x)
      ∧ ∀ x, v.data.current x = w.data.current x := by
  cases hq : k₁.current with
  | none =>
      rw [h.idle hq, h'.idle (hk.trans hq)]
      exact ⟨fun _ => rfl, fun _ => rfl⟩
  | some q =>
      have hw := h.shows hq
      have hv := h'.shows (hk.trans hq)
      exact ⟨fun x => by rw [hv.isActive, hw.isActive], fun x => by rw [hv.current, hw.current]⟩

end World.Depicts

namespace Branch

open Reference Reference.Config

variable [DecidableEq S] {c : Chart S T E P} {k : Config S T P} {as : List (Obs S T)}
variable {q s x : S} {t : T} {e : Option E}

/-! ### The automaton does not read the record -/

lemma exit_after : exit c (k.after as) x = (exit c k x).after as := act_after _ _ _

lemma enter_after : enter c (k.after as) x = (enter c k x).after as := by
  unfold enter
  simp only [act_after]
  split
  · rfl
  · rfl

lemma fire_after : fire c q t (k.after as) = (fire c q t k).after as := by
  unfold fire
  split
  · exact act_after _ _ _
  · simp only [foldl_after (fun k x => exit_after), act_after,
      foldl_after (fun k x => enter_after), after_current]

lemma begin_after : begin c (k.after as) = (begin c k).after as := by
  unfold begin
  rw [current_after]
  split
  · rfl
  · split
    · split
      · rfl
      · rw [enter_after, after_current]
    · rfl

/-- The outcome of a reaction, with an older record. -/
def later {α : Type} (as : List (Obs S T)) (r : α × Config S T P) : α × Config S T P :=
  (r.1, r.2.after as)

lemma offer_after : offer c e q s (k.after as) = later as (offer c e q s k) := by
  classical
  unfold offer
  rw [param_after]
  split
  · rfl
  · rw [fire_after]
    rfl

lemma ask_after (r : Bool × Config S T P) : ask c e (later as r) s = later as (ask c e r s) := by
  unfold ask later
  simp only [current_after]
  split
  · rfl
  · split
    · rfl
    · exact offer_after

lemma react_after : react c e (k.after as) = later as (react c e k) := by
  have hfold : ∀ (l : List S) (r : Bool × Config S T P),
      l.foldl (ask c e) (later as r) = later as (l.foldl (ask c e) r) := by
    intro l
    induction l with
    | nil => exact fun _ => rfl
    | cons x l ih => exact fun r => by rw [List.foldl_cons, List.foldl_cons, ask_after, ih]
  unfold react
  rw [begin_after, current_after]
  split
  · rfl
  · exact hfold _ (false, begin c k)

lemma settle_after (fuel : ℕ) : settle c fuel (k.after as) = later as (settle c fuel k) := by
  induction fuel generalizing k with
  | zero => rfl
  | succ fuel ih =>
      simp only [settle, react_after, later]
      split
      · exact ih
      · rfl

lemma dispatch_after : dispatch c e (k.after as) = later as (dispatch c e k) := by
  unfold dispatch
  rw [current_after]
  split
  · simp only [react_after, later, settle_after]
  · rfl

lemma visit_after (a : Visit S E P) : visit c a (k.after as) = later as (visit c a k) := by
  cases a with
  | call a =>
      cases a with
      | start p => exact dispatch_after (k := { k with current := _, param := p })
      | dispatch e p => exact dispatch_after (k := { k with param := p })
  | restoreState s p =>
      simp only [visit]
      by_cases hk : k.current.isSome = true
      · rw [if_pos hk, if_pos (show (k.after as).current.isSome = true from hk)]
        rfl
      · rw [if_neg hk, if_neg (show ¬ (k.after as).current.isSome = true from hk)]
        have hfold : (Statechart.restorePath c s).foldl (enter c) (after { k with param := p } as)
            = after ((Statechart.restorePath c s).foldl (enter c) { k with param := p }) as :=
          foldl_after (fun k x => enter_after) _ _
        exact congrArg (fun k => (Outcome.returned true, { k with current := some s })) hfold

lemma serve_after (l : List (Visit S E P)) :
    serve c l (k.after as) = later as (serve c l k) := by
  induction l generalizing k with
  | nil => rfl
  | cons a l ih =>
      simp only [serve, visit_after, later]
      rw [ih]
      rfl

/-- Every visit brings its own parameter. -/
lemma visit_param (a : Visit S E P) (p : P) : visit c a { k with param := p } = visit c a k := by
  cases a with
  | call a => cases a <;> rfl
  | restoreState s p => rfl

lemma serve_param (a : Visit S E P) (l : List (Visit S E P)) (k : Config S T P) (p : P) :
    serve c (a :: l) { k with param := p } = serve c (a :: l) k := by
  simp only [serve, visit_param]

/-! ### Saving and restoring -/

variable {w w' v v' : World S T E P} {l : List (Visit S E P)} {os os' : List Outcome} {a p p' : P}

/-- The record and the parameter before the visits are of no importance. -/
lemma serve_congr {k₁ k₂ : Config S T P} (h : k₁.current = k₂.current) (l : List (Visit S E P)) :
    (serve c l k₂).1 = (serve c l k₁).1 ∧ (serve c l k₂).2.current = (serve c l k₁).2.current
      ∧ (∃ as, (serve c l k₁).2.actions = as ++ k₁.actions
        ∧ (serve c l k₂).2.actions = as ++ k₂.actions)
      ∧ (l ≠ [] → (serve c l k₂).2.param = (serve c l k₁).2.param) := by
  cases l with
  | nil => exact ⟨rfl, h.symm, ⟨[], rfl, rfl⟩, fun h => absurd rfl h⟩
  | cons b l =>
      have hbase : ∀ k : Config S T P, serve c (b :: l) k
          = later k.actions (serve c (b :: l) ⟨k.current, k₁.param, []⟩) := fun k =>
        calc serve c (b :: l) k
            = serve c (b :: l) (Config.after ⟨k.current, k.param, []⟩ k.actions) := rfl
          _ = later k.actions (serve c (b :: l) ⟨k.current, k.param, []⟩) := serve_after _
          _ = later k.actions (serve c (b :: l) ⟨k.current, k₁.param, []⟩) :=
              congrArg _ (serve_param b l ⟨k.current, k₁.param, []⟩ k.param)
      rw [hbase k₁, hbase k₂, ← h]
      exact ⟨rfl, rfl, ⟨_, rfl, rfl⟩, fun _ => rfl⟩

/-- **A chart is saved by its innermost active state.** In a nested chart whose actions leave the
metadata alone, let `q` be the innermost state that is active after any visits. A new metadata that
is restored to `q` has the same active states and pointers, and whatever clients ask next of the one
and of the other: the outcomes are the same, the same actions are executed, and both have the same
active states, pointers and parameter again. -/
theorem resumed_of_restored (hn : c.Nested) (hc : c.ActionsKeepData) (hu : c.Unaware)
    (hs : Statechart.Serves c l os (World.fresh p) w) (hq : w.data.isActive q = true)
    (hin : ∀ x, w.data.isActive x = true → c.Below q x)
    (hr : Statechart.Serves c [.restoreState q p'] os' (World.fresh a) v) :
    os' = [.returned true] ∧ ∀ l' os₁ os₂ w' v', Statechart.Serves c l' os₁ w w' →
      Statechart.Serves c l' os₂ v v' → os₂ = os₁
        ∧ ((∀ x, v'.data.isActive x = w'.data.isActive x)
          ∧ ∀ x, v'.data.current x = w'.data.current x)
        ∧ (∃ as, Obs.performed w'.trace = as ++ Obs.performed w.trace
          ∧ Obs.performed v'.trace = as ++ Obs.performed v.trace)
        ∧ (l' ≠ [] → v'.param = w'.param) := by
  have hfresh : ∀ b : P, (World.fresh b : World S T E P).Depicts c ⟨none, b, []⟩ :=
    fun _ => ⟨rfl, rfl, by simp, fun _ => rfl⟩
  obtain ⟨-, hw⟩ := serve_depicts hn hc hu (hfresh p) hs
  obtain ⟨hos', hv⟩ := serve_depicts hn hc hu (hfresh a) hr
  have hcurrent := hw.current_of_innermost hq hin
  refine ⟨hos', fun l' os₁ os₂ w' v' h₁ h₂ => ?_⟩
  obtain ⟨rfl, hw'⟩ := serve_depicts hn hc hu hw h₁
  obtain ⟨rfl, hv'⟩ := serve_depicts hn hc hu hv h₂
  have hsame : (serve c l ⟨none, p, []⟩).2.current
      = (serve c [.restoreState q p'] ⟨none, a, []⟩).2.current := hcurrent
  obtain ⟨hout, hcur, ⟨as, hact₁, hact₂⟩, hparam⟩ := serve_congr hsame l'
  refine ⟨hout, hw'.congr hv' hcur, ⟨as, ?_, ?_⟩, fun hl => ?_⟩
  · rw [hw'.performed, hact₁, hw.performed]
  · rw [hv'.performed, hact₂, hv.performed]
  · rw [hw'.param, hv'.param, hparam hl]

end Branch

namespace Errand

set_option maxRecDepth 4000 in
/-- The chart is started, read while it is in `a`, and restored elsewhere; both are told to go. -/
theorem resumed_at_a : ∃ w v w' v', Statechart.Serves chart [.call (.start 0)]
      [.returned true] (World.fresh 0) w
    ∧ Statechart.Serves chart [.restoreState .a 7] [.returned true] (World.fresh 3) v
    ∧ Statechart.Serves chart [.call (.dispatch (some (.event "go")) 5)] [.returned true] w w'
    ∧ Statechart.Serves chart [.call (.dispatch (some (.event "go")) 5)] [.returned true] v v'
    ∧ w'.data.isActive .rest = true ∧ (∀ x, v'.data.isActive x = w'.data.isActive x)
    ∧ v'.param = w'.param := by
  have hserve : ∃ w v w' v', Statechart.Serves chart [.call (.start 0)]
        [.returned true] (World.fresh 0) w
      ∧ Statechart.Serves chart [.restoreState .a 7] [.returned true] (World.fresh 3) v
      ∧ Statechart.Serves chart [.call (.dispatch (some (.event "go")) 5)] [.returned true] w w'
      ∧ Statechart.Serves chart [.call (.dispatch (some (.event "go")) 5)] [.returned true] v v'
      ∧ w'.data.isActive .rest = true ∧ w.data.isActive .a = true
      ∧ ∀ x, w.data.isActive x = true → x = .a ∨ x = .box ∨ x = .chart :=
    ⟨_, _, _, _, ⟨_, _, _, rfl, ⟨20, rfl⟩, rfl, rfl⟩, ⟨_, _, _, rfl, ⟨20, rfl⟩, rfl, rfl⟩,
      ⟨_, _, _, rfl, ⟨20, rfl⟩, rfl, rfl⟩, ⟨_, _, _, rfl, ⟨20, rfl⟩, rfl, rfl⟩, rfl, rfl,
      fun x hx => by
        cases x with
        | a => exact Or.inl rfl
        | box => exact Or.inr (Or.inl rfl)
        | chart => exact Or.inr (Or.inr rfl)
        | s | i | f | rest => exact absurd hx Bool.false_ne_true⟩
  obtain ⟨w, v, w', v', hs, hr, h₁, h₂, hrest, hq, hin⟩ := hserve
  have hbox : chart.Below .a .box := Forest.below_of_parent (F := chart.forest) rfl
  have hbelow : ∀ x, w.data.isActive x = true → chart.Below .a x := fun x hx => by
    rcases hin x hx with rfl | rfl | rfl
    · exact Forest.below_refl _
    · exact hbox
    · exact Chart.below_root (c := chart) _
  obtain ⟨-, hresume⟩ := Branch.resumed_of_restored nested actionsKeepData unaware hs hq hbelow hr
  obtain ⟨-, ⟨hact, -⟩, -, hparam⟩ := hresume _ _ _ w' v' h₁ h₂
  exact ⟨w, v, w', v', hs, hr, h₁, h₂, hrest, hact, hparam (List.cons_ne_nil _ _)⟩

end Errand

end CppStatecharts
