import CppStatecharts.Threads.Sequence

/-!
The automaton on the branches, for several clients, the worker and the timers.

* `Branch.answer`: the automaton serves a sequence of accesses.
* `Branch.answered_of_track`: after a session, every metadata of a nested chart is described by the
  automaton that has served the accesses to it.
-/

namespace CppStatecharts

variable {S T E P : Type} [DecidableEq S]

namespace Branch

open Reference

section

variable (c : Chart S T E P)

/-- The first half of an asynchronous start takes no transition. -/
noncomputable def access : Access S E P → Config S T P → Outcome × Config S T P
  | .enter, k => (.returned true, { k with current := some ((c.startState c.root).getD c.root) })
  | .visit a, k => visit c a k

/-- The outcomes of a sequence of accesses, and what they leave. -/
noncomputable def answer : List (Access S E P) → Config S T P → List Outcome × Config S T P
  | [], k => ([], k)
  | a :: l, k =>
      let r := access c a k
      let r' := answer l r.2
      (r.1 :: r'.1, r'.2)

end

variable {c : Chart S T E P} {w w' : World S T E P} {k : Config S T P} {o : Outcome}
variable {l : List (Access S E P)} {os : List Outcome} {a : Access S E P}

lemma access_depicts (hn : c.Nested) (hc : c.ActionsKeepData) (hu : c.Unaware) (h : w.Depicts c k)
    (ha : Returned (fun n => Statechart.access c n a) w o w') :
    o = (access c a k).1 ∧ w'.Depicts c (access c a k).2 := by
  cases a with
  | enter =>
      obtain ⟨n, ha⟩ := ha
      obtain ⟨⟨⟩, w₁, h₁, h₂⟩ := returns_bind.mp ha
      obtain rfl := returns_modify.mp h₁
      obtain ⟨rfl, rfl⟩ := returns_pure.mp h₂
      exact ⟨rfl, enter_depicts h⟩
  | visit a => exact visit_depicts hn hc hu h ha

lemma answer_depicts (hn : c.Nested) (hc : c.ActionsKeepData) (hu : c.Unaware) (h : w.Depicts c k)
    (hs : Statechart.Accesses c l os w w') :
    os = (answer c l k).1 ∧ w'.Depicts c (answer c l k).2 := by
  induction l generalizing w k os with
  | nil =>
      obtain ⟨rfl, rfl⟩ := hs
      exact ⟨rfl, h⟩
  | cons a l ih =>
      obtain ⟨o, os', w₁, rfl, ha, hs⟩ := hs
      obtain ⟨rfl, h₁⟩ := access_depicts hn hc hu h ha
      obtain ⟨rfl, h'⟩ := ih h₁ hs
      exact ⟨rfl, h'⟩

variable [Inhabited P] {σ : System S T E P} {params : ℕ → P} {nextParam : ℕ}
variable {q : List (Request S E × System S T E P)}

omit [DecidableEq S] in
/-- The actions are among what a client sees. -/
lemma performed_seen (l : List (Obs S T)) : Obs.performed (Obs.seen l) = Obs.performed l := by
  rw [Obs.performed, Obs.performed, Obs.seen, List.filter_filter]
  refine List.filter_congr fun o _ => ?_
  cases o <;> rfl

/-- **Nested charts refine the automaton, whoever drives them.** Any number of clients work on any
number of metadata, synchronously or not, while timers expire and the worker dispatches what is due:
after every session each metadata has executed the actions of the automaton that has served the
accesses to it, the state of the automaton is the innermost active one, and all pointers lead to
it. -/
theorem answered_of_track (hn : c.Nested) (hc : c.ActionsKeepData) (hu : c.Unaware)
    (h : System.Track c q (System.fresh params nextParam) σ) (d : ℕ) (p : P) :
    let k := (answer c (System.accesses d q) ⟨none, p, []⟩).2
    Obs.performed (σ.traces d) = k.actions
      ∧ (∀ x, (σ.stores d).isActive x = true ↔ ∃ y, k.current = some y ∧ c.Below y x)
      ∧ ∀ x y, (σ.stores d).current x = some y
        ↔ c.context y = some x ∧ ∃ z, k.current = some z ∧ c.Below z y := by
  have hfresh : (World.fresh p : World S T E P).Depicts c ⟨none, p, []⟩ :=
    ⟨rfl, rfl, by simp, fun _ => rfl⟩
  obtain ⟨os, v, ha, hv⟩ := h.reflects hu (d := d) (v := World.fresh p) ⟨rfl, rfl⟩
  obtain ⟨-, hk⟩ := answer_depicts hn hc hu hfresh ha
  refine ⟨?_, fun x => ?_, fun x y => ?_⟩
  · rw [← performed_seen, hv.seen, performed_seen, hk.performed]
  · have hs := congrArg (Metadata.isActive · x) hv.data
    simp only [Metadata.untimed, Metadata.isActive_mapTimeouts] at hs
    rw [hs]
    exact hk.isActive_iff x
  · have hs := congrArg (Metadata.current · x) hv.data
    simp only [Metadata.untimed, Metadata.current_mapTimeouts] at hs
    rw [hs]
    exact hk.current_iff x y

end Branch

namespace Errand

/-- The metadata that was started by a call, while the worker was busy with another one. -/
theorem answered_pair : ∃ l σ, System.Track chart l (System.fresh (fun _ => 0) 2) σ
    ∧ System.accesses 1 l
      = [.visit (.call (.start 0)), .visit (.call (.dispatch (some (.event "go")) 0))]
    ∧ ∃ k, k = (Branch.answer chart (System.accesses 1 l) ⟨none, 0, []⟩).2
      ∧ Obs.performed (σ.traces 1) = k.actions
      ∧ ∃ y, k.current = some y ∧ chart.Below y .rest := by
  obtain ⟨l, σ, h, -, hl, -, hrest⟩ := track_pair
  obtain ⟨hacts, hactive, -⟩ := Branch.answered_of_track nested actionsKeepData unaware h 1 0
  exact ⟨l, σ, h, hl, _, rfl, hacts, (hactive .rest).mp hrest⟩

end Errand

end CppStatecharts
