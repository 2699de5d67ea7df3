import CppStatecharts.Semantics.Fuel
import CppStatecharts.Semantics.Trace

/-!
The completion loop of `Statechart::dispatch`, seen as a sequence of passes.

* `Statechart.Pass`: one pass of the loop, for whatever number of nested calls it needs.
* `Statechart.Passes`: a number of consecutive passes that all have a property, in particular to
  report that they fired (`Reports`) and to fire (`Fires`).
* `returned_completionLoop_true`, `returned_completionLoop_false`: the loop reaches the threshold
  when that many passes report, and stops at the first pass that does not.
* `returned_dispatch`: what a call of `Statechart::dispatch` does.
-/

namespace CppStatecharts

namespace Statechart

variable {S T E P : Type} [DecidableEq S] (c : Chart S T E P)

/-- A pass of the completion loop from `w` reports `b` and leaves `w'`. -/
def Pass (w : World S T E P) (b : Bool) (w' : World S T E P) : Prop :=
  Returned (fun n => pass c n none) w b w'

/-- A number of consecutive passes, each with the property `Q`. -/
def Passes (Q : Bool → World S T E P → World S T E P → Prop) :
    ℕ → World S T E P → World S T E P → Prop
  | 0, w, w' => w' = w
  | k + 1, w, w' => ∃ b w₁, Pass c w b w₁ ∧ Q b w w₁ ∧ Passes Q k w₁ w'

/-- Consecutive passes that report that something fired. -/
abbrev Reports : ℕ → World S T E P → World S T E P → Prop := Passes c fun b _ _ => b = true

/-- Consecutive passes that fire a transition. -/
abbrev Fires : ℕ → World S T E P → World S T E P → Prop :=
  Passes c fun _ w w' => w.firings < w'.firings

/-- Consecutive passes. -/
abbrev Continues : ℕ → World S T E P → World S T E P → Prop := Passes c fun _ _ _ => True

variable {c} {Q Q' : Bool → World S T E P → World S T E P → Prop}
variable {w w₁ w₂ w' : World S T E P} {b b' : Bool} {e : Option E} {k j : ℕ}

/-- A pass without a current state does nothing. -/
lemma returns_pass {n : ℕ} : Returns (pass c n e) w b w'
    ↔ w.data.current c.root = none ∧ b = false ∧ w' = w
      ∨ ∃ q, w.data.current c.root = some q ∧ Returns ((c.methods n).dispatch q e) w b w' := by
  cases h : w.data.current c.root <;> simp [pass, h]

/-- On a chart that was never started, a pass does nothing. -/
lemma returned_pass_of_getData (h : (w.data.getData c.root).isSome = false) :
    Returned (fun n => pass c n e) w b w' ↔ b = false ∧ w' = w := by
  have hd : w.data.getData c.root = none := by simpa using h
  have hc : w.data.current c.root = none := by simp [Metadata.current, hd]
  simp [Returned, pass, hc]

lemma Pass.unique (h₁ : Pass c w b w₁) (h₂ : Pass c w b' w₂) : b = b' ∧ w₁ = w₂ :=
  Returned.unique (monotone_pass c none) h₁ h₂

lemma Pass.rel {Es : Set (Option E)} {R : World S T E P → World S T E P → Prop}
    (hR : Compatible c Es R) (h : Pass c w b w') : R w w' := by
  obtain ⟨n, hn⟩ := h
  exact hR.pass n hR.null w b w' hn

/-- What the invariant rule says of methods that answer the null event holds of the passes. -/
lemma Passes.rel {Es : Set (Option E)} {R : World S T E P → World S T E P → Prop}
    (hR : Compatible c Es R) (h : Passes c Q k w w') : R w w' := by
  induction k generalizing w with
  | zero => exact h ▸ hR.refl _
  | succ k ih =>
      obtain ⟨b, w₁, hp, -, h⟩ := h
      exact hR.trans (hp.rel hR) (ih h)

lemma Passes.extends (h : Passes c Q k w w') : w.Extends w' := h.rel (compatible_extends c)

/-- Consecutive passes end in one world, whatever is asked of them. -/
lemma Passes.unique (h₁ : Passes c Q k w w₁) (h₂ : Passes c Q' k w w₂) : w₁ = w₂ := by
  induction k generalizing w with
  | zero => exact h₁.trans h₂.symm
  | succ k ih =>
      obtain ⟨_, _, hp, -, h₁⟩ := h₁
      obtain ⟨_, _, hp', -, h₂⟩ := h₂
      obtain ⟨-, rfl⟩ := hp.unique hp'
      exact ih h₁ h₂

lemma passes_add : Passes c Q (k + j) w w'
    ↔ ∃ w₁, Passes c Q k w w₁ ∧ Passes c Q j w₁ w' := by
  induction k generalizing w with
  | zero => simp [Passes]
  | succ k ih =>
      rw [Nat.add_right_comm]
      simp only [Passes, ih]
      constructor
      · rintro ⟨b, w₁, hp, hq, w₂, h, h'⟩
        exact ⟨w₂, ⟨b, w₁, hp, hq, h⟩, h'⟩
      · rintro ⟨w₂, ⟨b, w₁, hp, hq, h⟩, h'⟩
        exact ⟨b, w₁, hp, hq, w₂, h, h'⟩

/-- The last of a number of passes. -/
lemma passes_succ : Passes c Q (k + 1) w w'
    ↔ ∃ b w₁, Passes c Q k w w₁ ∧ Pass c w₁ b w' ∧ Q b w₁ w' := by
  rw [passes_add]
  constructor
  · rintro ⟨w₁, h, b, _, hp, hq, rfl⟩
    exact ⟨b, w₁, h, hp, hq⟩
  · rintro ⟨b, w₁, h, hp, hq⟩
    exact ⟨w₁, h, b, w', hp, hq, rfl⟩

/-- The first pass that does not report is found in one place only. -/
lemma Reports.stop_unique {v₁ v₂ : World S T E P} (h : Reports c k w w₁)
    (hs : Pass c w₁ false w₂) (h' : Reports c j w v₁) (hs' : Pass c v₁ false v₂) :
    k = j ∧ w₁ = v₁ ∧ w₂ = v₂ := by
  have key : ∀ {k j : ℕ} {w₁ w₂ v₁ v₂ : World S T E P}, Reports c k w w₁ → Pass c w₁ false w₂ →
      Reports c j w v₁ → Pass c v₁ false v₂ → k ≤ j := by
    intro k j w₁ w₂ v₁ v₂ h hs h' hs'
    by_contra hlt
    obtain ⟨i, rfl⟩ : ∃ i, k = j + (i + 1) := ⟨k - j - 1, by omega⟩
    obtain ⟨w₃, h₁, b, w₄, h₂, hb, -⟩ := passes_add.mp h
    obtain rfl := h₁.unique h'
    exact absurd (hs'.unique h₂).1 (by simp [hb])
  obtain rfl := le_antisymm (key h hs h' hs') (key h' hs' h hs)
  obtain rfl := h.unique h'
  exact ⟨rfl, rfl, (hs.unique hs').2⟩

/-! ### The loop -/

/-- The loop reaches the threshold when that many passes report. -/
lemma returned_completionLoop_true :
    Returned (fun n => completionLoop c n k) w true w' ↔ Reports c k w w' := by
  induction k generalizing w with
  | zero => simp [Returned, completionLoop, Passes]
  | succ k ih =>
      simp only [completionLoop]
      rw [returned_bind (monotone_pass c none)
        fun b => monotone_ite (monotone_completionLoop c k) monotone_const]
      constructor
      · rintro ⟨b, w₁, hp, h⟩
        cases b
        · obtain ⟨n, hn⟩ := h
          exact absurd (returns_pure.mp hn).1 (by simp)
        · exact ⟨true, w₁, hp, rfl, ih.mp (by simpa using h)⟩
      · rintro ⟨b, w₁, hp, rfl, h⟩
        exact ⟨true, w₁, hp, by simpa using ih.mpr h⟩

/-- Otherwise it stops at the first pass that does not report. -/
lemma returned_completionLoop_false :
    Returned (fun n => completionLoop c n k) w false w'
      ↔ ∃ j < k, ∃ w₁, Reports c j w w₁ ∧ Pass c w₁ false w' := by
  induction k generalizing w with
  | zero => simp [Returned, completionLoop]
  | succ k ih =>
      simp only [completionLoop]
      rw [returned_bind (monotone_pass c none)
        fun b => monotone_ite (monotone_completionLoop c k) monotone_const]
      constructor
      · rintro ⟨b, w₁, hp, h⟩
        cases b
        · obtain ⟨n, hn⟩ := h
          obtain ⟨-, rfl⟩ := returns_pure.mp hn
          exact ⟨0, by omega, w, rfl, hp⟩
        · obtain ⟨j, hj, w₂, hr, hf⟩ := ih.mp (by simpa using h)
          exact ⟨j + 1, by omega, w₂, ⟨true, w₁, hp, rfl, hr⟩, hf⟩
      · rintro ⟨j, hj, w₁, hr, hf⟩
        cases j with
        | zero =>
            rw [show w₁ = w from hr] at hf
            exact ⟨false, w', hf, 0, returns_pure.mpr ⟨rfl, rfl⟩⟩
        | succ j =>
            obtain ⟨_, w₂, hp, rfl, hr⟩ := hr
            exact ⟨true, w₂, hp, by simpa using ih.mpr ⟨j, by omega, w₁, hr, hf⟩⟩

/-- The loop and how it is left. -/
lemma returned_complete {rc : Bool} {o : Outcome} : Returned (fun n => complete c n rc) w o w'
    ↔ Reports c c.infiniteLoopThreshold w w' ∧ o = .thrown (infiniteLoopException c)
      ∨ (∃ j < c.infiniteLoopThreshold, ∃ w₁, Reports c j w w₁ ∧ Pass c w₁ false w')
        ∧ o = .returned rc := by
  rw [← returned_completionLoop_true, ← returned_completionLoop_false]
  constructor
  · rintro ⟨n, h⟩
    simp only [complete, returns_bind, returns_ite, returns_pure] at h
    obtain ⟨b, w₁, h, ⟨rfl, rfl, rfl⟩ | ⟨hb, rfl, rfl⟩⟩ := h
    · exact Or.inl ⟨⟨n, h⟩, rfl⟩
    · exact Or.inr ⟨⟨n, by simpa [hb] using h⟩, rfl⟩
  · rintro (⟨⟨n, h⟩, rfl⟩ | ⟨⟨n, h⟩, rfl⟩)
    · exact ⟨n, returns_bind.mpr ⟨true, w', h, returns_pure.mpr ⟨rfl, rfl⟩⟩⟩
    · exact ⟨n, returns_bind.mpr ⟨false, w', h, returns_pure.mpr ⟨rfl, rfl⟩⟩⟩

/-- A call of `Statechart::dispatch`: nothing happens on a chart that was never started; otherwise
the event pass decides the result, and the completion loop whether it is returned. -/
lemma returned_dispatch {o : Outcome} : Returned (fun n => dispatch c n e) w o w'
    ↔ (w.data.getData c.root).isSome = false ∧ o = .returned false ∧ w' = w
      ∨ (w.data.getData c.root).isSome = true
        ∧ ∃ rc w₁, Returned (fun n => pass c n e) w rc w₁
          ∧ (Reports c c.infiniteLoopThreshold w₁ w' ∧ o = .thrown (infiniteLoopException c)
            ∨ (∃ j < c.infiniteLoopThreshold, ∃ w₂, Reports c j w₁ w₂ ∧ Pass c w₂ false w')
              ∧ o = .returned rc) := by
  cases hd : (w.data.getData c.root).isSome
  · simp [Returned, dispatch, hd]
  have key : Returned (fun n => dispatch c n e) w o w'
      ↔ Returned (fun n => pass c n e >>= complete c n) w o w' := by
    simp [Returned, dispatch, hd]
  rw [key, returned_bind (monotone_pass c e) (monotone_complete c)]
  simp only [Bool.true_eq_false, false_and, true_and, false_or, returned_complete]

/-! ### Calls -/

end Statechart

/-- The event that the dispatch of a call offers first. -/
def Call.event : Call E P → Option E
  | .start _ => none
  | .dispatch e _ => e

/-- The world in which the dispatch of a call begins. -/
def Call.prepare {S T E P : Type} [DecidableEq S] (c : Chart S T E P) (w : World S T E P) :
    Call E P → World S T E P
  | .start p => Statechart.enter c { w with param := p }
  | .dispatch _ p => { w with param := p }

namespace Statechart

variable {S T E P : Type} [DecidableEq S] {c : Chart S T E P} {w w' : World S T E P}

/-- Every call is a dispatch from the world it prepares. -/
lemma returned_call {call : Call E P} {o : Outcome} :
    Returned (fun n => Statechart.call c n call) w o w'
      ↔ Returned (fun n => dispatch c n call.event) (call.prepare c w) o w' := by
  cases call <;> simp [Returned, Statechart.call, start, Call.event, Call.prepare]

end Statechart

end CppStatecharts
