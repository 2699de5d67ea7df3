import CppStatecharts.Semantics.Inversion

/-!
Which transition of a state fires.

* `Chart.transitions_eq`: the guarded transitions of a state come first, the last created one
  foremost, then the others in the order of their creation.
* `Transition.Ready`, `Transition.Refused`: a transition may fire, or the code finds out that it may
  not.
* `State.dispatch_first`: the first transition in this order that may fire does.
-/

namespace CppStatecharts

variable {S T E P : Type} [DecidableEq S] {c : Chart S T E P}
variable {w w' : World S T E P} {s : S} {t t' : T} {k : ℕ} {b : Bool} {e : Option E}

/-! ### The order of the transitions -/

omit [DecidableEq S] in
lemma Chart.foldl_addTransition (l acc : List T) : l.foldl c.addTransition acc
    = (l.filter fun t => (c.guard t).isSome).reverse ++ acc
      ++ l.filter fun t => (c.guard t).isNone := by
  induction l generalizing acc with
  | nil => simp
  | cons t l ih =>
      rw [List.foldl_cons, ih, Chart.addTransition]
      cases hg : c.guard t <;> simp [hg]

/-- The transitions created on `s`, in the order of their creation. -/
def Chart.created (c : Chart S T E P) (s : S) : List T := c.ownedTransitions.filter
    fun t => c.source t = s

/-- The guarded transitions come first, in reverse order. -/
lemma Chart.transitions_eq (s : S) : c.transitions s
    = ((c.created s).filter fun t => (c.guard t).isSome).reverse
      ++ (c.created s).filter fun t => (c.guard t).isNone := by
  rw [Chart.transitions, Chart.foldl_addTransition, List.append_nil]
  rfl

/-! ### The choice -/

/-- The trigger is absent or matches, and the transition is allowed. -/
def Transition.Ready (c : Chart S T E P) (k : ℕ) (t : T) (e : Option E)
    (w : World S T E P) : Prop :=
  Transition.triggered c t e w = true ∧ Returns (Transition.allowed c (c.methods k) t) w true w

/-- The trigger does not match, or the transition is not allowed. -/
def Transition.Refused (c : Chart S T E P) (k : ℕ) (t : T) (e : Option E)
    (w : World S T E P) : Prop :=
  Transition.triggered c t e w = true → Returns (Transition.allowed c (c.methods k) t) w false w

lemma Transition.Refused.not_ready (h : Transition.Refused c k t e w) :
    ¬ Transition.Ready c k t e w :=
  fun ⟨ht, ha⟩ => by cases ((h ht).unique ha).1

lemma Transition.returns_execute_true : Returns (Transition.execute c (c.methods k) t e) w true w'
    ↔ Transition.Ready c k t e w ∧ Returns (Transition.fire c (c.methods k) t) w ⟨⟩ w' := by
  rw [Transition.returns_execute (pure_methods c k)]
  simp [Transition.Ready, and_assoc]

lemma Transition.returns_execute_false : Returns (Transition.execute c (c.methods k) t e) w false w'
    ↔ w' = w ∧ Transition.Refused c k t e w := by
  rw [Transition.returns_execute (pure_methods c k)]
  simp [Transition.Refused]

/-- **Guarded transitions win.** The transitions of a state are the guarded ones in reverse order of
creation, then the others in the order of creation. `State::dispatch` goes through them and fires
the first one that may fire, provided that the look-ahead tells of each before it that it may not;
an unguarded one fires only if no guarded one may. -/
theorem State.dispatch_first (s : S) : c.transitions s
      = ((c.created s).filter fun t => (c.guard t).isSome).reverse
        ++ (c.created s).filter (fun t => (c.guard t).isNone)
    ∧ ∀ k e w b w', Returns (State.dispatch c (c.methods k) s e) w b w'
      ↔ b = false ∧ w' = w ∧ (∀ t ∈ c.transitions s, Transition.Refused c k t e w)
        ∨ b = true ∧ ∃ l t l', c.transitions s = l ++ t :: l'
          ∧ (∀ t' ∈ l, Transition.Refused c k t' e w) ∧ Transition.Ready c k t e w
          ∧ Returns (Transition.fire c (c.methods k) t) w ⟨⟩ w'
          ∧ (c.guard t = none → ∀ t' ∈ c.created s, (c.guard t').isSome = true →
              ¬ Transition.Ready c k t' e w) := by
  refine ⟨Chart.transitions_eq s, fun k e w b w' => ?_⟩
  rw [State.dispatch, returns_anyM_of_eq fun t w w' h => (Transition.returns_execute_false.mp h).1]
  simp only [Transition.returns_execute_false, Transition.returns_execute_true, true_and]
  refine or_congr Iff.rfl (and_congr_right fun _ => ?_)
  refine exists_congr fun l => exists_congr fun t => exists_congr fun l' => and_congr_right
    fun hl => ?_
  refine and_congr_right fun hrefused => and_congr_right
    fun _ => (and_iff_left_of_imp fun _ => ?_).symm
  intro hg t' ht' hg'
  -- the guarded transitions stand before an unguarded one
  have hmem : t' ∈ l := by
    rw [Chart.transitions_eq] at hl
    have hguard : t' ∈ ((c.created s).filter fun t => (c.guard t).isSome).reverse := by
      simp [ht', hg']
    rcases List.append_eq_append_iff.mp hl with ⟨r, rfl, -⟩ | ⟨r, hr, hr'⟩
    · exact List.mem_append_left _ hguard
    · rw [hr] at hguard
      rcases List.mem_append.mp hguard with h | h
      · exact h
      · cases r with
        | nil => cases h
        | cons t₁ r =>
            obtain ⟨rfl, -⟩ := List.cons.inj hr'
            have ht : t ∈ ((c.created s).filter fun t => (c.guard t).isSome).reverse := by
              rw [hr]
              simp
            simp [hg] at ht
  exact (hrefused t' hmem).not_ready

end CppStatecharts
