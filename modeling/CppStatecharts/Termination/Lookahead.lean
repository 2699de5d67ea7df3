import CppStatecharts.Library.Recursion
import CppStatecharts.Semantics.Fuel
import CppStatecharts.Semantics.Inversion

/-!
The look-ahead of `Transition::allowed` and `PseudoState::lookup`.

* `Chart.Through`: segments whose guards hold lead from a transition out of the pseudo-states; where
  the look-ahead comes back, it answers this (`through_iff`).
* `Chart.Ahead`: the look-ahead goes from one transition on to another, past ways that are closed.
* `converges_allowed_iff`: it comes back exactly when it does not lead round in a circle.
-/

namespace CppStatecharts

variable {S T E P : Type} [DecidableEq S] (c : Chart S T E P)

/-- The look-ahead on `t` asks the pseudo-state `j`: the guard of `t` holds, and `j` is at its end
and is no join that has to wait. -/
structure Chart.Asks (w : World S T E P) (t : T) (j : S) : Prop where
  guard : Transition.guardHolds c t w = true
  last : (c.activates t).getLast? = some j
  pseudo : (c.kind j).isPseudo = true
  ready : c.kind j = .pseudoState .join → PseudoState.joinReady c j w = true

/-- The guards of segments from `t` on hold, up to the first proper state. -/
inductive Chart.Through (w : World S T E P) : T → Prop
  | stop {t} : Transition.guardHolds c t w = true →
      (∀ j, (c.activates t).getLast? = some j → (c.kind j).isPseudo = false) → Through w t
  | segment {t t' j} : c.Asks w t j → t' ∈ c.transitions j → Through w t' → Through w t

/-- The look-ahead on `t` goes on to `t'`: all that comes before `t'` in its pseudo-state is
closed. -/
def Chart.Ahead (w : World S T E P) (t t' : T) : Prop :=
  ∃ j pre post, c.Asks w t j ∧ c.transitions j = pre ++ t' :: post ∧ ∀ u ∈ pre, ¬ c.Through w u

variable {c} {w w' : World S T E P} {t t' : T} {j : S} {k : ℕ} {b : Bool}

/-- The look-ahead is closed at once, ends in a proper state, or asks a pseudo-state. -/
lemma Chart.asks_cases (c : Chart S T E P) (w : World S T E P) (t : T) :
    (∃ j, c.Asks w t j)
      ∨ (Transition.guardHolds c t w = true
        ∧ ∀ j, (c.activates t).getLast? = some j → (c.kind j).isPseudo = false)
      ∨ (∀ v : Methods S T E P, Returns (Transition.allowed c (c.step v) t) w false w)
        ∧ ¬ c.Through w t := by
  cases hg : Transition.guardHolds c t w
  · refine Or.inr (Or.inr ⟨fun v => by simp [Transition.allowed, hg], fun h => ?_⟩)
    cases h with
    | stop h => cases h.symm.trans hg
    | segment h => cases h.guard.symm.trans hg
  by_cases hj : ∃ j, (c.activates t).getLast? = some j ∧ (c.kind j).isPseudo = true
  swap
  · exact Or.inr (Or.inl ⟨rfl, fun j hl =>
      Bool.eq_false_iff.mpr fun hk => hj ⟨j, hl, hk⟩⟩)
  obtain ⟨j, hl, hk⟩ := hj
  by_cases hr : c.kind j = .pseudoState .join → PseudoState.joinReady c j w = true
  · exact Or.inl ⟨j, hg, hl, hk, hr⟩
  obtain ⟨hjoin, hr⟩ : c.kind j = .pseudoState .join ∧ PseudoState.joinReady c j w = false := by
    simpa using hr
  refine Or.inr (Or.inr ⟨fun v => ?_, fun h => ?_⟩)
  · rw [Transition.returns_allowed_of_isPseudo hg hl hk]
    simp [Chart.step, PseudoState.lookup, hjoin, hr]
  · cases h with
    | stop _ h => cases (h j hl).symm.trans hk
    | segment h =>
        obtain rfl := Option.some.inj (h.last.symm.trans hl)
        cases (h.ready hjoin).symm.trans hr

/-- A pseudo-state that is asked tries its transitions one after the other. -/
lemma Chart.Asks.returns (h : c.Asks w t j) {v : Methods S T E P} :
    Returns (Transition.allowed c (c.step v) t) w b w'
      ↔ Returns ((c.transitions j).anyM (Transition.allowed c v)) w b w' := by
  rw [Transition.returns_allowed_of_isPseudo h.guard h.last h.pseudo]
  by_cases hj : c.kind j = .pseudoState .join
  · simp [Chart.step, PseudoState.lookup, hj, h.ready hj]
  · exact PseudoState.returns_lookup hj

lemma Chart.Asks.through_iff (h : c.Asks w t j) :
    c.Through w t ↔ ∃ t' ∈ c.transitions j, c.Through w t' := by
  refine ⟨fun ht => ?_, fun ⟨t', ht', h'⟩ => .segment h ht' h'⟩
  cases ht with
  | stop _ hn => cases (hn j h.last).symm.trans h.pseudo
  | @segment t t' i hi ht' h' =>
      obtain rfl := Option.some.inj (hi.last.symm.trans h.last)
      exact ⟨t', ht', h'⟩

lemma allowed_false {v : Methods S T E P} (hv : v.Pure) (t : T) (w w' : World S T E P)
    (h : Returns (Transition.allowed c v t) w false w') : w' = w := hv.allowed h

/-- Where the look-ahead comes back, it tells whether segments lead through. -/
lemma through_iff (h : Returns (Transition.allowed c (c.methods k) t) w b w') :
    b = true ↔ c.Through w t := by
  obtain rfl := (pure_methods c k).allowed h
  induction k generalizing t b with
  | zero =>
      rcases c.asks_cases w' t with ⟨j, hj⟩ | ⟨hg, hs⟩ | ⟨hf, hn⟩
      · rw [Transition.returns_allowed_of_isPseudo hj.guard hj.last hj.pseudo] at h
        exact absurd h (by simp [Chart.methods])
      · exact iff_of_true ((Transition.returns_allowed hg hs).mp h).1 (.stop hg hs)
      · have h' := monotone_of c (Transition.monotone_allowed c t) (Nat.zero_le 1) _ _ _ h
        exact iff_of_false (by simp [(h'.unique (hf _)).1]) hn
  | succ k ih =>
      rcases c.asks_cases w' t with ⟨j, hj⟩ | ⟨hg, hs⟩ | ⟨hf, hn⟩
      · rw [hj.through_iff]
        rcases (returns_anyM_of_eq (allowed_false (pure_methods c k))).mp (hj.returns.mp h) with
          ⟨rfl, -, hall⟩ | ⟨rfl, pre, i, post, hl, -, hi⟩
        · refine iff_of_false (by simp) ?_
          rintro ⟨t', ht', h'⟩
          cases (ih (hall t' ht')).mpr h'
        · exact iff_of_true rfl ⟨i, by simp [hl], (ih hi).mp rfl⟩
      · exact iff_of_true ((Transition.returns_allowed hg hs).mp h).1 (.stop hg hs)
      · exact iff_of_false (by simp [(h.unique (hf _)).1]) hn

/-- A look-ahead that comes back leads nowhere for ever. -/
lemma acc_of_allowed (h : Returns (Transition.allowed c (c.methods k) t) w b w') :
    Acc (fun t' t => c.Ahead w t t') t := by
  obtain rfl := (pure_methods c k).allowed h
  induction k generalizing t b with
  | zero =>
      refine .intro t fun t' ⟨j, _, _, hj, _⟩ => ?_
      rw [Transition.returns_allowed_of_isPseudo hj.guard hj.last hj.pseudo] at h
      exact absurd h (by simp [Chart.methods])
  | succ k ih =>
      refine .intro t fun t' ⟨j, pre, post, hj, hl, hpre⟩ => ?_
      -- what comes before `t'` is closed, so the search comes to it
      have hat : ∀ {b},
          Returns ((c.transitions j).anyM (Transition.allowed c (c.methods k))) w' b w' →
          ∃ b', Returns (Transition.allowed c (c.methods k) t') w' b' w' := by
        intro b h
        rw [hl] at h
        rcases returns_anyM_append.mp h with ⟨h, -⟩ | ⟨w₁, h₁, h₂⟩
        · rcases (returns_anyM_of_eq (allowed_false (pure_methods c k))).mp h with
            ⟨hb, -⟩ | ⟨-, pre', i, post', hp, -, hi⟩
          · cases hb
          · exact absurd ((through_iff hi).mp rfl) (hpre i (by simp [hp]))
        · obtain rfl := anyM_eq (fun i _ => allowed_false (pure_methods c k) i) h₁
          rcases returns_anyM_cons.mp h₂ with ⟨h₂, -⟩ | ⟨w₂, h₂, -⟩
          · exact ⟨true, h₂⟩
          · obtain rfl := (pure_methods c k).allowed h₂
            exact ⟨false, h₂⟩
      obtain ⟨b', h'⟩ := hat (hj.returns.mp h)
      exact ih h'

/-- A look-ahead that leads nowhere for ever comes back. -/
lemma converges_of_acc (h : Acc (fun t' t => c.Ahead w t t') t) :
    Converges (fun k => Transition.allowed c (c.methods k) t) w := by
  induction h with
  | intro t _ ih =>
      suffices hs : ∃ b w' k, Returns (Transition.allowed c (c.step (c.methods k)) t) w b w' by
        obtain ⟨b, w', k, h⟩ := hs
        exact ⟨b, w', k + 1, h⟩
      rcases c.asks_cases w t with ⟨j, hj⟩ | ⟨hg, hs⟩ | ⟨hf, -⟩
      · have hloop : Converges (fun k => (c.transitions j).anyM
            (Transition.allowed c (c.methods k))) w := by
          refine converges_anyM (fun t => monotone_of c (Transition.monotone_allowed c t)) ?_
          rintro t' w₁ ⟨pre, post, hl, n, hpre⟩
          have hall := (anyM_false_iff fun i _ => allowed_false (pure_methods c n) i).mp hpre
          obtain rfl := hall.1
          refine ih t' ⟨j, pre, post, hj, hl, fun u hu hthrough => ?_⟩
          cases (through_iff (hall.2 u hu)).mpr hthrough
        obtain ⟨b, w', k, h⟩ := hloop
        exact ⟨b, w', k, hj.returns.mpr h⟩
      · exact ⟨true, w, 0, (Transition.returns_allowed hg hs).mpr ⟨rfl, rfl⟩⟩
      · exact ⟨false, w, 0, hf _⟩

/-- The look-ahead goes on to transitions of the chart. -/
lemma mem_of_ahead (h : c.Ahead w t t') : t' ∈ c.ownedTransitions := by
  obtain ⟨j, pre, post, -, hl, -⟩ := h
  have ht' : t' ∈ c.transitions j := by simp [hl]
  exact (Chart.mem_transitions.mp ht').1

/-- **The look-ahead.** It comes back exactly when it does not lead round in a circle. -/
theorem converges_allowed_iff : Converges (fun k => Transition.allowed c (c.methods k) t) w
    ↔ ¬ Circular (c.Ahead w) t := by
  rw [← endless_iff_circular fun _ _ => mem_of_ahead, ← acc_iff_not_endless]
  exact ⟨fun ⟨_, _, _, h⟩ => acc_of_allowed h, converges_of_acc⟩

end CppStatecharts
