import CppStatecharts.Semantics.Effects
import CppStatecharts.Semantics.Rule

/-!
Current states are children.

* `Chart.Pointers`: the current state of a state is one of its children.
* `compatible_pointers`: no method breaks this, for clients whose actions leave the metadata alone.
* `Statechart.Reachable`: a world that a sequence of calls leaves on a new metadata; the current
  states are children there (`Statechart.Reachable.pointers`).
-/

namespace CppStatecharts

variable {S T E P : Type} [DecidableEq S] {c : Chart S T E P}
variable {w w' : World S T E P} {s x q : S}

variable (c) in
/-- The current state of a state is one of its children. -/
def Chart.Pointers (m : Metadata S) : Prop := ∀ p q, m.current p = some q → c.context q = some p

/-- An activation makes its state the current one of its context, and no other changes. -/
lemma current_activateData_cases (h : (c.activateData s w).data.current x = some q) :
    q = s ∧ c.context s = some x ∨ w.data.current x = some q := by
  cases hp : c.context s with
  | none =>
      rw [data_activateData, hp, Metadata.current_activate_none] at h
      split at h
      · cases h
      · exact Or.inr h
  | some p =>
      rw [current_activateData hp] at h
      split at h
      · cases h
      · split at h
        · obtain ⟨rfl, -⟩ := ‹x = p ∧ _›
          exact Or.inl ⟨(Option.some.inj h).symm, rfl⟩
        · exact Or.inr h

lemma Chart.Pointers.activateData (h : c.Pointers w.data) :
    c.Pointers (c.activateData s w).data := by
  intro x q hq
  rcases current_activateData_cases hq with ⟨rfl, hx⟩ | hq
  · exact hx
  · exact h x q hq

omit [DecidableEq S] in
lemma Chart.Pointers.of_current (h : c.Pointers w.data)
    (hw : ∀ x q, w'.data.current x = some q → w.data.current x = some q) : c.Pointers w'.data :=
  fun x q hq => h x q (hw x q hq)

lemma compatible_pointers (hc : c.ActionsKeepData) :
    Compatible c Set.univ fun w w' => c.Pointers w.data → c.Pointers w'.data where
  null := trivial
  refl _ := id
  trans h h' := h' ∘ h
  fire _ _ _ _ _ := id
  fired _ _ _ := id
  fallThrough _ _ _ _ := id
  bracket _ _ _ h := h
  effect _ _ := by rw [hc.data_effect]; exact id
  entry _ _ := by rw [hc.data_entry]; exact id
  doing _ _ := by rw [hc.data_doing]; exact id
  exit _ _ := by rw [hc.data_exit]; exact id
  activateData _ _ _ h := h.activateData
  arrive _ _ _ _ h x q hq := h.activateData x q (current_arrive.symm.trans hq)
  leave _ _ _ h := h.of_current fun x q hq => by
    rw [current_leave] at hq
    split at hq
    · cases hq
    · exact hq
  registerRegion _ _ _ _ h := h.of_current fun x q hq => by simpa using hq
  clearStateset _ _ _ h := h.of_current fun x q hq => by simpa using hq
  clearCurrent _ _ _ h := h.of_current fun x q hq => by
    rw [current_clearCurrent] at hq
    split at hq
    · cases hq
    · exact hq
  storeHistory _ _ _ _ _ _ hs h := h.of_current fun x q hq =>
    (current_storeHistory hs).symm.trans hq

namespace Statechart

variable (c) in
/-- The world is left behind by a sequence of calls on a new metadata. -/
def Reachable (w : World S T E P) : Prop :=
  ∃ p l, Returned (fun n => calls c n l) (World.fresh p) ⟨⟩ w

lemma pointers_enter (w : World S T E P) : c.Pointers (enter c w).data := by
  have h : c.Pointers ((w.onData fun _ => .reset).log .reset).data := by
    intro x q hq
    cases hq
  unfold enter
  split
  · exact h.activateData
  · exact h.activateData.activateData

lemma Reachable.pointers (hc : c.ActionsKeepData) (h : Reachable c w) : c.Pointers w.data := by
  obtain ⟨p, l, n, hn⟩ := h
  refine (compatible_pointers hc).calls (fun _ _ => id)
    (fun w _ => pointers_enter w) n l _ _ _ hn ?_
  intro x q hq
  cases hq

end Statechart

end CppStatecharts
