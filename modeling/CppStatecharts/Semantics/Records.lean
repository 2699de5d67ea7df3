import CppStatecharts.Semantics.Effects

/-!
Which states have a record.

* `Metadata.hasData`: the states with an entry in `m_activeStates`, active or not;
  `hasData_activate` to `hasData_storeHistory` say how the elementary changes move them.
-/

namespace CppStatecharts

namespace Metadata

variable {S : Type} {m m' : Metadata S} {s x p : S} {b : Bool}

/-- The state has an entry in the map, active or not. -/
def hasData (m : Metadata S) (s : S) : Bool := (m.getData s).isSome

lemma hasData_congr (h : m.getData x = m'.getData x) : m.hasData x = m'.hasData x := by
  simp [hasData, h]

lemma hasData_of_isActive (h : m.isActive s = true) : m.hasData s = true := by
  obtain ⟨d, hd, -⟩ := m.exists_of_isActive h
  simp [hasData, hd]

lemma stateset_of_hasData_eq_false (h : m.hasData s = false) : m.stateset s = [] := by
  unfold hasData at h
  cases hd : m.getData s with
  | none => simp [stateset, hd]
  | some d => simp [hd] at h

@[simp] lemma hasData_reset : (reset : Metadata S).hasData x = false := rfl

lemma Agree.hasData (h : Agree m m') : m'.hasData x = m.hasData x := h.isSome_getData

variable [DecidableEq S]

lemma hasData_put {d : Option (StateRuntimedata S)} :
    (m.put s d).hasData x = if x = s then d.isSome else m.hasData x := by
  by_cases h : x = s
  · subst h
    simp [hasData]
  · simp [h, hasData_congr (getData_put_of_ne h)]

@[simp] lemma hasData_modify {f : StateRuntimedata S → StateRuntimedata S} :
    (m.modify s f).hasData x = m.hasData x := by
  by_cases h : x = s
  · subst h
    simp [hasData]
  · exact hasData_congr (getData_modify_of_ne h)

@[simp] lemma hasData_activate {q : Option S} :
    (m.activate q s).hasData x = (decide (x = s) || m.hasData x) := by
  have h : (m.put s (some (m.activated s))).hasData x = (decide (x = s) || m.hasData x) := by
    rw [hasData_put]
    by_cases hx : x = s <;> simp [hx]
  cases q with
  | none => rw [activate_eq, h]
  | some p => rw [activate_eq, ← h, hasData_modify]

lemma hasData_deactivate :
    (m.deactivate b s).hasData x = if b then m.hasData x else !decide (x = s) && m.hasData x := by
  cases b
  · by_cases hx : x = s <;> simp [deactivate, hasData_put, hx]
  · simp [deactivate]

@[simp] lemma hasData_createRuntimedata :
    (m.createRuntimedata s).hasData x = (decide (x = s) || m.hasData x) := by
  unfold createRuntimedata
  cases hd : m.getData s with
  | none =>
      rw [hasData_put]
      by_cases hx : x = s <;> simp [hx]
  | some d =>
      by_cases hx : x = s
      · subst hx
        simp [hasData, hd]
      · simp [hx]

end Metadata

variable {S T E P : Type} [DecidableEq S] {c : Chart S T E P}
variable {w w' : World S T E P} {s x n r h : S}

@[simp] lemma hasData_arrive :
    (c.arrive s w).data.hasData x = (decide (x = s) || w.data.hasData x) :=
  (agree_scheduleTimeouts c _ s).hasData.trans Metadata.hasData_activate

lemma hasData_leave : (c.leave s w).data.hasData x
    = if (c.kind s).isHistory then w.data.hasData x else !decide (x = s) && w.data.hasData x := by
  rw [Chart.leave]
  unfold Chart.deactivateData
  rw [data_cancelTimeouts]
  cases hd : w.data.getData s with
  | none =>
      by_cases hx : x = s
      · subst hx
        simp [Metadata.hasData, hd]
      · simp [hx]
  | some d =>
      simp only
      split <;> rename_i hk
      · exact (Metadata.hasData_deactivate (b := (c.kind s).isHistory)).trans (by simp [hk])
      · exact (Metadata.hasData_deactivate (b := (c.kind s).isHistory)).trans (by simp [hk])

@[simp] lemma hasData_registerRegion :
    (Chart.registerRegion n r w).data.hasData x = (decide (x = n) || w.data.hasData x) :=
  Metadata.hasData_modify.trans Metadata.hasData_createRuntimedata

@[simp] lemma hasData_clearStateset :
    (Chart.clearStateset n w).data.hasData x = w.data.hasData x := Metadata.hasData_modify

@[simp] lemma hasData_clearCurrent :
    (Chart.clearCurrent s w).data.hasData x = w.data.hasData x := Metadata.hasData_modify

lemma hasData_storeHistory {u : PUnit} (hs : Returns (c.storeHistory h) w u w') :
    w'.data.hasData x = w.data.hasData x := by
  rcases Chart.returns_storeHistory hs with rfl | ⟨_, _, _, -, -, -, -, rfl⟩
  · rfl
  · exact Metadata.hasData_modify

end CppStatecharts
