import CppStatecharts.Semantics.Links
import CppStatecharts.Semantics.Records

/-!
The elementary changes, state by state.

* `Metadata.SameAt n y`: two metadata with the same record of `y`, timeout entries apart, and the
  current state apart if `y` is `n`.
* `SameAt.activateData` to `SameAt.storeChain`: what a change leaves in the record of a state
  depends on that record alone.
* `sameAt_activateData` to `sameAt_storeChain`: a change of a state leaves the records of all
  others, its context apart.
-/

namespace CppStatecharts

namespace Metadata

variable {S : Type} {m m' m'' : Metadata S} {n y : S}

/-- The records of `y` agree, timeout entries apart, and the current state apart if `y` is `n`. -/
structure SameAt (n y : S) (m m' : Metadata S) : Prop where
  isActive : m.isActive y = m'.isActive y
  current : y ≠ n → m.current y = m'.current y
  stateset : m.stateset y = m'.stateset y
  hasData : m.hasData y = m'.hasData y

namespace SameAt

lemma refl (m : Metadata S) : SameAt n y m m := ⟨rfl, fun _ => rfl, rfl, rfl⟩

lemma symm (h : SameAt n y m m') : SameAt n y m' m :=
  ⟨h.isActive.symm, fun hy => (h.current hy).symm, h.stateset.symm, h.hasData.symm⟩

lemma trans (h : SameAt n y m m') (h' : SameAt n y m' m'') : SameAt n y m m'' :=
  ⟨h.isActive.trans h'.isActive, fun hy => (h.current hy).trans (h'.current hy),
    h.stateset.trans h'.stateset, h.hasData.trans h'.hasData⟩

lemma of_agree (h : m.Agree m') : SameAt n y m m' :=
  ⟨h.isActive.symm, fun _ => h.current.symm, h.stateset.symm, h.hasData.symm⟩

end SameAt

/-! ### A history's chain -/

variable [DecidableEq S] {h : S} {l : List S}

lemma isActive_storeChain :
    (m.modify h fun d => { d with stateset := l }).isActive y = m.isActive y :=
  isActive_modify fun _ => rfl

lemma current_storeChain :
    (m.modify h fun d => { d with stateset := l }).current y = m.current y :=
  current_modify_of_eq fun _ => rfl

lemma stateset_storeChain : (m.modify h fun d => { d with stateset := l }).stateset y
    = if y = h ∧ m.hasData h = true then l else m.stateset y := by
  refine stateset_modify.trans ?_
  by_cases hy : y = h
  · subst hy
    cases hd : m.getData y <;> simp [hasData, stateset, hd]
  · simp [hy]

end Metadata

open Metadata

variable {S T E P : Type} [DecidableEq S] {c : Chart S T E P}
variable {w x w' : World S T E P} {s n r y h q : S}

/-! ### What a change leaves in a record depends on that record -/

lemma current_activateData_iff : (c.activateData s w).data.current y = some q
    ↔ y ≠ s ∧ (c.context s = some y ∧ w.data.hasData y = true ∧ q = s
      ∨ c.context s ≠ some y ∧ w.data.current y = some q) := by
  cases hp : c.context s with
  | none =>
      rw [data_activateData, hp, current_activate_none]
      by_cases hy : y = s <;> simp [hy]
  | some p =>
      rw [current_activateData hp]
      by_cases hy : y = s
      · simp [hy]
      · by_cases hyp : y = p
        · subst hyp
          cases hd : w.data.getData y <;> simp [hy, hasData, hd, current, eq_comm]
        · simp [hy, hyp, Ne.symm hyp]

namespace Metadata.SameAt

variable (hs : SameAt n y w.data x.data)

include hs

lemma activateData (s : S) :
    SameAt n y (c.activateData s w).data (c.activateData s x).data where
  isActive := by simp [hs.isActive]
  current hy := Option.ext fun q => by
    rw [current_activateData_iff, current_activateData_iff, hs.current hy, hs.hasData]
  stateset := by simp [hs.stateset]
  hasData := by simp [hs.hasData]

lemma arrive (s : S) : SameAt n y (c.arrive s w).data (c.arrive s x).data :=
  (of_agree (agree_scheduleTimeouts c _ s)).symm.trans <|
    (hs.activateData s).trans (of_agree (agree_scheduleTimeouts c _ s))

lemma leave (s : S) : SameAt n y (c.leave s w).data (c.leave s x).data where
  isActive := by simp [hs.isActive]
  current hy := by rw [current_leave, current_leave, hs.current hy]
  stateset := by rw [stateset_leave, stateset_leave, hs.stateset]
  hasData := by rw [hasData_leave, hasData_leave, hs.hasData]

lemma registerRegion (m r : S) :
    SameAt n y (Chart.registerRegion m r w).data (Chart.registerRegion m r x).data where
  isActive := by simp [hs.isActive]
  current hy := by simp [hs.current hy]
  stateset := by
    rw [stateset_registerRegion, stateset_registerRegion]
    by_cases hy : y = m
    · subst hy
      rw [hs.stateset]
    · simp [hy, hs.stateset]
  hasData := by simp [hs.hasData]

lemma clearStateset (m : S) :
    SameAt n y (Chart.clearStateset m w).data (Chart.clearStateset m x).data where
  isActive := by simp [hs.isActive]
  current hy := by simp [hs.current hy]
  stateset := by rw [stateset_clearStateset, stateset_clearStateset, hs.stateset]
  hasData := by simp [hs.hasData]

lemma clearCurrent (s : S) :
    SameAt n y (Chart.clearCurrent s w).data (Chart.clearCurrent s x).data where
  isActive := by simp [hs.isActive]
  current hy := by rw [current_clearCurrent, current_clearCurrent, hs.current hy]
  stateset := by simp [hs.stateset]
  hasData := by simp [hs.hasData]

lemma storeChain (h : S) (l : List S) : SameAt n y
    (w.data.modify h fun d => { d with stateset := l })
    (x.data.modify h fun d => { d with stateset := l }) where
  isActive := by rw [isActive_storeChain, isActive_storeChain, hs.isActive]
  current hy := by rw [current_storeChain, current_storeChain, hs.current hy]
  stateset := by
    rw [stateset_storeChain, stateset_storeChain, hs.stateset]
    by_cases hy : y = h
    · rw [← hy, hs.hasData]
    · simp [hy]
  hasData := by rw [hasData_modify, hasData_modify, hs.hasData]

end Metadata.SameAt

/-! ### A change of a state leaves the records of all others -/

section Frame

variable (hy : y ≠ s)

include hy

lemma sameAt_activateData (hp : c.context s = some y → y = n) :
    SameAt n y w.data (c.activateData s w).data where
  isActive := by simp [hy]
  current hyn := Option.ext fun q => by
    rw [current_activateData_iff]
    have : c.context s ≠ some y := fun h => hyn (hp h)
    simp [hy, this]
  stateset := by simp
  hasData := by simp [hy]

lemma sameAt_arrive (hp : c.context s = some y → y = n) :
    SameAt n y w.data (c.arrive s w).data :=
  (sameAt_activateData hy hp).trans (.of_agree (agree_scheduleTimeouts c _ s))

lemma sameAt_leave : SameAt n y w.data (c.leave s w).data where
  isActive := by simp [hy]
  current _ := by simp [current_leave, hy]
  stateset := by simp [stateset_leave, hy]
  hasData := by simp [hasData_leave, hy]

lemma sameAt_registerRegion (r : S) : SameAt n y w.data (Chart.registerRegion s r w).data where
  isActive := by simp
  current _ := by simp
  stateset := by simp [stateset_registerRegion, hy]
  hasData := by simp [hy]

lemma sameAt_clearStateset : SameAt n y w.data (Chart.clearStateset s w).data where
  isActive := by simp
  current _ := by simp
  stateset := by simp [stateset_clearStateset, hy]
  hasData := by simp

lemma sameAt_clearCurrent : SameAt n y w.data (Chart.clearCurrent s w).data where
  isActive := by simp
  current _ := by simp [current_clearCurrent, hy]
  stateset := by simp
  hasData := by simp

lemma sameAt_storeChain (l : List S) :
    SameAt n y w.data (w.data.modify s fun d => { d with stateset := l }) where
  isActive := by rw [isActive_storeChain]
  current _ := by rw [current_storeChain]
  stateset := by simp [stateset_storeChain, hy]
  hasData := by rw [hasData_modify]

end Frame

end CppStatecharts
