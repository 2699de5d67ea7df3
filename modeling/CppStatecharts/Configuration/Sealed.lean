import CppStatecharts.Configuration.Legal

/-!
What the entry into a state leaves alone.

* `Chart.Sealed`: while a concurrent state is being entered, only states inside it are left; this
  can be decided.
* `Obs.Balanced`: within a run, no entry ends before it has begun.
* `World.Holds`: a state that was active still is, unless it was left meanwhile.
* `activate_stays`: the entry of a state leaves no active state that is not inside it.
-/

namespace CppStatecharts

variable {S T E P : Type} [DecidableEq S] {c : Chart S T E P}
variable {w w₁ w' : World S T E P} {s x q n : S} {o : Obs S T} {l l' : List (Obs S T)} {k : ℕ}
variable {b : Bool}

/-- While a concurrent state is being entered, only states inside it are left. -/
def Chart.Sealed (c : Chart S T E P) (l : List (Obs S T)) : Prop :=
  ∀ newer x older, l = newer ++ .deactivated x :: older →
    ∀ n, Obs.inProgress n older → c.Below x n ∧ x ≠ n

lemma Chart.Sealed.of_append (h : c.Sealed (l' ++ l)) : c.Sealed l := by
  rintro newer x older rfl
  exact h (l' ++ newer) x older (by simp)

lemma Chart.Sealed.of_extends (h : c.Sealed w'.trace) (hw : w.Extends w') : c.Sealed w.trace := by
  obtain ⟨l, hl, -⟩ := hw
  exact (hl ▸ h).of_append

/-- The newest observation is not the exit of a state outside `n` while `n` is being entered. -/
def Chart.isSealed (c : Chart S T E P) (n : S) : List (Obs S T) → Bool
  | .deactivated x :: l => l.countP (Obs.isEntering n) == l.countP (Obs.isEntered n)
      || decide (c.Below x n) && x != n
  | _ => true

lemma sealed_iff : c.Sealed l ↔ ∀ l' ∈ l.tails, ∀ n, c.isSealed n l' = true := by
  constructor
  · intro h l' hl' n
    obtain ⟨newer, rfl⟩ := (List.mem_tails _ _).mp hl'
    unfold Chart.isSealed
    split
    · rename_i x older
      by_cases hn : Obs.inProgress n older
      · have hx := h newer x older rfl n hn
        simp [hx.1, hx.2]
      · simp [not_not.mp hn]
    · rfl
  · rintro h newer x older rfl n hn
    have hx := h (.deactivated x :: older) ((List.mem_tails _ _).mpr (List.suffix_append _ _)) n
    simpa [Chart.isSealed, show _ ≠ _ from hn] using hx

instance [Fintype S] (l : List (Obs S T)) : Decidable (c.Sealed l) :=
  decidable_of_iff _ sealed_iff.symm

/-! ### Balanced records -/

namespace Obs

/-- Looking back to the beginning, at least as many entries have begun as have ended. -/
def Balanced (l : List (Obs S T)) : Prop := ∀ n newer older, l = newer ++ older →
  older.countP (isEntered n) ≤ older.countP (isEntering n)

lemma Balanced.of_plain (h : ∀ o ∈ l, isPlain o = true) : Balanced l := by
  rintro n newer older rfl
  have hzero : older.countP (isEntered n) = 0 := List.countP_eq_zero.mpr fun o ho => by
    have := h o (List.mem_append_right _ ho)
    cases o <;> simp_all [isPlain, isEntered]
  omega

lemma Balanced.append (h : Balanced l) (h' : Balanced l') : Balanced (l' ++ l) := by
  intro n newer older hl
  rcases List.append_eq_append_iff.mp hl with ⟨l₁, rfl, rfl⟩ | ⟨l₁, rfl, rfl⟩
  · exact h n l₁ older rfl
  · have h₁ := h' n newer l₁ rfl
    have h₂ := h n [] l rfl
    rw [List.countP_append, List.countP_append]
    omega

/-- A balanced record between the marks of an entry. -/
lemma Balanced.bracket (h : Balanced l) : Balanced (.entered n :: (l ++ [.entering n])) := by
  have hbegin : Balanced ([.entering n] : List (Obs S T)) := by
    intro x newer older hl
    have hzero : older.countP (isEntered x) = 0 := List.countP_eq_zero.mpr fun o ho => by
      have : o ∈ [Obs.entering n] := hl ▸ List.mem_append_right _ ho
      rw [List.mem_singleton.mp this]
      simp [isEntered]
    omega
  intro x newer older hl
  cases newer with
  | cons o newer =>
      rw [List.cons_append] at hl
      exact (hbegin.append h) x newer older (List.cons.inj hl).2
  | nil =>
      have h₁ := h x [] l rfl
      rw [List.nil_append] at hl
      subst hl
      simp only [List.countP_cons, List.countP_append, List.countP_nil, isEntering, isEntered]
      by_cases hx : n = x
      · simp [hx]
        omega
      · simp [hx]
        omega

/-- Since an entry has begun, it is in progress. -/
lemma Balanced.inProgress (h : Balanced l) {newer older : List (Obs S T)} (hl : l = newer ++ older)
    (hn : ¬ inProgress n l') : inProgress n (older ++ .entering n :: l') := by
  have h₁ := h n newer older hl
  simp only [Obs.inProgress, not_not] at hn
  simp only [Obs.inProgress, List.countP_append, List.countP_cons, isEntering, isEntered,
    decide_true, ↓reduceIte, Bool.false_eq_true]
  omega

end Obs

/-! ### States that stay active -/

/-- If `q` was active, it still is, unless it was left meanwhile. -/
def World.Holds (q : S) (w w' : World S T E P) : Prop :=
  ∃ l, w'.trace = l ++ w.trace ∧ Obs.Balanced l
    ∧ (.deactivated q ∉ l → w.data.isActive q = true → w'.data.isActive q = true)

lemma World.Holds.of_adds (h : w.Adds (fun o => o.isPlain = true) w')
    (ha : w.data.isActive q = true → w'.data.isActive q = true) : w.Holds q w' := by
  obtain ⟨l, hl, hplain⟩ := h
  exact ⟨l, hl, .of_plain hplain, fun _ => ha⟩

/-- Every method does so, but for histories. -/
lemma compatible_holds (hc : c.ActionsKeepData) (hq : (c.kind q).isHistory = false) :
    Compatible c Set.univ (World.Holds q) := by
  have hperform : ∀ {w : World S T E P} {o : Obs S T} {a : Option (Action S P)}, o.isAction = true →
      (w.perform o a).data = w.data → w.Holds q (w.perform o a) := by
    intro w o a ho hd
    refine .of_adds (World.adds_perform ?_) fun h => hd ▸ h
    cases o <;> simp_all [Obs.isAction, Obs.isPlain]
  have heq : ∀ {w w' : World S T E P}, w'.trace = w.trace →
      w'.data.isActive q = w.data.isActive q → w.Holds q w' := fun ht ha =>
    .of_adds (World.Adds.of_eq ht) fun h => ha.trans h
  exact
  { null := trivial
    refl := fun w => heq rfl rfl
    trans := by
      rintro w₁ w₂ w₃ ⟨l, hl, hb, ha⟩ ⟨l', hl', hb', ha'⟩
      refine ⟨l' ++ l, by rw [hl', hl, List.append_assoc], hb.append hb', fun hq h => ?_⟩
      exact ha' (fun hm => hq (List.mem_append_left _ hm))
        (ha (fun hm => hq (List.mem_append_right _ hm)) h)
    fire := fun _ _ _ _ _ => .of_adds (World.Adds.of_cons rfl rfl) id
    fired := fun _ _ _ => .of_adds (World.Adds.of_cons rfl rfl) id
    fallThrough := fun _ _ _ _ => .of_adds (World.Adds.of_cons rfl rfl) id
    bracket := by
      rintro n w w' ⟨l, hl, hb, ha⟩
      refine ⟨.entered n :: (l ++ [.entering n]), ?_, hb.bracket, fun hq h => ha ?_ h⟩
      · rw [World.trace_log, hl, World.trace_log, List.cons_append, List.append_assoc]
        rfl
      · exact fun hm => hq (List.mem_cons_of_mem _ (List.mem_append_left _ hm))
    effect := fun _ _ => hperform rfl hc.data_effect
    entry := fun _ _ => hperform rfl hc.data_entry
    doing := fun _ _ => hperform rfl hc.data_doing
    exit := fun _ _ => hperform rfl hc.data_exit
    activateData := fun s w _ => .of_adds (World.Adds.of_cons rfl rfl) fun h => by simp [h]
    arrive := fun s w _ _ => by
      obtain ⟨l, hl, hidle⟩ := trace_arrive c w s
      refine .of_adds ⟨l ++ [.activated s], by rw [hl]; simp, fun o ho => ?_⟩ fun h => by simp [h]
      rcases List.mem_append.mp ho with ho | ho
      · exact Obs.isPlain_of_isIdle (hidle o ho)
      · rw [List.mem_singleton.mp ho]
        rfl
    leave := fun s w hs => by
      obtain ⟨l, hl, hmarks, hleft⟩ := trace_leave (c := c) (s := s) (w := w)
      refine ⟨l, hl, .of_plain fun o ho => ?_, fun hn h => ?_⟩
      · rcases hmarks o ho with rfl | ⟨_, _, rfl⟩ <;> rfl
      · have hne : q ≠ s := by
          rintro rfl
          obtain ⟨d, hd, -⟩ := w.data.exists_of_isActive hs
          exact hn (hleft hq (by simp [hd]))
        simp [hne, h]
    registerRegion := fun _ _ _ _ => heq rfl isActive_registerRegion
    clearStateset := fun _ _ _ => heq rfl isActive_clearStateset
    clearCurrent := fun _ _ _ => heq rfl isActive_clearCurrent
    storeHistory := fun _ _ w w' _ _ hs => by
      refine heq ?_ (isActive_storeHistory hs)
      rcases Chart.returns_storeHistory hs with rfl | ⟨_, _, _, -, -, -, -, rfl⟩ <;> rfl }

/-- In a sealed run, the entry of `s` leaves no active state that is not strictly inside `s`. -/
theorem activate_stays (hc : c.ActionsKeepData) (hs : (c.kind s).isPseudo = false)
    (hq : (c.kind q).isHistory = false) (hqs : c.Below q s → q = s)
    (hprog : ¬ Obs.inProgress s w.trace) (hseal : c.Sealed w'.trace)
    (ha : w.data.isActive q = true) (h : Returns ((c.methods k).activate s) w b w') :
    w'.data.isActive q = true := by
  cases k with
  | zero => exact absurd h (by simp [Chart.methods])
  | succ k =>
      have hgreet : w.data.isActive s = false →
          (c.greet s (c.arrive s w)).data.isActive q = true := fun _ => by
        rw [hc.data_greet, isActive_arrive, ha, Bool.or_true]
      have hstate : ∀ {b}, Returns (State.activate c s) w b w' → w'.data.isActive q = true := by
        intro b h
        rcases State.returns_activate.mp h with ⟨-, -, rfl⟩ | ⟨hi, -, rfl⟩
        · exact ha
        · exact hgreet hi
      simp only [Chart.methods, Chart.step] at h
      cases hk : c.kind s <;> simp only [hk] at h
      case pseudoState =>
        rw [hk] at hs
        cases hs
      case concurrentState =>
        rcases ConcurrentState.returns_activate.mp h with ⟨-, -, rfl⟩ | ⟨hi, -, h⟩
        · exact ha
        rcases ConcurrentState.returns_enterRegions.mp h with ⟨-, rfl⟩ | ⟨-, w₁, h₁, rfl⟩
        · exact hgreet hi
        have hlevel : w.Level (c.greet s (c.arrive s w)) :=
          ((compatible_level (c := c)).arrive s w hs hi).trans
            ((compatible_level (c := c)).greet s _)
        have hR := compatible_holds hc hq
        have := hR.std_refl
        have := hR.isTrans
        obtain ⟨l, hl, hb, hstay⟩ := keeps_forM
          (fun r _ => hR.enterRegion (hR.methods k).toEnter s r) _ _ _ h₁
        refine hstay (fun hm => ?_) (hgreet hi)
        -- `s` is being entered, so `q` would be inside
        obtain ⟨newer, older, rfl⟩ := List.append_of_mem hm
        have hsplit : newer ++ .deactivated q :: older = (newer ++ [.deactivated q]) ++ older := by
          simp
        have hmid : Obs.inProgress s (older ++ .entering s :: (c.greet s (c.arrive s w)).trace) :=
          hb.inProgress hsplit fun hp => hprog (hlevel.inProgress.mp hp)
        have hin := hseal (.entered s :: newer) q _ ?_ s hmid
        · exact hin.2 (hqs hin.1)
        · rw [World.trace_log, hl, World.trace_log]
          simp
      all_goals exact hstate h

end CppStatecharts
