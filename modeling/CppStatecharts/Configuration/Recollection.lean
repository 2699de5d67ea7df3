import CppStatecharts.Configuration.ActiveSet
import CppStatecharts.Configuration.Leaving
import CppStatecharts.Library.LastWrite
import CppStatecharts.Semantics.Locality

/-!
What a history stores in the course of a firing.

* `Chart.recollection`: what the history of a state stores when a firing leaves the state, in terms
  of the metadata before the firing.
* `Chart.memory`: what a history remembers according to the record of a run.
* `Chart.Tidy`: of the states inside a state, only those inside states of the exit list were left,
  and these entirely.
* `Chart.Recollecting`: the invariant of the first part of a firing; `Chart.Recollecting.exits`:
  after the exit list, the history has stored what it remembers.
-/

namespace CppStatecharts

variable {S T E P : Type} [DecidableEq S] {c : Chart S T E P}
variable {w w₁ w' : World S T E P} {m m' : Metadata S} {s x y a p q r n h : S} {t : T} {k : ℕ}
variable {u : PUnit} {type : PseudoStateType} {l l' : List (Obs S T)}

/-! ### The record -/

/-- The firing that began last, with the metadata before it. -/
def Obs.lastFire (l : List (Obs S T)) : Option (T × Metadata S) := l.findSome? fun
  | .fire t m => some (t, m)
  | _ => none

/-- What `h`, the history of `p`, stores when the firing of `t` with the metadata `m` leaves `p`:
the way down from `p`, but only its first state if `t` leaves this, too. Nothing is stored unless
`h` has a record and the current state of `p` is worth storing. -/
def Chart.recollection (c : Chart S T E P) (p h : S) (t : T) (m : Metadata S) : Option (List S) :=
  match c.kind h with
  | .pseudoState type =>
      if m.hasData h && HierarchicalState.storesHistory c p h (m.current p) then
        (c.calculateHistoryChain m type c.chainBound (m.current p)).map fun chain =>
          if (m.current p).any fun q => q ∈ c.deactivates t then chain.take 1 else chain
      else none
  | _ => none

/-- A reset makes `h` forget, and an exit of its context `p` makes it store something. -/
def Chart.remembers (c : Chart S T E P) (p h : S) : Obs S T → List (Obs S T) → Option (List S)
  | .reset, _ => some []
  | .deactivated x, older =>
      if x = p then (Obs.lastFire older).bind fun f => c.recollection p h f.1 f.2 else none
  | _, _ => none

/-- What the history `h` of `p` remembers according to the record of a run. -/
def Chart.memory (c : Chart S T E P) (p h : S) : List (Obs S T) → List S :=
  lastWritten (c.remembers p h) []

/-- Marks that make a history of `p` neither store nor forget anything, and begin no firing. -/
def Obs.isMum (p : S) : Obs S T → Bool
  | .reset | .fire .. => false
  | .deactivated x => x ≠ p
  | _ => true

omit [DecidableEq S] in
lemma Obs.lastFire_cons {o : Obs S T} (ho : ∀ t m, o ≠ .fire t m) :
    lastFire (o :: l) = lastFire l := by
  cases o with
  | fire t m => exact absurd rfl (ho t m)
  | _ => rfl

lemma Obs.lastFire_append {p : S} (hl : ∀ o ∈ l', Obs.isMum p o = true) :
    lastFire (l' ++ l) = lastFire l := by
  induction l' with
  | nil => rfl
  | cons o l' ih =>
      rw [List.cons_append, lastFire_cons, ih fun o ho => hl o (List.mem_cons_of_mem _ ho)]
      rintro t m rfl
      cases hl _ List.mem_cons_self

lemma Chart.remembers_eq_none {o : Obs S T} (ho : ∀ x, o = .deactivated x → x ≠ p)
    (hr : o ≠ .reset) : c.remembers p h o l = none := by
  cases o with
  | reset => exact absurd rfl hr
  | deactivated x => exact if_neg (ho x rfl)
  | _ => rfl

lemma Chart.memory_append (hl : ∀ o ∈ l', Obs.isMum p o = true) :
    c.memory p h (l' ++ l) = c.memory p h l := by
  refine lastWritten_append (Mute.of_forall fun o ho l => remembers_eq_none ?_ ?_)
  · rintro x rfl
    simpa [Obs.isMum] using hl _ ho
  · rintro rfl
    cases hl _ ho

/-! ### The exit list -/

namespace Chart

/-- The exit list leads upward. -/
lemma pairwise_deactivates (t : T) :
    (c.deactivates t).Pairwise fun x y => c.Below x y ∧ x ≠ y := by
  unfold deactivates
  split
  · exact .nil
  refine List.pairwise_reverse.mpr (List.Pairwise.sublist (List.drop_sublist _ _) ?_)
  by_cases hs : c.source t = c.root
  · rw [hs, path_root]
    exact List.pairwise_singleton _ _
  · exact (descends_path hs).pairwise

/-- The exit list is a way without gaps. -/
lemma mem_deactivates_of_between (hx : x ∈ c.deactivates t) (hy : y ∈ c.deactivates t)
    (hxq : c.Below x q) (hqy : c.Below q y) : q ∈ c.deactivates t := by
  unfold deactivates at hx hy ⊢
  split at hx
  · cases hx
  rename_i hint
  simp only [hint, Bool.false_eq_true, ↓reduceIte, calculateStateSet, List.mem_reverse]
    at hx hy ⊢
  by_cases hs : c.source t = c.root
  · rw [hs, path_root] at hx hy ⊢
    have hxr := List.mem_singleton.mp (List.mem_of_mem_drop hx)
    have hyr := List.mem_singleton.mp (List.mem_of_mem_drop hy)
    have hqx : q = x := Forest.below_antisymm (hxr ▸ hyr ▸ hqy) hxq
    exact hqx ▸ hx
  have hd := descends_path hs
  generalize c.path (c.source t) = l at hd hx hy ⊢
  generalize (if c.source t = c.target t then _ else _ : ℕ) = n at hx hy ⊢
  -- the state is on the way, and not before `y`
  have hq : q ∈ l := by
    obtain ⟨hsx, -, -⟩ := hd.mem_iff.mp (List.mem_of_mem_drop hx)
    obtain ⟨-, -, hyr⟩ := hd.mem_iff.mp (List.mem_of_mem_drop hy)
    refine hd.mem_iff.mpr ⟨Forest.below_trans hsx hxq, below_root q, ?_⟩
    rintro rfl
    exact hyr (Forest.below_antisymm (below_root y) hqy)
  have hpair := hd.pairwise
  rw [← List.take_append_drop n l] at hq hpair
  refine (List.mem_append.mp hq).resolve_left fun hq => ?_
  obtain ⟨hyq, hne⟩ := (List.pairwise_append.mp hpair).2.2 q hq y hy
  exact hne (Forest.below_antisymm hyq hqy)

end Chart

/-! ### What is left at each moment -/

/-- While the exit list of `t` is left, starting from the metadata `m`: `s` lies inside a state of
the list, the states of the list inside `s` have been left, and inside `s` the current states are
those of `m` wherever no such state lies above. -/
structure Chart.Tidy (c : Chart S T E P) (t : T) (m : Metadata S) (s : S) (w : World S T E P) :
    Prop where
  inside : ∃ y ∈ c.deactivates t, c.Below s y
  spent : ∀ {a}, a ∈ c.deactivates t → c.Below a s → a ≠ s → c.Spent a w
  current : ∀ {x}, c.Below x s → w.data.current x = m.current x
    ∨ ∃ a ∈ c.deactivates t, c.Below x a ∧ c.Below a s ∧ c.Spent a w

namespace Chart.Tidy

lemma child (h : c.Tidy t m s w) (hq : c.context q = some s) (hs : ¬ c.Spent s w) :
    c.Tidy t m q w := by
  have hqs : c.Below q s := Forest.below_of_parent (F := c.forest) hq
  obtain ⟨y, hy, hsy⟩ := h.inside
  refine ⟨⟨y, hy, Forest.below_trans hqs hsy⟩, fun {a} ha haq _ => ?_, fun {x} hx => ?_⟩
  · refine h.spent ha (Forest.below_trans haq hqs) ?_
    rintro rfl
    exact Forest.not_below_of_parent (F := c.forest) hq haq
  · refine (h.current (Forest.below_trans hx hqs)).imp id ?_
    rintro ⟨a, ha, hxa, has, hspent⟩
    refine ⟨a, ha, hxa, ?_, hspent⟩
    have hne : a ≠ s := fun h => hs (h ▸ hspent)
    rcases Forest.below_total hxa hx with haq | hqa
    · exact haq
    · by_cases hqa' : q = a
      · exact hqa' ▸ Forest.below_refl _
      · have hsa := Forest.below_parent (F := c.forest) hqa hqa' hq
        exact absurd (Forest.below_antisymm has hsa) hne

lemma of_eq (h : c.Tidy t m s w) (ha : ∀ x, w'.data.isActive x = w.data.isActive x)
    (hcur : ∀ x, w'.data.current x = w.data.current x) : c.Tidy t m s w' := by
  have hspent : ∀ {a}, c.Spent a w → c.Spent a w' := fun hs =>
    ⟨(ha _).trans hs.inactive, fun hk r hr => (ha r).trans (hs.regions hk r hr)⟩
  refine ⟨h.inside, fun hm hb hne => hspent (h.spent hm hb hne), fun hx => ?_⟩
  rw [hcur]
  exact (h.current hx).imp id fun ⟨a, hm, hxa, has, hs⟩ => ⟨a, hm, hxa, has, hspent hs⟩

/-- Leaving a state that has nothing in common with `s`. -/
lemma of_recedes (h : c.Tidy t m s w) (hr : c.Recedes r w w')
    (hx : ∀ x, c.Below x s → ¬ c.Below x r) : c.Tidy t m s w' := by
  refine ⟨h.inside, fun hm hb hne => (h.spent hm hb hne).of_recedes hr, fun hb => ?_⟩
  rw [(hr.frame (hx _ hb)).2]
  exact (h.current hb).imp id fun ⟨a, hm, hxa, has, hs⟩ => ⟨a, hm, hxa, has, hs.of_recedes hr⟩

/-- The current state of an active state is still the one it was. -/
lemma current_self (h : c.Tidy t m s w) (hs : w.data.isActive s = true) :
    w.data.current s = m.current s := by
  refine (h.current (Forest.below_refl s)).resolve_right ?_
  rintro ⟨a, -, hsa, has, hspent⟩
  rw [← Forest.below_antisymm hsa has] at hspent
  rw [hspent.inactive] at hs
  cases hs

/-- Nor did anything change inside its current state, unless this is left by the transition. -/
lemma current_of_not_mem (h : c.Tidy t m s w) (hs : w.data.isActive s = true)
    (hq : c.context q = some s) (hql : q ∉ c.deactivates t) (hx : c.Below x q) :
    w.data.current x = m.current x := by
  have hqs : c.Below q s := Forest.below_of_parent (F := c.forest) hq
  refine (h.current (Forest.below_trans hx hqs)).resolve_right ?_
  rintro ⟨a, ha, hxa, has, hspent⟩
  have hns : ¬ c.Spent s w := fun h => by
    rw [h.inactive] at hs
    cases hs
  have hne : a ≠ s := fun h => hns (h ▸ hspent)
  obtain ⟨y, hy, hsy⟩ := h.inside
  rcases Forest.below_total hxa hx with haq | hqa
  · exact hql (mem_deactivates_of_between ha hy haq (Forest.below_trans hqs hsy))
  · by_cases hqa' : q = a
    · exact hql (hqa' ▸ ha)
    · exact hne (Forest.below_antisymm has (Forest.below_parent (F := c.forest) hqa hqa' hq))

end Chart.Tidy

/-! ### The chain that is stored -/

section Chain

omit [DecidableEq S]

lemma calculateHistoryChain_none (m : Metadata S) (type : PseudoStateType) (k : ℕ) :
    c.calculateHistoryChain m type k none = some [] := by
  cases k <;> rfl

/-- The chain depends on the current states inside its first state. -/
lemma calculateHistoryChain_congr (hm : c.Pointers m)
    (h : ∀ x, c.Below x q → m'.current x = m.current x) (k : ℕ) :
    c.calculateHistoryChain m' type k (some q) = c.calculateHistoryChain m type k (some q) := by
  induction k generalizing q with
  | zero => rfl
  | succ k ih =>
      rw [Chart.calculateHistoryChain, Chart.calculateHistoryChain, h q (Forest.below_refl _)]
      cases hr : m.current q with
      | none => rw [calculateHistoryChain_none, calculateHistoryChain_none]
      | some r =>
          have hrq : c.Below r q := Forest.below_of_parent (F := c.forest) (hm q r hr)
          rw [ih fun x hx => h x (Forest.below_trans hx hrq)]

/-- Without a current state in it, the first state is the whole chain. -/
lemma calculateHistoryChain_leaf (h : c.kind q = .hierarchicalState → m.current q = none) (k : ℕ) :
    c.calculateHistoryChain m type (k + 1) (some q) = some [q] := by
  rw [Chart.calculateHistoryChain]
  split
  · rfl
  split
  · rename_i hk
    rw [h hk, calculateHistoryChain_none]
    rfl
  · rfl

lemma take_one_calculateHistoryChain {chain : List S}
    (h : c.calculateHistoryChain m type k (some q) = some chain) : chain.take 1 = [q] := by
  cases k with
  | zero => cases h
  | succ k =>
      rw [Chart.calculateHistoryChain] at h
      split at h
      · rw [← Option.some.inj h]
        rfl
      split at h
      · obtain ⟨l, -, rfl⟩ := Option.map_eq_some_iff.mp h
        rfl
      · rw [← Option.some.inj h]
        rfl

end Chain

/-- The history that is stored while the exit list is left, in terms of the metadata before. -/
lemma calculateHistoryChain_tidy (hm : c.Pointers m) (hk : c.Kept w)
    (h : c.Tidy t m p w) (hp : w.data.isActive p = true) (type : PseudoStateType) :
    c.calculateHistoryChain w.data type c.chainBound (w.data.current p)
      = (c.calculateHistoryChain m type c.chainBound (m.current p)).map fun chain =>
        if (m.current p).any fun q => q ∈ c.deactivates t then chain.take 1 else chain := by
  rw [h.current_self hp]
  cases hq : m.current p with
  | none => rw [calculateHistoryChain_none, calculateHistoryChain_none]; rfl
  | some q =>
      have hqp := hm p q hq
      have hqb : c.Below q p := Forest.below_of_parent (F := c.forest) hqp
      simp only [Option.any_some, decide_eq_true_eq]
      by_cases hql : q ∈ c.deactivates t
      · have hspent := h.spent hql hqb (Forest.ne_of_parent (F := c.forest) hqp)
        obtain ⟨chain, hchain⟩ :
            ∃ l, c.calculateHistoryChain m type c.chainBound (some q) = some l :=
          exists_calculateHistoryChain hm (fun r hr => Option.some.inj hr ▸ hqp)
            (by unfold Chart.chainBound; omega)
        rw [hchain, Option.map_some, if_pos hql, take_one_calculateHistoryChain hchain,
          show c.chainBound = c.ownedStates.length + c.maxDepth + 1 by
            unfold Chart.chainBound; omega]
        refine calculateHistoryChain_leaf (fun hkq => ?_) _
        by_contra hcur
        obtain ⟨r, hr⟩ := Option.ne_none_iff_exists'.mp hcur
        have hd : w.data.hasData q = true := by
          cases hd : w.data.getData q with
          | none => simp [Metadata.current, hd] at hr
          | some d => simp [Metadata.hasData, hd]
        have ha := hk.active (x := q) (by rw [hkq]; decide) (by rw [hkq]; rfl) hd
        rw [hspent.inactive] at ha
        cases ha
      · simp only [hql, ↓reduceIte, Option.map_id']
        exact calculateHistoryChain_congr hm
          (fun x hx => h.current_of_not_mem hp hqp hql hx) _

/-! ### The invariant -/

/-- While the exit list of `t` is left, starting from the metadata `m`: the history `h` of `p` has
stored what it remembers. -/
structure Chart.Recollecting (c : Chart S T E P) (p h : S) (t : T) (m : Metadata S)
    (w : World S T E P) : Prop where
  pointers : c.Pointers w.data
  kept : c.Kept w
  hasData : w.data.hasData h = m.hasData h
  fire : Obs.lastFire w.trace = some (t, m)
  stateset : w.data.stateset h = c.memory p h w.trace

lemma Chart.Parting.isMum {o : Obs S T} (ho : c.Parting s o) (hp : ¬ c.Below p s) :
    o.isMum p = true := by
  rcases ho with ⟨x, hx, rfl⟩ | ⟨id, rfl⟩ | ⟨x, rfl⟩
  · have hne : x ≠ p := fun h => hp (h ▸ hx)
    simpa [Obs.isMum] using hne
  · rfl
  · rfl

/-- The condition under which a history stores depends on its record. -/
lemma storeHistory_cases (hph : c.history p = some h) (htype : c.kind h = .pseudoState type)
    (hs : Returns (c.storeHistory h) w u w') :
    w.data.hasData h = false ∧ w' = w
      ∨ w.data.hasData h = true ∧ c.calculateHistoryChain w.data type c.chainBound
        (w.data.current p) = some (w'.data.stateset h) := by
  have hctx := (Chart.history_eq_some_iff.mp hph).2
  cases hd : w.data.getData h with
  | none =>
      refine Or.inl ⟨by simp [Metadata.hasData, hd], ?_⟩
      rcases Chart.returns_storeHistory hs with rfl | ⟨_, _, _, -, -, hsome, -, -⟩
      · rfl
      · simp [hd] at hsome
  | some d =>
      refine Or.inr ⟨by simp [Metadata.hasData, hd], ?_⟩
      simp only [Returns, StateT.run, Chart.storeHistory, hd, hctx, htype] at hs
      obtain ⟨chain, hchain, hw⟩ := Option.map_eq_some_iff.mp hs
      obtain ⟨-, rfl⟩ := Prod.mk.inj hw
      rw [hchain, World.data_onData, Metadata.stateset_storeChain, if_pos]
      simp [Metadata.hasData, hd]

namespace Chart.Recollecting

variable (hc : c.ActionsKeepData) (hph : c.history p = some h)

lemma of_adds (hw : c.Recollecting p h t m w) (hm : c.Pointers w'.data) (hk : c.Kept w')
    (hd : w'.data.hasData h = w.data.hasData h) (hs : w'.data.stateset h = w.data.stateset h)
    (ht : w.Adds (fun o => o.isMum p = true) w') : c.Recollecting p h t m w' := by
  obtain ⟨l, hl, hmum⟩ := ht
  refine ⟨hm, hk, hd.trans hw.hasData, ?_, ?_⟩
  · rw [hl, Obs.lastFire_append hmum]
    exact hw.fire
  · rw [hs, hl, memory_append hmum]
    exact hw.stateset

include hc hph

lemma state_deactivate (hw : c.Recollecting p h t m w) (hs : s ≠ p)
    (hd : Returns (State.deactivate c s) w u w') : c.Recollecting p h t m w' := by
  have hm := (compatible_pointers hc).state_deactivate s _ _ _ hd hw.pointers
  have hk := (compatible_kept hc).state_deactivate s _ _ _ hd hw.kept
  rcases State.returns_deactivate.mp hd with ⟨-, rfl⟩ | ⟨ha, rfl⟩
  · exact hw
  have hh := (history_eq_some_iff.mp hph).1
  obtain ⟨l, hl, hmarks, -⟩ := trace_leave (c := c) (s := s) (w := w)
  refine hw.of_adds hm hk ?_ ?_ (World.Adds.trans ⟨l, hl, fun o ho => ?_⟩ (World.adds_perform rfl))
  · rw [hc.data_exit, hasData_leave]
    by_cases hhs : h = s
    · rw [if_pos (hhs ▸ hh)]
    · simp [hhs]
  · rw [hc.data_exit, stateset_leave, if_neg]
    rintro ⟨rfl, hns⟩
    rw [hh] at hns
    cases hns
  · rcases hmarks o ho with rfl | ⟨id, -, rfl⟩
    · simpa [Obs.isMum] using hs
    · rfl

lemma saveHistory (hw : c.Recollecting p h t m w) (hs : s ≠ p) {cur : Option S}
    (hcur : cur = w.data.current s)
    (hd : Returns (HierarchicalState.saveHistory c s cur) w u w') :
    c.Recollecting p h t m w' := by
  rcases HierarchicalState.returns_saveHistory.mp hd with ⟨rfl, -⟩ | ⟨y, hy, hst, hd⟩
  · exact hw
  have hne : h ≠ y := fun hhy => hs <| Option.some.inj <|
    (history_eq_some_iff.mp hy).2.symm.trans (hhy ▸ (history_eq_some_iff.mp hph).2)
  refine hw.of_adds ((compatible_pointers hc).storeHistory s y w w' hy (hcur ▸ hst) hd hw.pointers)
    ((compatible_kept hc).storeHistory s y w w' hy (hcur ▸ hst) hd hw.kept)
    (hasData_storeHistory hd) (stateset_storeHistory hd hne) (World.Adds.of_eq ?_)
  rcases Chart.returns_storeHistory hd with rfl | ⟨_, _, _, -, -, -, -, rfl⟩ <;> rfl

omit hph in
lemma clearCurrent (hw : c.Recollecting p h t m w) (hk : c.kind s = .hierarchicalState) :
    c.Recollecting p h t m (Chart.clearCurrent s w) :=
  hw.of_adds ((compatible_pointers hc).clearCurrent s w hk hw.pointers)
    ((compatible_kept hc).clearCurrent s w hk hw.kept) hasData_clearCurrent stateset_clearCurrent
    (World.Adds.of_eq rfl)

lemma clearStateset (hw : c.Recollecting p h t m w) (hk : c.kind n = .concurrentState) :
    c.Recollecting p h t m (Chart.clearStateset n w) := by
  refine hw.of_adds ((compatible_pointers hc).clearStateset n w hk hw.pointers)
    ((compatible_kept hc).clearStateset n w hk hw.kept) hasData_clearStateset ?_
    (World.Adds.of_eq rfl)
  rw [stateset_clearStateset, if_neg]
  rintro rfl
  have hh := (history_eq_some_iff.mp hph).1
  rw [hk] at hh
  cases hh

omit hc in
/-- What `p` stores before its substate is left. -/
lemma stateset_saveHistory (hm : c.Pointers m) (hw : c.Recollecting p h t m w)
    (ht : c.Tidy t m p w) (ha : w.data.isActive p = true)
    (hd : Returns (HierarchicalState.saveHistory c p (w.data.current p)) w u w') :
    (c.recollection p h t m).getD (c.memory p h w.trace) = w'.data.stateset h := by
  obtain ⟨type, htype⟩ : ∃ type, c.kind h = .pseudoState type := by
    have hh := (history_eq_some_iff.mp hph).1
    cases hk : c.kind h <;> simp_all [StateKind.isHistory]
  simp only [recollection, htype, ← hw.hasData, ← ht.current_self ha, ← hw.stateset]
  rcases HierarchicalState.returns_saveHistory.mp hd with ⟨rfl, hno⟩ | ⟨y, hy, hst, hs⟩
  · rw [hno h hph, Bool.and_false]
    rfl
  obtain rfl := Option.some.inj (hph.symm.trans hy)
  rcases storeHistory_cases hph htype hs with ⟨hd, rfl⟩ | ⟨hd, hchain⟩
  · rw [hd, Bool.false_and]
    rfl
  · have htidy := calculateHistoryChain_tidy hm hw.kept ht ha type
    rw [hchain, ← ht.current_self ha] at htidy
    rw [hd, hst, ← htidy]
    rfl

/-- The state `p` itself is left: its history stores the way down before anything else happens, and
nothing inside `p` can change what is stored then. -/
lemma deactivate_self (hm : c.Pointers m) (hw : c.Recollecting p h t m w) (ht : c.Tidy t m p w)
    (hd : Returns (HierarchicalState.deactivate c (c.methods k) p) w u w') :
    c.Recollecting p h t m w' := by
  have hkp := c.history_context (history_eq_some_iff.mp hph).1 (history_eq_some_iff.mp hph).2
  have hpointers := (compatible_pointers hc).hierarchical_deactivate
    ((compatible_pointers hc).deactivate k) hkp _ _ _ hd hw.pointers
  have hkept := (compatible_kept hc).hierarchical_deactivate
    ((compatible_kept hc).deactivate k) hkp _ _ _ hd hw.kept
  have hdata := (HierarchicalState.deactivate_recedes hc hw.pointers
    (fun q w w' hm hd => (deactivate_recedes hc k q w w' hm hd).1) hd).1.hasData
      (history_eq_some_iff.mp hph).1
  rcases HierarchicalState.returns_deactivate.mp hd with ⟨-, rfl⟩ | ⟨ha, w₁, w₂, h₁, h₂, h₃⟩
  · exact hw
  have hstored := hw.stateset_saveHistory hph hm ht ha h₁
  obtain ⟨htr₁, hm₁, ha₁⟩ : w₁.trace = w.trace ∧ c.Pointers w₁.data
      ∧ w₁.data.isActive p = true := by
    rcases HierarchicalState.returns_saveHistory.mp h₁ with ⟨rfl, -⟩ | ⟨y, hy, hst, hs⟩
    · exact ⟨rfl, hw.pointers, ha⟩
    · refine ⟨?_, (compatible_pointers hc).storeHistory p y _ _ hy hst hs hw.pointers,
        (isActive_storeHistory hs).trans ha⟩
      rcases Chart.returns_storeHistory hs with rfl | ⟨_, _, _, -, -, -, -, rfl⟩ <;> rfl
  obtain ⟨hset₂, ⟨l₂, hl₂, hmum₂⟩, ha₂⟩ : w₂.data.stateset h = w₁.data.stateset h
      ∧ w₁.Adds (fun o => o.isMum p = true) w₂ ∧ w₂.data.isActive p = true := by
    cases hq : w.data.current p with
    | none =>
        rw [hq] at h₂
        rw [(returns_pure.mp h₂).2]
        exact ⟨rfl, World.Adds.refl _, ha₁⟩
    | some q =>
        rw [hq] at h₂
        obtain ⟨hr, -⟩ := deactivate_recedes hc k q w₁ w₂ hm₁ h₂
        have hpq : ¬ c.Below p q :=
          Forest.not_below_of_parent (F := c.forest) (hw.pointers p q hq)
        exact ⟨hr.stateset hph hpq, hr.adds.mono fun _ ho => ho.isMum hpq,
          (hr.frame hpq).1.trans ha₁⟩
  rcases State.returns_deactivate.mp h₃ with ⟨hi, -⟩ | ⟨-, rfl⟩
  · rw [isActive_clearCurrent, ha₂] at hi
    cases hi
  -- the last marks: that `p` is left, and its exit action
  obtain ⟨l₃, hl₃, hexit⟩ : (c.leave p (Chart.clearCurrent p w₂)).Adds
      (fun o => o.isMum p = true ∧ ∀ t m, o ≠ .fire t m)
      ((c.leave p (Chart.clearCurrent p w₂)).perform (.exit p) (c.exitAction p)) :=
    World.adds_perform ⟨rfl, by simp⟩
  obtain ⟨l, hids, hleft⟩ := trace_leave_cases (c := c) (s := p) (w := Chart.clearCurrent p w₂)
  have hids' : ∀ o ∈ l, o.isMum p = true := fun o ho => by
    obtain ⟨id, -, rfl⟩ := hids o ho
    rfl
  have htrace : (c.leave p (Chart.clearCurrent p w₂)).trace
      = .deactivated p :: (l ++ (l₂ ++ w.trace)) := by
    rcases hleft with ⟨-, hk | hk⟩ | ⟨hleft, -⟩
    · rw [hkp] at hk
      cases hk
    · have hsome := Metadata.hasData_of_isActive (isActive_clearCurrent (s := p) (w := w₂) ▸ ha₂)
      rw [Metadata.hasData, hk] at hsome
      cases hsome
    · rw [hleft, show (Chart.clearCurrent p w₂).trace = w₂.trace from rfl, hl₂, htr₁]
  have hfire : Obs.lastFire (l ++ (l₂ ++ w.trace)) = some (t, m) := by
    rw [Obs.lastFire_append hids', Obs.lastFire_append hmum₂]
    exact hw.fire
  refine ⟨hpointers, hkept, hdata.trans hw.hasData, ?_, ?_⟩
  · rw [hl₃, htrace, Obs.lastFire_append fun o ho => (hexit o ho).1,
      Obs.lastFire_cons (by simp), hfire]
  · have hold : c.memory p h (l ++ (l₂ ++ w.trace)) = c.memory p h w.trace := by
      rw [memory_append hids', memory_append hmum₂]
    rw [hl₃, htrace, memory_append fun o ho => (hexit o ho).1, memory, lastWritten_cons, remembers,
      if_pos rfl, hfire, Option.bind_some, ← memory, hold, hstored, ← hset₂, hc.data_exit,
      stateset_leave, if_neg, stateset_clearCurrent]
    rintro ⟨rfl, -⟩
    have hh := (history_eq_some_iff.mp hph).1
    rw [hkp] at hh
    cases hh

/-- Leaving any state keeps the invariant. -/
theorem deactivate (hm : c.Pointers m) : ∀ (k : ℕ) (s : S) (w w' : World S T E P),
    c.Recollecting p h t m w → c.Tidy t m s w → Returns ((c.methods k).deactivate s) w ⟨⟩ w' →
    c.Recollecting p h t m w' := by
  intro k
  induction k with
  | zero => exact fun _ _ _ _ _ hd => absurd hd (by simp [Chart.methods])
  | succ k ih =>
      intro s w w' hw ht hd
      have hkp := c.history_context (history_eq_some_iff.mp hph).1 (history_eq_some_iff.mp hph).2
      by_cases hspent : c.Spent s w
      · rcases deactivate_spent hspent hd with rfl | ⟨hk, rfl⟩
        · exact hw
        · exact hw.clearStateset hc hph hk
      have hne : c.kind s ≠ .hierarchicalState → s ≠ p := fun hk h => hk (h ▸ hkp)
      cases hk : c.kind s <;> simp only [Chart.methods, Chart.step, hk] at hd
      case hierarchicalState =>
        by_cases hsp : s = p
        · subst hsp
          exact hw.deactivate_self hc hph hm ht hd
        rcases HierarchicalState.returns_deactivate.mp hd with ⟨-, rfl⟩ | ⟨ha, w₁, w₂, h₁, h₂, h₃⟩
        · exact hw
        have hw₁ := hw.saveHistory hc hph hsp rfl h₁
        have ht₁ : c.Tidy t m s w₁ := by
          rcases HierarchicalState.returns_saveHistory.mp h₁ with ⟨rfl, -⟩ | ⟨y, -, -, hs⟩
          · exact ht
          · exact ht.of_eq (fun _ => isActive_storeHistory hs) fun _ => current_storeHistory hs
        have hw₂ : c.Recollecting p h t m w₂ := by
          cases hq : w.data.current s with
          | none =>
              rw [hq] at h₂
              rw [(returns_pure.mp h₂).2]
              exact hw₁
          | some q =>
              rw [hq] at h₂
              refine ih q w₁ w₂ hw₁ (ht₁.child (hw.pointers s q hq) fun hsp => ?_) h₂
              have ha₁ := (HierarchicalState.saveHistory_recedes h₁).1
              refine hspent ⟨?_, fun hk' => ?_⟩
              · rcases HierarchicalState.returns_saveHistory.mp h₁ with ⟨rfl, -⟩ | ⟨y, -, -, hs⟩
                · exact hsp.inactive
                · exact (isActive_storeHistory hs).symm.trans hsp.inactive
              · rw [hk] at hk'
                cases hk'
        exact (hw₂.clearCurrent hc hk).state_deactivate hc hph hsp h₃
      case concurrentState =>
        obtain ⟨w₁, h₁, h₂⟩ := ConcurrentState.returns_deactivate.mp hd
        have ht₀ : c.Tidy t m s (Chart.clearStateset s w) :=
          ht.of_eq (fun _ => isActive_clearStateset) fun _ => current_clearStateset
        have hs₀ : ¬ c.Spent s (Chart.clearStateset s w) := fun h => hspent
          ⟨isActive_clearStateset.symm.trans h.inactive,
            fun hk r hr => isActive_clearStateset.symm.trans (h.regions hk r hr)⟩
        -- the regions still to be left are as tidy as before
        have hloop : c.Recollecting p h t m w₁ := by
          refine (forM_induction (fun done w₁ => c.Recollecting p h t m w₁
            ∧ ∀ r ∈ c.regions s, r ∉ done → c.Tidy t m r w₁)
            (fun done r rest hl w₁ w₂ hinv hr => ?_) h₁
            ⟨hw.clearStateset hc hph hk, fun r hr _ =>
              ht₀.child (mem_regions.mp hr).2 hs₀⟩).1
          obtain ⟨hw₁, ht₁⟩ := hinv
          have hmem : r ∈ c.regions s := hl ▸ by simp
          have hnot : r ∉ done := fun hmem' => by
            have hnd := c.nodup_regions (n := s)
            rw [hl] at hnd
            exact (List.nodup_append.mp hnd).2.2 r hmem' r (by simp) rfl
          obtain ⟨hrec, -⟩ := deactivate_recedes hc k r w₁ w₂ hw₁.pointers hr
          refine ⟨ih r w₁ w₂ hw₁ (ht₁ r hmem hnot) hr, fun y hy hyd => ?_⟩
          have hyr : y ≠ r := fun h => hyd (h ▸ by simp)
          have hy₁ := ht₁ y hy fun h => hyd (List.mem_append_left _ h)
          refine hy₁.of_recedes hrec fun x hx hxr => ?_
          exact hyr (Forest.eq_of_below_children (F := c.forest) (mem_regions.mp hy).2
            (mem_regions.mp hmem).2 hx hxr)
        exact hloop.state_deactivate hc hph (hne (by simp [hk])) h₂
      all_goals exact hw.state_deactivate hc hph (hne (by simp [hk])) hd

/-- After the exit list, the history has stored what it remembers. -/
lemma exits (hm : c.Pointers m) (hw : c.Recollecting p h t m w)
    (hcur : ∀ x, w.data.current x = m.current x)
    (hd : Returns ((c.deactivates t).forM (c.methods k).deactivate) w u w') :
    c.Recollecting p h t m w' := by
  have hpair := pairwise_deactivates (c := c) t
  refine (forM_induction (fun done w => c.Recollecting p h t m w ∧ (∀ a ∈ done, c.Spent a w)
    ∧ ∀ x, w.data.current x = m.current x ∨ ∃ a ∈ done, c.Below x a)
    (fun done s rest hl w w' ⟨hw, hspent, hcur⟩ hd => ?_) hd
    ⟨hw, by simp, fun x => Or.inl (hcur x)⟩).1
  rw [hl] at hpair
  obtain ⟨-, hrest, hdone⟩ := List.pairwise_append.mp hpair
  have hbefore : ∀ {a}, a ∈ c.deactivates t → c.Below a s → a ≠ s → a ∈ done := by
    intro a ha has hne
    rw [hl] at ha
    refine (List.mem_append.mp ha).resolve_right fun ha => ?_
    have ha := (List.mem_cons.mp ha).resolve_left hne
    exact hne (Forest.below_antisymm has ((List.pairwise_cons.mp hrest).1 a ha).1)
  have htidy : c.Tidy t m s w := by
    refine ⟨⟨s, hl ▸ by simp, Forest.below_refl _⟩,
      fun ha has hne => hspent _ (hbefore ha has hne), fun {x} _ => (hcur x).imp id ?_⟩
    rintro ⟨a, ha, hxa⟩
    exact ⟨a, hl ▸ List.mem_append_left _ ha, hxa, (hdone a ha s List.mem_cons_self).1, hspent a ha⟩
  obtain ⟨hrec, hs⟩ := deactivate_recedes hc k s w w' hw.pointers hd
  refine ⟨hw.deactivate hc hph hm k s w w' htidy hd, fun a ha => ?_, fun x => ?_⟩
  · rcases List.mem_append.mp ha with ha | ha
    · exact (hspent a ha).of_recedes hrec
    · exact List.mem_singleton.mp ha ▸ hs
  · by_cases hx : c.Below x s
    · exact Or.inr ⟨s, by simp, hx⟩
    · rw [(hrec.frame hx).2]
      exact (hcur x).imp id fun ⟨a, ha, hxa⟩ => ⟨a, List.mem_append_left _ ha, hxa⟩

end Chart.Recollecting

end CppStatecharts
