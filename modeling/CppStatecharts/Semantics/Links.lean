import CppStatecharts.Semantics.Pointers

/-!
What a history has stored.

* `Chart.HistoryChain`: a list that a history may store, the way down from its context through
  hierarchical states.
* `calculateHistoryChain_eq`: `calculateHistoryChain` produces such lists, and always ends
  (`exists_calculateHistoryChain`), as long as current states are children.
* `Chart.Links`: current states are children, and every history has stored such a list.
* `compatible_links`: no method breaks this, for clients whose actions leave the metadata alone.
-/

namespace CppStatecharts

variable {S T E P : Type} [DecidableEq S] {c : Chart S T E P}
variable {m : Metadata S} {w w' : World S T E P} {s x p q h : S} {l : List S}
variable {type : PseudoStateType}

omit [DecidableEq S] in
lemma depth_le_maxDepth (hp : c.context s = some p) : c.depth s ≤ c.maxDepth := by
  have hs := (c.mem_ownedStates s).mpr (Chart.ne_root_of_context hp)
  unfold Chart.maxDepth
  generalize c.ownedStates = l at hs
  induction l with
  | nil => cases hs
  | cons a l ih =>
      rw [List.map_cons, List.foldr_cons]
      rcases List.mem_cons.mp hs with rfl | hs
      · exact le_max_left _ _
      · exact (ih hs).trans (le_max_right _ _)

/-! ### The chain a history stores -/

/-- A list that the history `h` of `p` may store: the way down from `p` through hierarchical states
to some state, past a child of `p` other than `h`; for a shallow history it stops at this child. -/
structure Chart.HistoryChain (c : Chart S T E P) (h p : S) (l : List S) : Prop where
  descends : ∃ x, c.forest.Descends p l x
  inner : ∀ q ∈ l.dropLast, c.kind q = .hierarchicalState
  head : l.head? ≠ some h
  shallow : c.kind h = .pseudoState .history → l.length ≤ 1

omit [DecidableEq S] in
lemma Chart.HistoryChain.nil : c.HistoryChain h p [] :=
  ⟨⟨p, rfl⟩, by simp, by simp, by simp⟩

omit [DecidableEq S] in
/-- The stored states lie strictly inside the context of the history, outside the history itself. -/
lemma Chart.HistoryChain.below (hl : c.HistoryChain h p l) (hh : c.context h = some p) :
    ∀ q ∈ l, c.Below q p ∧ q ≠ p ∧ q ≠ h := by
  obtain ⟨x, hx⟩ := hl.descends
  cases l with
  | nil => simp
  | cons a l =>
      intro q hq
      have hqa := (Forest.Descends.below_head hx q hq).1
      have hap : c.forest.parent a = some p := hx.1
      refine ⟨Forest.below_trans hqa (Forest.below_of_parent hap), ?_, ?_⟩
      · rintro rfl
        exact Forest.not_below_of_parent hap hqa
      · rintro rfl
        refine hl.head ?_
        rw [List.head?_cons, Forest.eq_of_below_children hap hh hqa (Forest.below_refl _)]

omit [DecidableEq S] in
lemma calculateHistoryChain_eq (hm : c.Pointers m) {n : ℕ} {cur : Option S}
    (hcur : ∀ q, cur = some q → c.context q = some p)
    (hl : c.calculateHistoryChain m type n cur = some l) :
    (∃ x, c.forest.Descends p l x) ∧ (∀ q ∈ l.dropLast, c.kind q = .hierarchicalState)
      ∧ l.head? = cur ∧ (type = .history → l.length ≤ 1) := by
  induction n generalizing cur p l with
  | zero =>
      cases cur with
      | none => obtain rfl := Option.some.inj hl; exact ⟨⟨p, rfl⟩, by simp, rfl, by simp⟩
      | some q => cases hl
  | succ n ih =>
      cases cur with
      | none => obtain rfl := Option.some.inj hl; exact ⟨⟨p, rfl⟩, by simp, rfl, by simp⟩
      | some q =>
          have hq := hcur q rfl
          have hone : (∃ x, c.forest.Descends p [q] x)
              ∧ (∀ r ∈ [q].dropLast, c.kind r = .hierarchicalState)
              ∧ [q].head? = some q ∧ (type = .history → [q].length ≤ 1) :=
            ⟨⟨q, hq, rfl⟩, by simp, rfl, by simp⟩
          unfold Chart.calculateHistoryChain at hl
          split at hl
          · obtain rfl := Option.some.inj hl; exact hone
          · rename_i htype
            split at hl
            · rename_i hk
              obtain ⟨l', hl', rfl⟩ := Option.map_eq_some_iff.mp hl
              obtain ⟨⟨x, hx⟩, hin, -⟩ := ih (fun r hr => hm q r hr) hl'
              refine ⟨⟨x, hq, hx⟩, fun r hr => ?_, rfl, fun ht => absurd ht htype⟩
              cases l' with
              | nil => simp at hr
              | cons a l' =>
                  rw [List.dropLast_cons_cons] at hr
                  rcases List.mem_cons.mp hr with rfl | hr
                  · exact hk
                  · exact hin r hr
            · obtain rfl := Option.some.inj hl; exact hone

omit [DecidableEq S] in
/-- The chain below a child is found before the tree ends. -/
lemma exists_calculateHistoryChain (hm : c.Pointers m) {n : ℕ} {cur : Option S}
    (hcur : ∀ q, cur = some q → c.context q = some p) (hn : c.maxDepth < n + c.depth p) :
    ∃ l, c.calculateHistoryChain m type n cur = some l := by
  induction n generalizing cur p with
  | zero =>
      cases cur with
      | none => exact ⟨[], rfl⟩
      | some q =>
          have h₁ := depth_le_maxDepth (hcur q rfl)
          have h₂ := c.depth_context (hcur q rfl)
          omega
  | succ n ih =>
      cases cur with
      | none => exact ⟨[], rfl⟩
      | some q =>
          have hd := c.depth_context (hcur q rfl)
          obtain ⟨l, hl⟩ := ih (fun r hr => hm q r hr) (by omega)
          unfold Chart.calculateHistoryChain
          split
          · exact ⟨_, rfl⟩
          · split
            · exact ⟨_, by rw [hl]; rfl⟩
            · exact ⟨_, rfl⟩

/-! ### The invariant -/

/-- Current states are children, and every history has stored a chain. -/
structure Chart.Links (c : Chart S T E P) (m : Metadata S) : Prop where
  pointers : c.Pointers m
  histories : ∀ h p, (c.kind h).isHistory = true → c.context h = some p →
    c.HistoryChain h p (m.stateset h)

omit [DecidableEq S] in
lemma Chart.Links.of_stateset (hw : c.Links w.data) (hp : c.Pointers w'.data)
    (hs : ∀ h, (c.kind h).isHistory = true → w'.data.stateset h = w.data.stateset h) :
    c.Links w'.data :=
  ⟨hp, fun h p hk hc => by rw [hs h hk]; exact hw.histories h p hk hc⟩

lemma Chart.Links.storeHistory (hw : c.Links w.data) (hs : c.history s = some h)
    (hst : HierarchicalState.storesHistory c s h (w.data.current s) = true)
    (hr : Returns (c.storeHistory h) w ⟨⟩ w') : c.Links w'.data := by
  have hp : c.Pointers w'.data := hw.pointers.of_current fun x q hq =>
    (current_storeHistory hr).symm.trans hq
  refine ⟨hp, fun h' p' hk' hc' => ?_⟩
  by_cases hh : h' = h
  · subst hh
    rcases Chart.returns_storeHistory hr with rfl | ⟨p, type, chain, hc, hk, hd, hl, rfl⟩
    · exact hw.histories h' p' hk' hc'
    obtain rfl : p = p' := Option.some.inj (hc.symm.trans hc')
    obtain rfl : s = p := Option.some.inj ((Chart.history_eq_some_iff.mp hs).2.symm.trans hc)
    have hstored :
      (w.onData fun m => m.modify h' fun d => { d with stateset := chain }).data.stateset
        h' = chain := by
      refine Metadata.stateset_modify.trans ?_
      obtain ⟨d, hd⟩ := Option.isSome_iff_exists.mp hd
      simp [hd]
    rw [hstored]
    obtain ⟨hdesc, hin, hhead, hsh⟩ := calculateHistoryChain_eq hw.pointers
      (fun q hq => hw.pointers s q hq) hl
    refine ⟨hdesc, hin, fun heq => ?_, fun ht => hsh ?_⟩
    · rw [hhead] at heq
      simp [HierarchicalState.storesHistory, heq] at hst
    · rw [hk] at ht
      exact StateKind.pseudoState.inj ht
  · rw [stateset_storeHistory hr hh]
    exact hw.histories h' p' hk' hc'

/-- No method breaks the links. -/
lemma compatible_links (hc : c.ActionsKeepData) :
    Compatible c Set.univ fun w w' => c.Links w.data → c.Links w'.data where
  null := trivial
  refl _ := id
  trans h h' := h' ∘ h
  fire _ _ _ _ _ := id
  fired _ _ _ := id
  fallThrough _ _ _ _ := id
  bracket _ _ _ h := h
  effect _ _ := by rw [hc.data_effect]; exact id
  entry _ _ := by rw [hc.data_entry]; exact id
  doing _ _ := by rw [hc.data_doing]; exact id
  exit _ _ := by rw [hc.data_exit]; exact id
  activateData s w hs h := h.of_stateset
    ((compatible_pointers hc).activateData s w hs h.pointers) fun _ _ => Metadata.stateset_activate
  arrive s w hs hi h := h.of_stateset
    ((compatible_pointers hc).arrive s w hs hi h.pointers) fun _ _ => stateset_arrive
  leave s w hi h := h.of_stateset
    ((compatible_pointers hc).leave s w hi h.pointers) fun h' hk => by
      rw [stateset_leave, if_neg]
      rintro ⟨rfl, hk'⟩
      rw [hk] at hk'
      cases hk'
  registerRegion n r w hn h := h.of_stateset
    ((compatible_pointers hc).registerRegion n r w hn h.pointers) fun h' hk => by
      rw [stateset_registerRegion, if_neg]
      rintro ⟨rfl, -⟩
      rw [hn] at hk
      cases hk
  clearStateset n w hn h := h.of_stateset
    ((compatible_pointers hc).clearStateset n w hn h.pointers) fun h' hk => by
      rw [stateset_clearStateset, if_neg]
      rintro rfl
      rw [hn] at hk
      cases hk
  clearCurrent s w hs h := h.of_stateset
    ((compatible_pointers hc).clearCurrent s w hs h.pointers) fun _ _ => stateset_clearCurrent
  storeHistory _ _ _ _ hs hst hr h := h.storeHistory hs hst hr

omit [DecidableEq S] in
lemma links_reset : c.Links (Metadata.reset : Metadata S) := by
  refine ⟨?_, fun _ _ _ _ => Chart.HistoryChain.nil⟩
  intro p q hq
  cases hq

lemma Statechart.links_enter (w : World S T E P) : c.Links (Statechart.enter c w).data := by
  have h₀ : c.Links ((w.onData fun _ => .reset).log .reset).data := links_reset
  refine h₀.of_stateset (pointers_enter w) fun h _ => ?_
  unfold Statechart.enter
  split <;> simp

lemma Statechart.Reachable.links (hc : c.ActionsKeepData) (h : Statechart.Reachable c w) :
    c.Links w.data := by
  obtain ⟨p, l, n, hn⟩ := h
  exact (compatible_links hc).calls (fun _ _ => id) (fun w _ => links_enter w) n l _ _ _ hn
    links_reset

end CppStatecharts
