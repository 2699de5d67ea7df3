import Mathlib.Tactic

/-!
A line of people who are served one after the other.

* `Renews`: how a line changes when members leave it and newcomers enter it, at any place; those who
  stay keep their order (`Renews.precedes`).
* `Line`: who was served and who waits, each with a number of their own, nobody before they are due.
* `Line.Step`: the first one is served, or the line is renewed; `Line.Advances` is what any number
  of such steps does (`Line.advances_of_steps`).
* `Line.filter_served`: nobody is served twice; `Line.Advances.precedes`: nobody is overtaken.
-/

namespace CppStatecharts

variable {α τ : Type} {number : α → ℕ} {n n' : ℕ} {l l' l'' : List α} {x y : α}

/-! ### Lines that change -/

/-- Those of the line `l'` with a number less than `n` stood in the line `l`, in the same order. -/
def Renews (number : α → ℕ) (n : ℕ) (l l' : List α) : Prop :=
  (l'.filter fun x => decide (number x < n)).Sublist l

namespace Renews

lemma of_sublist (h : l'.Sublist l) : Renews number n l l' := List.filter_sublist.trans h

lemma mem (h : Renews number n l l') (hx : x ∈ l') (hn : number x < n) : x ∈ l :=
  h.subset (List.mem_filter.mpr ⟨hx, by simpa using hn⟩)

lemma trans (h : Renews number n l l') (hn : n ≤ n') (h' : Renews number n' l' l'') :
    Renews number n l l'' := by
  have hfilter : (l''.filter fun x => decide (number x < n))
      = (l''.filter fun x => decide (number x < n')).filter fun x => decide (number x < n) := by
    rw [List.filter_filter]
    refine List.filter_congr fun x _ => ?_
    rw [← Bool.decide_and, decide_eq_decide]
    omega
  have h₁ := h'.filter fun x => decide (number x < n)
  rw [← hfilter] at h₁
  exact h₁.trans h

/-- A newcomer enters. -/
lemma insert (hx : n ≤ number x) (l l' : List α) : Renews number n (l ++ l') (l ++ x :: l') := by
  rw [Renews, List.filter_append, List.filter_cons_of_neg (by simpa using hx), ← List.filter_append]
  exact List.filter_sublist

lemma append (h : Renews number n l l') (k : List α) : Renews number n (k ++ l) (k ++ l') := by
  rw [Renews, List.filter_append]
  exact List.filter_sublist.append h

end Renews

/-- A part of a line without repetitions has the same order. -/
lemma pair_sublist_of_sublist {k : List α} (h : k.Sublist l) (hnd : l.Nodup) (hx : x ∈ k)
    (hy : y ∈ k) (hxy : [x, y].Sublist l) : [x, y].Sublist k := by
  induction h with
  | slnil => cases hx
  | cons a h ih =>
      obtain ⟨ha, hnd⟩ := List.nodup_cons.mp hnd
      have hxa : x ≠ a := fun hxa => ha (hxa ▸ h.subset hx)
      cases hxy with
      | cons _ hxy => exact ih hnd hx hy hxy
      | cons_cons => exact absurd rfl hxa
  | cons_cons a h ih =>
      obtain ⟨ha, hnd⟩ := List.nodup_cons.mp hnd
      have hya : y ≠ a := by
        rintro rfl
        cases hxy with
        | cons _ hxy => exact ha (hxy.subset (by simp))
        | cons_cons _ hxy => exact ha (hxy.subset (by simp))
      have hy' := (List.mem_cons.mp hy).resolve_left hya
      cases hxy with
      | cons _ hxy =>
          have hxa : x ≠ a := fun hxa => ha (hxa ▸ hxy.subset (by simp))
          exact (ih hnd ((List.mem_cons.mp hx).resolve_left hxa) hy' hxy).cons a
      | cons_cons => exact (List.singleton_sublist.mpr hy').cons_cons _

/-- Those who stay keep their order. -/
lemma Renews.precedes (h : Renews number n l l') (hnd : l.Nodup) (hx : x ∈ l') (hy : y ∈ l')
    (hnx : number x < n) (hny : number y < n) (hxy : [x, y].Sublist l) : [x, y].Sublist l' :=
  (pair_sublist_of_sublist h hnd (List.mem_filter.mpr ⟨hx, by simpa using hnx⟩)
    (List.mem_filter.mpr ⟨hy, by simpa using hny⟩) hxy).trans List.filter_sublist

/-! ### The service -/

/-- Who was served, oldest first and with the time, and who waits. All have different numbers, less
than `next`; nobody was served before they were due. -/
structure Line (number : α → ℕ) (due : α → τ) [Preorder τ] where
  next : ℕ
  now : τ
  served : List (α × τ) := []
  waiting : List α := []
  nodup : ((served.map Prod.fst ++ waiting).map number).Nodup
  used : ∀ x ∈ served.map Prod.fst ++ waiting, number x < next
  due_le : ∀ p ∈ served, due p.1 ≤ p.2
  le_now : ∀ p ∈ served, p.2 ≤ now
  sorted : served.Pairwise fun p q => p.2 ≤ q.2

namespace Line

variable [Preorder τ] {due : α → τ}

/-- All who ever stood in the line and were not turned away. -/
def history (L : Line number due) : List α := L.served.map Prod.fst ++ L.waiting

/-- The first one is served. -/
def serve (L : Line number due) (h : L.waiting = x :: l) (hdue : due x ≤ L.now) :
    Line number due where
  next := L.next
  now := L.now
  served := L.served ++ [(x, L.now)]
  waiting := l
  nodup := by simpa [h] using L.nodup
  used := by simpa [h] using L.used
  due_le p hp := by
    rcases List.mem_append.mp hp with hp | hp
    · exact L.due_le p hp
    · rw [List.mem_singleton.mp hp]
      exact hdue
  le_now p hp := by
    rcases List.mem_append.mp hp with hp | hp
    · exact L.le_now p hp
    · rw [List.mem_singleton.mp hp]
  sorted := List.pairwise_append.mpr ⟨L.sorted, List.pairwise_singleton _ _, fun p hp q hq => by
    rw [List.mem_singleton.mp hq]
    exact L.le_now p hp⟩

/-- Members leave, newcomers enter, time passes. -/
def renew (L : Line number due) {t : τ} (hn : L.next ≤ n) (ht : L.now ≤ t)
    (hl : Renews number L.next L.waiting l) (hnd : (l.map number).Nodup)
    (hused : ∀ x ∈ l, number x < n) : Line number due where
  next := n
  now := t
  served := L.served
  waiting := l
  nodup := by
    have hnodup := L.nodup
    rw [List.map_append, List.nodup_append] at hnodup ⊢
    refine ⟨hnodup.1, hnd, fun i hi j hj hij => ?_⟩
    obtain ⟨x, hx, rfl⟩ := List.mem_map.mp hj
    obtain ⟨y, hy, hyx⟩ := List.mem_map.mp hi
    have hlt : number x < L.next := by
      have := L.used y (List.mem_append_left _ hy)
      omega
    exact hnodup.2.2 i hi _ (List.mem_map_of_mem (hl.mem hx hlt)) hij
  used x hx := by
    rcases List.mem_append.mp hx with hx | hx
    · exact (L.used x (List.mem_append_left _ hx)).trans_le hn
    · exact hused x hx
  due_le := L.due_le
  le_now p hp := (L.le_now p hp).trans ht
  sorted := L.sorted

/-- A step of the service. -/
inductive Step : Line number due → Line number due → Prop
  | serve (L) {x l} (h : L.waiting = x :: l) (hdue : due x ≤ L.now) : Step L (L.serve h hdue)
  | renew (L) {n t l} (hn : L.next ≤ n) (ht : L.now ≤ t) (hl : Renews number L.next L.waiting l)
      (hnd : (l.map number).Nodup) (hused : ∀ x ∈ l, number x < n) :
      Step L (L.renew hn ht hl hnd hused)

/-- The line has moved on: more were served, the others have kept their order. -/
structure Advances (L L' : Line number due) : Prop where
  next : L.next ≤ L'.next
  now : L.now ≤ L'.now
  served : L.served <+: L'.served
  since : ∀ p ∈ L'.served, p ∈ L.served ∨ L.now ≤ p.2
  history : Renews number L.next L.history L'.history

variable {L L₁ L' : Line number due} {t t' : τ}

lemma Advances.refl (L : Line number due) : L.Advances L :=
  ⟨le_rfl, le_rfl, List.prefix_rfl, fun _ => Or.inl, .of_sublist (List.Sublist.refl _)⟩

lemma Advances.trans (h : L.Advances L₁) (h' : L₁.Advances L') : L.Advances L' :=
  ⟨h.next.trans h'.next, h.now.trans h'.now, h.served.trans h'.served, fun p hp =>
    (h'.since p hp).elim (h.since p) fun hle => Or.inr (h.now.trans hle),
    h.history.trans h.next h'.history⟩

lemma Step.advances (h : Step L L') : L.Advances L' := by
  cases h with
  | serve h hdue =>
      refine ⟨le_rfl, le_rfl, List.prefix_append _ _, fun p hp => ?_, .of_sublist ?_⟩
      · rcases List.mem_append.mp hp with hp | hp
        · exact Or.inl hp
        · rw [List.mem_singleton.mp hp]
          exact Or.inr le_rfl
      · simp [Line.history, Line.serve, h]
  | renew hn ht hl hnd hused =>
      exact ⟨hn, ht, List.prefix_rfl, fun _ => Or.inl, hl.append _⟩

/-- **What a run does.** -/
lemma advances_of_steps (h : Relation.ReflTransGen Step L L') : L.Advances L' := by
  induction h with
  | refl => exact Advances.refl L
  | tail _ hs ih => exact ih.trans hs.advances

lemma nodup_history (L : Line number due) : L.history.Nodup := L.nodup.of_map

/-- A number belongs to one member only. -/
lemma eq_of_number (L : Line number due) (hx : x ∈ L.history) (hy : y ∈ L.history)
    (h : number x = number y) : x = y := List.inj_on_of_nodup_map L.nodup hx hy h

lemma mem_history_of_served (h : (x, t) ∈ L.served) : x ∈ L.history :=
  List.mem_append_left _ (List.mem_map_of_mem h)

/-- Who was served does not wait. -/
lemma notMem_waiting (h : (x, t) ∈ L.served) : x ∉ L.waiting := fun hx => by
  have hnd := L.nodup_history
  rw [history, List.nodup_append] at hnd
  exact hnd.2.2 x (List.mem_map_of_mem h) x hx rfl

lemma nodup_served (L : Line number due) : L.served.Nodup :=
  (List.nodup_append.mp L.nodup_history).1.of_map

/-- **Nobody is served twice.** -/
lemma filter_served (h : (x, t) ∈ L.served) :
    (L.served.filter fun p => decide (number p.1 = number x)) = [(x, t)] := by
  refine List.perm_singleton.mp ((List.perm_ext_iff_of_nodup (L.nodup_served.filter _)
    (List.nodup_singleton _)).mpr fun p => ?_)
  rw [List.mem_filter, decide_eq_true_eq, List.mem_singleton]
  constructor
  · rintro ⟨hp, hn⟩
    have hfst : p.1 = x := L.eq_of_number (mem_history_of_served hp) (mem_history_of_served h) hn
    have hmap : (L.served.map Prod.fst).Nodup := (List.nodup_append.mp L.nodup_history).1
    exact List.inj_on_of_nodup_map hmap hp h hfst
  · rintro rfl
    exact ⟨h, rfl⟩

/-- What stood in the line once keeps its name. -/
lemma Advances.eq_of_number (h : L.Advances L') (hx : x ∈ L.history) (hy : y ∈ L'.history)
    (hn : number y = number x) : y = x :=
  L.eq_of_number (h.history.mem hy (hn ▸ L.used x hx)) hx hn

/-- **Nobody is overtaken.** When someone was served, those who stood before them do not wait any
more, and were served before if at all. -/
lemma Advances.precedes (h : L.Advances L') (hxy : [x, y].Sublist L.waiting)
    (hy : (y, t') ∈ L'.served) : x ∉ L'.waiting
      ∧ ∀ t, (x, t) ∈ L'.served → t ≤ t' ∧ [(x, t), (y, t')].Sublist L'.served := by
  have hxy' : [x, y].Sublist L.history := hxy.trans (List.sublist_append_right _ _)
  have hnx : number x < L.next := L.used x (hxy'.subset (by simp))
  have hny : number y < L.next := L.used y (hxy'.subset (by simp))
  have hkeep : x ∈ L'.history → [x, y].Sublist L'.history := fun hx =>
    h.history.precedes L.nodup_history hx (mem_history_of_served hy) hnx hny hxy'
  -- a pair of the history whose second member was served consists of served ones
  have hserved : x ∈ L'.history → [x, y].Sublist (L'.served.map Prod.fst) := fun hx => by
    obtain ⟨k₁, k₂, heq, h₁, h₂⟩ := List.sublist_append_iff.mp (hkeep hx)
    have hk₂ : k₂ = [] := by
      refine List.eq_nil_iff_forall_not_mem.mpr fun z hz => ?_
      have hlast : y ∈ k₂ := by
        have : ([x, y] : List α).getLast? = k₂.getLast? := by
          rw [heq, List.getLast?_append_of_ne_nil]
          exact List.ne_nil_of_mem hz
        exact List.mem_of_getLast? (this.symm.trans rfl)
      exact notMem_waiting hy (h₂.subset hlast)
    rw [hk₂, List.append_nil] at heq
    exact heq ▸ h₁
  refine ⟨fun hx => ?_, fun t ht => ?_⟩
  · have hmem := (hserved (List.mem_append_right _ hx)).subset List.mem_cons_self
    obtain ⟨p, hp, rfl⟩ := List.mem_map.mp hmem
    exact notMem_waiting hp hx
  · obtain ⟨k, hk, hmap⟩ := List.sublist_map_iff.mp (hserved (mem_history_of_served ht))
    have hpair : k = [(x, t), (y, t')] := by
      have hfst : (L'.served.map Prod.fst).Nodup := (List.nodup_append.mp L'.nodup_history).1
      match k, hmap with
      | [p, q], hmap =>
          obtain ⟨hpx, hqy⟩ : x = p.1 ∧ y = q.1 := by simpa using hmap
          have hp := List.inj_on_of_nodup_map hfst (hk.subset (by simp)) ht hpx.symm
          have hq := List.inj_on_of_nodup_map hfst (hk.subset (by simp)) hy hqy.symm
          rw [hp, hq]
    rw [hpair] at hk
    exact ⟨List.rel_of_pairwise_cons (L'.sorted.sublist hk) List.mem_cons_self, hk⟩

end Line

end CppStatecharts
