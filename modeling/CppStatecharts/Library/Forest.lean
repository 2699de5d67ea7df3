import Mathlib.Logic.Relation
import Mathlib.Tactic

/-!
Forests given by parent pointers.

* `Forest α`: a parent map together with a depth that drops along it, so that every walk up ends;
  `Forest.Below x s` says that `x` is `s` or a descendant of `s`, a decidable partial order
  (`below_antisymm`) in which the elements above a given one are comparable (`below_total`).
* `Forest.Descends p l x`: the list `l` is the way down from `p`, excluded, to `x`, included;
  `descends_append` cuts it, `Descends.below_head` places its members, and there is just one
  (`exists_descends`, `Descends.unique`); `Descends.mem_iff` and `Descends.pairwise` say which
  elements it leads through, and in which order, and `Descends.upFrom_eq` walks it back up.
* `commonPrefix`: the length of the longest common prefix of two lists. Two ways down from one
  vertex to incomparable vertices part at two distinct children of one vertex
  (`Descends.branch`).
-/

namespace CppStatecharts

/-- A forest on `α` given by parent pointers; the depth witnesses that walking up ends. -/
structure Forest (α : Type) where
  parent : α → Option α
  depth : α → ℕ
  depth_parent : ∀ {x p}, parent x = some p → depth p < depth x

namespace Forest

variable {α : Type} (F : Forest α)

/-- `x` is `s` or a descendant of `s`. -/
def Below (x s : α) : Prop := Relation.ReflTransGen (fun a b => F.parent a = some b) x s

variable {F} {x y s s' p q : α}

@[simp] lemma below_refl (x : α) : F.Below x x := Relation.ReflTransGen.refl

lemma below_trans (h : F.Below x y) (h' : F.Below y s) : F.Below x s :=
  Relation.ReflTransGen.trans h h'

lemma below_of_parent (h : F.parent x = some p) : F.Below x p :=
  Relation.ReflTransGen.single h

lemma depth_le_of_below (h : F.Below x s) : F.depth s ≤ F.depth x := by
  induction h with
  | refl => exact le_rfl
  | tail _ h ih => exact (F.depth_parent h).le.trans ih

/-- One step of the walk up: a strict descendant of `s` hangs below `s` through its parent. -/
lemma below_iff : F.Below x s ↔ x = s ∨ ∃ p, F.parent x = some p ∧ F.Below p s :=
  Relation.ReflTransGen.cases_head_iff

lemma below_parent (h : F.Below x s) (hne : x ≠ s) (hp : F.parent x = some p) : F.Below p s := by
  rcases below_iff.mp h with rfl | ⟨p', hp', h'⟩
  · exact absurd rfl hne
  · rw [hp] at hp'
    cases hp'
    exact h'

/-- A strict descendant of `s` lies below a child of `s`. -/
lemma exists_child_of_below (h : F.Below x s) (hne : x ≠ s) :
    ∃ q, F.parent q = some s ∧ F.Below x q := by
  rcases Relation.ReflTransGen.cases_tail h with rfl | ⟨q, hq, hs⟩
  · exact absurd rfl hne
  · exact ⟨q, hs, hq⟩

lemma not_below_of_parent (h : F.parent q = some s) : ¬ F.Below s q := fun hb =>
  absurd (depth_le_of_below hb) (not_le.mpr (F.depth_parent h))

lemma ne_of_parent (h : F.parent q = some s) : q ≠ s := by
  rintro rfl
  exact not_below_of_parent h (below_refl q)

lemma below_antisymm (h : F.Below x s) (h' : F.Below s x) : x = s := by
  by_contra hne
  obtain ⟨q, hq, hx⟩ := exists_child_of_below h hne
  exact not_below_of_parent hq (below_trans h' hx)

/-- The elements above a given one are comparable. -/
lemma below_total (h : F.Below x s) (h' : F.Below x s') : F.Below s s' ∨ F.Below s' s :=
  Relation.ReflTransGen.total_of_right_unique
    (fun _ _ _ h₁ h₂ => Option.some.inj (h₁.symm.trans h₂)) h h'

/-- Distinct children of one vertex have disjoint subtrees. -/
lemma eq_of_below_children (hq : F.parent q = some p) (hs : F.parent s = some p)
    (h : F.Below x q) (h' : F.Below x s) : q = s := by
  rcases below_total h h' with hqs | hsq
  · by_contra hne
    exact not_below_of_parent hs (below_parent hqs hne hq)
  · by_contra hne
    exact not_below_of_parent hq (below_parent hsq (Ne.symm hne) hs)

/-- Two elements above `x`, the second of which is a child of the first's parent or lies higher. -/
lemma below_or_below_of_parent (hq : F.parent q = some p) (h : F.Below x q) (h' : F.Below x s) :
    F.Below s q ∨ F.Below p s := by
  rcases below_total h h' with hqs | hsq
  · by_cases hne : q = s
    · exact Or.inl (hne ▸ below_refl _)
    · exact Or.inr (below_parent hqs hne hq)
  · exact Or.inl hsq

/-! ### Deciding the order -/

/-- The walk up from `x`, cut after `n` steps. -/
def upFrom (F : Forest α) : ℕ → α → List α
  | 0, x => [x]
  | n + 1, x => x :: ((F.parent x).map (F.upFrom n)).getD []

lemma mem_upFrom {n : ℕ} (h : F.depth x ≤ n) : s ∈ F.upFrom n x ↔ F.Below x s := by
  induction n generalizing x with
  | zero =>
      rw [upFrom, List.mem_singleton, below_iff, eq_comm]
      refine (or_iff_left ?_).symm
      rintro ⟨p, hp, -⟩
      exact absurd (F.depth_parent hp) (by omega)
  | succ n ih =>
      rw [upFrom, List.mem_cons, below_iff, eq_comm]
      refine or_congr Iff.rfl ?_
      cases hp : F.parent x with
      | none => simp
      | some p =>
          have hd := F.depth_parent hp
          simp [ih (x := p) (by omega)]

instance [DecidableEq α] (x s : α) : Decidable (F.Below x s) :=
  decidable_of_iff (s ∈ F.upFrom (F.depth x) x) (mem_upFrom le_rfl)

/-! ### Ways down -/

/-- The list `l` is the way down from `p`, excluded, to `x`, included. -/
def Descends (F : Forest α) : α → List α → α → Prop
  | p, [], x => x = p
  | p, q :: l, x => F.parent q = some p ∧ F.Descends q l x

variable {l l' : List α}

lemma Descends.below (h : F.Descends p l x) : F.Below x p := by
  induction l generalizing p with
  | nil => exact h ▸ below_refl _
  | cons q l ih => exact below_trans (ih h.2) (below_of_parent h.1)

/-- Every member of a way down lies between its first member and its end. -/
lemma Descends.below_head (h : F.Descends p (q :: l) x) :
    ∀ y ∈ q :: l, F.Below y q ∧ F.Below x y := by
  induction l generalizing p q with
  | nil =>
      intro y hy
      rw [List.mem_singleton.mp hy, show x = q from h.2]
      exact ⟨below_refl _, below_refl _⟩
  | cons r l ih =>
      intro y hy
      rcases List.mem_cons.mp hy with rfl | hy
      · exact ⟨below_refl _, h.2.below⟩
      · have hr := ih h.2 y hy
        exact ⟨below_trans hr.1 (below_of_parent h.2.1), hr.2⟩

lemma descends_append :
    F.Descends p (l ++ l') x ↔ ∃ q, F.Descends p l q ∧ F.Descends q l' x := by
  induction l generalizing p with
  | nil => simp [Descends]
  | cons r l ih => simp [Descends, ih, and_assoc]

/-- A way down extends by a child of its end. -/
lemma Descends.snoc (h : F.Descends p l s) (hx : F.parent x = some s) :
    F.Descends p (l ++ [x]) x :=
  descends_append.mpr ⟨s, h, hx, rfl⟩

/-- A nonempty way down to `x` ends with `x`. -/
lemma Descends.getLast? (h : F.Descends p (q :: l) x) : (q :: l).getLast? = some x := by
  induction l generalizing p q with
  | nil => rw [show x = q from h.2]; rfl
  | cons r l ih => rw [List.getLast?_cons_cons]; exact ih h.2

/-- There is a way down to every element below. -/
lemma exists_descends (h : F.Below x p) : ∃ l, F.Descends p l x := by
  induction h using Relation.ReflTransGen.head_induction_on with
  | refl => exact ⟨[], rfl⟩
  | head hx _ ih =>
      obtain ⟨l, hl⟩ := ih
      exact ⟨_, hl.snoc hx⟩

/-- There is only one way down. -/
lemma Descends.unique (h : F.Descends p l x) (h' : F.Descends p l' x) : l = l' := by
  induction l using List.reverseRecOn generalizing l' x with
  | nil =>
      cases l' with
      | nil => rfl
      | cons a l' =>
          obtain rfl : x = p := h
          exact absurd h'.2.below (not_below_of_parent h'.1)
  | append_singleton l a ih =>
      obtain ⟨q, hl, hq, rfl⟩ := descends_append.mp h
      cases l' using List.reverseRecOn with
      | nil =>
          obtain rfl : x = p := h'
          exact absurd hl.below (not_below_of_parent hq)
      | append_singleton l' b =>
          obtain ⟨q', hl', hq', rfl⟩ := descends_append.mp h'
          obtain rfl := Option.some.inj (hq.symm.trans hq')
          rw [ih hl hl']

/-- A way down leads through the elements in between. -/
lemma Descends.mem_iff (h : F.Descends p l x) : y ∈ l ↔ F.Below x y ∧ F.Below y p ∧ y ≠ p := by
  induction l generalizing p with
  | nil =>
      obtain rfl : x = p := h
      simp only [List.not_mem_nil, false_iff, not_and, not_not]
      exact fun hxy hyx => below_antisymm hyx hxy
  | cons q l ih =>
      have hqp := not_below_of_parent h.1
      rw [List.mem_cons, ih h.2]
      constructor
      · rintro (rfl | ⟨hxy, hyq, -⟩)
        · exact ⟨h.2.below, below_of_parent h.1, ne_of_parent h.1⟩
        · exact ⟨hxy, below_trans hyq (below_of_parent h.1), fun hyp => hqp (hyp ▸ hyq)⟩
      · rintro ⟨hxy, hyp, hne⟩
        rcases below_or_below_of_parent h.1 h.2.below hxy with hyq | hpy
        · exact (eq_or_ne y q).imp_right fun hyne => ⟨hxy, hyq, hyne⟩
        · exact absurd (below_antisymm hyp hpy) hne

/-- A way down leads down. -/
lemma Descends.pairwise (h : F.Descends p l x) : l.Pairwise fun y z => F.Below z y ∧ z ≠ y := by
  induction l generalizing p with
  | nil => exact List.Pairwise.nil
  | cons q l ih => exact List.pairwise_cons.mpr ⟨fun y hy => (h.2.mem_iff.mp hy).2, ih h.2⟩

/-- The walk up from the end of a way down leads back along it, and on from its beginning. -/
lemma Descends.upFrom_eq (h : F.Descends p l x) {n : ℕ} (hn : F.depth x ≤ n) :
    ∃ k, F.depth p ≤ k ∧ F.upFrom n x = l.reverse ++ F.upFrom k p := by
  induction l using List.reverseRecOn generalizing n x with
  | nil =>
      obtain rfl : x = p := h
      exact ⟨n, hn, rfl⟩
  | append_singleton l a ih =>
      obtain ⟨q, hl, hq, rfl⟩ := descends_append.mp h
      have hd := F.depth_parent hq
      obtain ⟨n, rfl⟩ : ∃ m, n = m + 1 := ⟨n - 1, by omega⟩
      obtain ⟨k, hk, heq⟩ := ih (n := n) hl (by omega)
      refine ⟨k, hk, ?_⟩
      simp [upFrom, hq, heq]

end Forest

/-! ### Common prefixes -/

/-- The length of the longest common prefix of two lists. -/
def commonPrefix {α : Type} [DecidableEq α] : List α → List α → ℕ
  | a :: l, b :: l' => if a = b then commonPrefix l l' + 1 else 0
  | _, _ => 0

lemma commonPrefix_append {α : Type} [DecidableEq α] (l l' : List α) :
    commonPrefix (l ++ l') l = l.length ∧ commonPrefix l (l ++ l') = l.length := by
  induction l with
  | nil => cases l' <;> exact ⟨rfl, rfl⟩
  | cons a l ih => simp [commonPrefix, ih]

namespace Forest

variable {α : Type} [DecidableEq α] {F : Forest α} {r a b : α}

/-- **Parting ways.** The ways down from `r` to two incomparable vertices agree down to a vertex
`m` and continue with distinct children of `m`. -/
lemma Descends.branch {l l' : List α} (ha : F.Descends r l a) (hb : F.Descends r l' b)
    (hab : ¬ F.Below a b) (hba : ¬ F.Below b a) :
    ∃ m d e u v, l.drop (commonPrefix l' l) = d :: u ∧ l'.drop (commonPrefix l' l) = e :: v
      ∧ F.Descends m (d :: u) a ∧ F.Descends m (e :: v) b ∧ d ≠ e := by
  induction l generalizing r l' with
  | nil => exact absurd (show a = r from ha ▸ rfl) fun h => hba (h ▸ hb.below)
  | cons q l ih =>
      cases l' with
      | nil => exact absurd (show b = r from hb ▸ rfl) fun h => hab (h ▸ ha.below)
      | cons q' l' =>
          by_cases hq : q' = q
          · subst hq
            obtain ⟨m, d, e, u, v, h₁, h₂, h⟩ := ih ha.2 hb.2
            exact ⟨m, d, e, u, v, by simpa [commonPrefix] using h₁,
              by simpa [commonPrefix] using h₂, h⟩
          · exact ⟨r, q, q', l, l', by simp [commonPrefix, hq], by simp [commonPrefix, hq],
              ha, hb, Ne.symm hq⟩

end Forest

end CppStatecharts
