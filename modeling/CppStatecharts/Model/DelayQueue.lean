import Mathlib.Tactic

/-!
`DelayQueue.hpp`: the time-ordered queue, as a sequential object. The blocking `take` is the step
`take now`, which answers `none` as long as the source would keep waiting.
-/

namespace CppStatecharts

/-- `m_items`, ordered by deadline, and `m_stop`. -/
structure DelayQueue (α : Type) where
  items : List α := []
  stopped : Bool := false

namespace DelayQueue

variable {α : Type} (deadline : α → ℤ)

/-- Inserts before the first element whose deadline is not smaller (`std::lower_bound`). -/
def add (q : DelayQueue α) (x : α) : DelayQueue α :=
  { q with items := q.items.takeWhile (deadline · < deadline x)
      ++ x :: q.items.dropWhile (deadline · < deadline x) }

/-- Removes the first element equal to the argument, equality being the test `same`. -/
def remove (q : DelayQueue α) (same : α → Bool) : DelayQueue α :=
  { q with items := q.items.eraseP same }

def clear (q : DelayQueue α) : DelayQueue α := { q with items := [] }

def stop (q : DelayQueue α) : DelayQueue α := { q with stopped := true }

def resume (q : DelayQueue α) : DelayQueue α := { q with stopped := false }

/-- One look of `take` at the queue at time `now`: `none` when it keeps waiting, otherwise what it
returns, a null result standing for a stopped queue. -/
def take (now : ℤ) (q : DelayQueue α) : Option (Option α × DelayQueue α) :=
  if q.stopped then some (none, q)
  else match q.items with
    | [] => none
    | x :: rest => if deadline x ≤ now then some (some x, { q with items := rest }) else none

variable {deadline}

/-- A new element is put between the others, which keep their order. -/
lemma exists_items_add (deadline : α → ℤ) (q : DelayQueue α) (x : α) :
    ∃ l₁ l₂, q.items = l₁ ++ l₂ ∧ (q.add deadline x).items = l₁ ++ x :: l₂ :=
  ⟨_, _, (List.takeWhile_append_dropWhile ..).symm, rfl⟩

lemma perm_add (q : DelayQueue α) (x : α) : (q.add deadline x).items.Perm (x :: q.items) := by
  obtain ⟨l₁, l₂, hl, hadd⟩ := exists_items_add deadline q x
  rw [hl, hadd]
  exact List.perm_middle

lemma mem_add {q : DelayQueue α} {x y : α} :
    y ∈ (q.add deadline x).items ↔ y = x ∨ y ∈ q.items :=
  (perm_add q x).mem_iff.trans List.mem_cons

/-- The queue is ordered by deadline. -/
def Ordered (deadline : α → ℤ) (q : DelayQueue α) : Prop :=
  q.items.Pairwise fun x y => deadline x ≤ deadline y

lemma takeWhile_eq_filter {l : List α} (h : l.Pairwise fun x y => deadline x ≤ deadline y) (t : ℤ) :
    l.takeWhile (deadline · < t) = l.filter (deadline · < t)
      ∧ l.dropWhile (deadline · < t) = l.filter (t ≤ deadline ·) := by
  induction l with
  | nil => exact ⟨rfl, rfl⟩
  | cons x l ih =>
      obtain ⟨hx, hl⟩ := List.pairwise_cons.mp h
      obtain ⟨h₁, h₂⟩ := ih hl
      by_cases hxt : deadline x < t
      · simp [hxt, h₁, h₂, not_le.mpr hxt]
      · have hxt' : t ≤ deadline x := not_lt.mp hxt
        have hall : ∀ y ∈ l, t ≤ deadline y := fun y hy => hxt'.trans (hx y hy)
        simp only [List.takeWhile_cons, hxt, decide_false, Bool.false_eq_true, ↓reduceIte,
          List.dropWhile_cons, List.filter_cons, hxt', decide_true]
        refine ⟨?_, ?_⟩
        · exact (List.filter_eq_nil_iff.mpr fun y hy => by simpa using hall y hy).symm
        · rw [List.filter_eq_self.mpr fun y hy => by simpa using hall y hy]

/-- In an ordered queue, an element goes behind what is due before it. -/
lemma Ordered.items_add {q : DelayQueue α} (h : q.Ordered deadline) (x : α) :
    (q.add deadline x).items = q.items.filter (deadline · < deadline x)
      ++ x :: q.items.filter (deadline x ≤ deadline ·) := by
  obtain ⟨h₁, h₂⟩ := takeWhile_eq_filter h (deadline x)
  rw [add, h₁, h₂]

lemma Ordered.add {q : DelayQueue α} (h : q.Ordered deadline) (x : α) :
    (q.add deadline x).Ordered deadline := by
  unfold Ordered
  rw [h.items_add]
  refine List.pairwise_append.mpr ⟨h.sublist List.filter_sublist, List.pairwise_cons.mpr
    ⟨fun y hy => by simpa using (List.mem_filter.mp hy).2, h.sublist List.filter_sublist⟩, ?_⟩
  intro y hy z hz
  have hyx : deadline y < deadline x := by simpa using (List.mem_filter.mp hy).2
  rcases List.mem_cons.mp hz with rfl | hz
  · exact hyx.le
  · have hxz : deadline x ≤ deadline z := by simpa using (List.mem_filter.mp hz).2
    exact hyx.le.trans hxz

lemma Ordered.remove {q : DelayQueue α} (h : q.Ordered deadline) (same : α → Bool) :
    (q.remove same).Ordered deadline := h.sublist List.eraseP_sublist

lemma mem_of_mem_remove {q : DelayQueue α} {same : α → Bool} {y : α}
    (h : y ∈ (q.remove same).items) : y ∈ q.items :=
  List.mem_of_mem_eraseP h

/-- What `take` returns was the first of the queue, and its deadline has passed. -/
lemma items_of_take {q q' : DelayQueue α} {now : ℤ} {x : α}
    (h : q.take deadline now = some (some x, q')) :
    q.items = x :: q'.items ∧ deadline x ≤ now := by
  unfold take at h
  split at h
  · simp at h
  · split at h
    · cases h
    · rename_i x' rest hitems
      split at h
      · obtain ⟨h₁, rfl⟩ := Prod.mk.inj (Option.some.inj h)
        obtain rfl := Option.some.inj h₁
        exact ⟨hitems, ‹_›⟩
      · cases h

/-- What `take` returns was in the queue, and its deadline has passed. -/
lemma of_take {q q' : DelayQueue α} {now : ℤ} {x : α}
    (h : q.take deadline now = some (some x, q')) :
    x ∈ q.items ∧ deadline x ≤ now ∧ ∀ y ∈ q'.items, y ∈ q.items := by
  obtain ⟨hitems, hdl⟩ := items_of_take h
  exact ⟨by simp [hitems], hdl, fun y hy => by simp [hitems, hy]⟩

end DelayQueue

end CppStatecharts
