import CppStatecharts.Model.DelayQueue

/-!
The delay queue over whole histories of calls.

* `QueueCall`, `DelayQueue.History`: the calls on one queue, against a clock that does not run
  backwards.
* `QueueCall.queued`: the elements that the calls have left in the queue; `DelayQueue.Faithful`: the
  queue is ordered and holds just those (`DelayQueue.History.faithful`).
* `DelayQueue.History.correct`: elements come out in order, once, and none is lost.
* `DelayQueue.History.least_iff`: which elements with equal deadlines come out first.
* `Tie`: a queue with two elements that are due at the same time.
-/

namespace CppStatecharts

/-- The calls on a queue, with the time at which `take` came back and what it returned. -/
inductive QueueCall (α : Type) where
  | add (x : α)
  | remove (x : α)
  | clear
  | take (now : ℤ) (result : Option α)
  | stop
  | resume
  deriving DecidableEq

variable {α : Type} [DecidableEq α] {deadline : α → ℤ} {id : α → ℕ}
variable {l : List (QueueCall α)} {q q' : DelayQueue α} {now now' : ℤ} {x y : α} {r : Option α}

namespace QueueCall

/-- The call is a `take` that returns `x`. -/
def returns (x : α) : QueueCall α → Bool
  | take _ (some y) => decide (y = x)
  | _ => false

/-- After the calls, newest first, `x` is in the queue. -/
def queued (x : α) : List (QueueCall α) → Bool
  | [] => false
  | add y :: l => decide (y = x) || queued x l
  | remove y :: l => !decide (y = x) && queued x l
  | clear :: _ => false
  | take _ (some y) :: l => !decide (y = x) && queued x l
  | take _ none :: l | stop :: l | resume :: l => queued x l

/-- After the calls, newest first, the queue is stopped. -/
def halted : List (QueueCall α) → Bool
  | [] | resume :: _ => false
  | stop :: _ => true
  | add _ :: l | remove _ :: l | clear :: l | take _ _ :: l => halted l

/-- What is in the queue was added, and neither removed nor returned nor cleared since. -/
lemma exists_add_of_queued (h : queued x l = true) : ∃ newer older, l = newer ++ add x :: older
    ∧ remove x ∉ newer ∧ clear ∉ newer ∧ ∀ now, take now (some x) ∉ newer := by
  induction l with
  | nil => cases h
  | cons k l ih =>
      have hcons : queued x l = true → k ≠ remove x → k ≠ clear → (∀ now, k ≠ take now (some x)) →
          ∃ newer older, k :: l = newer ++ add x :: older
            ∧ remove x ∉ newer ∧ clear ∉ newer ∧ ∀ now, take now (some x) ∉ newer := by
        intro hq h₁ h₂ h₃
        obtain ⟨newer, older, rfl, hr, hc, ht⟩ := ih hq
        refine ⟨k :: newer, older, rfl, ?_, ?_, fun now => ?_⟩
        · simp [hr, h₁.symm]
        · simp [hc, h₂.symm]
        · simp [ht, (h₃ now).symm]
      cases k with
      | add y =>
          by_cases hy : y = x
          · exact ⟨[], l, by rw [hy]; rfl, by simp⟩
          · exact hcons (by simpa [queued, hy] using h) (by simp) (by simp) (by simp)
      | remove y =>
          obtain ⟨hy, hq⟩ : y ≠ x ∧ queued x l = true := by simpa [queued] using h
          exact hcons hq (by simpa using hy) (by simp) (by simp)
      | clear => cases h
      | take now r =>
          cases r with
          | none => exact hcons h (by simp) (by simp) (by simp)
          | some y =>
              obtain ⟨hy, hq⟩ : y ≠ x ∧ queued x l = true := by simpa [queued] using h
              exact hcons hq (by simp) (by simp) fun _ hk => hy (by cases hk; rfl)
      | stop => exact hcons h (by simp) (by simp) (by simp)
      | resume => exact hcons h (by simp) (by simp) (by simp)

/-- What was added is in the queue until it is removed, returned or cleared. -/
lemma queued_of_add {newer older : List (QueueCall α)} (hr : remove x ∉ newer) (hc : clear ∉ newer)
    (ht : ∀ now, take now (some x) ∉ newer) : queued x (newer ++ add x :: older) = true := by
  induction newer with
  | nil => simp [queued]
  | cons k newer ih =>
      have hq := ih (fun h => hr (List.mem_cons_of_mem _ h))
        (fun h => hc (List.mem_cons_of_mem _ h))
        fun now h => ht now (List.mem_cons_of_mem _ h)
      cases k with
      | add y => simp [queued, hq]
      | remove y =>
          have hy : y ≠ x := fun h => hr (h ▸ List.mem_cons_self)
          simp [queued, hq, hy]
      | clear => exact absurd List.mem_cons_self hc
      | take now r =>
          cases r with
          | none => exact hq
          | some y =>
              have hy : y ≠ x := fun h => ht now (h ▸ List.mem_cons_self)
              simp [queued, hq, hy]
      | stop => exact hq
      | resume => exact hq

end QueueCall

namespace DelayQueue

/-- The queue, and the time, after calls on a new queue, newest first. No element is added twice; a
`take` that keeps waiting lets time pass. -/
inductive History (deadline : α → ℤ) : List (QueueCall α) → DelayQueue α → ℤ → Prop
  | new (now : ℤ) : History deadline [] {} now
  | wait {l : _} {q : _} {now now' : ℤ} : History deadline l q now → now ≤ now' →
    History deadline l q now'
  | add {l : _} {q : _} {now : ℤ} (x : α) : History deadline l q now → .add x ∉ l →
      History deadline (.add x :: l) (q.add deadline x) now
  | remove {l : _} {q : _} {now : ℤ} (x : α) : History deadline l q now →
      History deadline (.remove x :: l) (q.remove fun y => y = x) now
  | clear {l : _} {q : _} {now : ℤ} : History deadline l q now →
      History deadline (.clear :: l) q.clear now
  | take {l : _} {q q' : _} {now : ℤ} {r : Option α} : History deadline l q now →
      q.take deadline now = some (r, q') → History deadline (.take now r :: l) q' now
  | stop {l : _} {q : _} {now : ℤ} : History deadline l q now →
    History deadline (.stop :: l) q.stop now
  | resume {l : _} {q : _} {now : ℤ} : History deadline l q now →
      History deadline (.resume :: l) q.resume now

/-- The queue is ordered, holds just what the calls have left in it, once, and is stopped when they
say so. -/
structure Faithful (deadline : α → ℤ) (l : List (QueueCall α)) (q : DelayQueue α) : Prop where
  ordered : q.Ordered deadline
  nodup : q.items.Nodup
  mem : ∀ x, x ∈ q.items ↔ QueueCall.queued x l = true
  stopped : q.stopped = QueueCall.halted l

omit [DecidableEq α] in
/-- A `take` that comes back either finds the queue stopped or returns its first element. -/
lemma take_eq_some (h : q.take deadline now = some (r, q')) :
    q.stopped = true ∧ r = none ∧ q' = q
      ∨ q.stopped = false ∧ ∃ x, r = some x ∧ q.items = x :: q'.items ∧ deadline x ≤ now
        ∧ q'.stopped = false := by
  unfold DelayQueue.take at h
  split at h
  · obtain ⟨rfl, rfl⟩ := Prod.mk.inj (Option.some.inj h)
    exact Or.inl ⟨‹_›, rfl, rfl⟩
  · rename_i hrun
    rw [Bool.not_eq_true] at hrun
    split at h
    · cases h
    · rename_i x rest hitems
      split at h
      · obtain ⟨rfl, rfl⟩ := Prod.mk.inj (Option.some.inj h)
        exact Or.inr ⟨hrun, x, rfl, hitems, ‹_›, hrun⟩
      · cases h

lemma items_remove (q : DelayQueue α) (x : α) :
    (q.remove fun y => y = x).items = q.items.erase x := by
  rw [List.erase_eq_eraseP']
  rfl

/-! ### What every history keeps -/

/-- **Ordered and complete.** -/
lemma History.faithful (h : History deadline l q now) : Faithful deadline l q := by
  induction h with
  | new now => exact ⟨.nil, .nil, fun x => by simp [QueueCall.queued], rfl⟩
  | wait _ _ ih => exact ih
  | @add l q now x _ hx ih =>
      have hnew : x ∉ q.items := fun hq => by
        obtain ⟨newer, older, rfl, -⟩ := QueueCall.exists_add_of_queued ((ih.mem x).mp hq)
        simp at hx
      refine ⟨ih.ordered.add x, (perm_add q x).nodup_iff.mpr (List.nodup_cons.mpr ⟨hnew, ih.nodup⟩),
        fun y => ?_, ih.stopped⟩
      rw [DelayQueue.mem_add, ih.mem, QueueCall.queued, Bool.or_eq_true, decide_eq_true_eq, eq_comm]
  | @remove l q now x _ ih =>
      refine ⟨ih.ordered.remove _, ih.nodup.sublist List.eraseP_sublist, fun y => ?_, ih.stopped⟩
      rw [items_remove, ih.nodup.mem_erase_iff, ih.mem, QueueCall.queued, Bool.and_eq_true]
      rw [Bool.not_eq_true', decide_eq_false_iff_not]
      exact and_congr_left' ne_comm
  | clear _ ih =>
      exact ⟨.nil, .nil, fun x => by simp [QueueCall.queued, DelayQueue.clear], ih.stopped⟩
  | @take l q q' now r _ ht ih =>
      rcases take_eq_some ht with ⟨-, rfl, rfl⟩ | ⟨hrun, x, rfl, hitems, -, hrun'⟩
      · exact ⟨ih.ordered, ih.nodup, ih.mem, ih.stopped⟩
      · have hnodup := ih.nodup
        rw [hitems] at hnodup
        obtain ⟨hx, hnodup⟩ := List.nodup_cons.mp hnodup
        refine ⟨?_, hnodup, fun y => ?_, hrun'.trans (hrun.symm.trans ih.stopped)⟩
        · have := ih.ordered
          rw [Ordered, hitems] at this
          exact (List.pairwise_cons.mp this).2
        · have hy := ih.mem y
          rw [hitems, List.mem_cons] at hy
          rw [QueueCall.queued, Bool.and_eq_true, ← hy]
          by_cases hyx : y = x
          · simp [hyx, hx]
          · simp [hyx, Ne.symm hyx]
  | stop _ ih => exact ⟨ih.ordered, ih.nodup, ih.mem, rfl⟩
  | resume _ ih => exact ⟨ih.ordered, ih.nodup, ih.mem, rfl⟩

/-- What was returned was added, and is not in the queue any more. -/
lemma History.add_of_take (h : History deadline l q now) (ht : .take now' (some x) ∈ l) :
    .add x ∈ l ∧ QueueCall.queued x l = false := by
  induction h with
  | new now => cases ht
  | wait _ _ ih => exact ih ht
  | @add l q now y _ hy ih =>
      obtain ⟨ha, hq⟩ := ih (List.mem_of_ne_of_mem (by simp) ht)
      have hyx : y ≠ x := fun h => hy (h ▸ ha)
      exact ⟨List.mem_cons_of_mem _ ha, by simp [QueueCall.queued, hyx, hq]⟩
  | remove y _ ih =>
      obtain ⟨ha, hq⟩ := ih (List.mem_of_ne_of_mem (by simp) ht)
      exact ⟨List.mem_cons_of_mem _ ha, by simp [QueueCall.queued, hq]⟩
  | clear _ ih => exact ⟨List.mem_cons_of_mem _ (ih (List.mem_of_ne_of_mem (by simp) ht)).1, rfl⟩
  | @take l q q' now r h htake ih =>
      rcases List.mem_cons.mp ht with hhead | ht
      · obtain ⟨rfl, rfl⟩ := QueueCall.take.inj hhead
        have hq := (h.faithful.mem x).mp (of_take htake).1
        obtain ⟨newer, older, rfl, -⟩ := QueueCall.exists_add_of_queued hq
        exact ⟨by simp, by simp [QueueCall.queued]⟩
      · obtain ⟨ha, hq⟩ := ih ht
        refine ⟨List.mem_cons_of_mem _ ha, ?_⟩
        cases r with
        | none => exact hq
        | some y => simp [QueueCall.queued, hq]
  | stop _ ih =>
      obtain ⟨ha, hq⟩ := ih (List.mem_of_ne_of_mem (by simp) ht)
      exact ⟨List.mem_cons_of_mem _ ha, hq⟩
  | resume _ ih =>
      obtain ⟨ha, hq⟩ := ih (List.mem_of_ne_of_mem (by simp) ht)
      exact ⟨List.mem_cons_of_mem _ ha, hq⟩

/-- Nothing is returned twice. -/
lemma History.countP_returns (h : History deadline l q now) (x : α) :
    l.countP (QueueCall.returns x) ≤ 1 := by
  induction h with
  | new now => simp
  | wait _ _ ih => exact ih
  | @take l q q' now r h htake ih =>
      rw [List.countP_cons]
      cases hret : QueueCall.returns x (.take now r) with
      | false => simpa using ih
      | true =>
          -- what is returned now is in the queue, and was not returned before
          obtain rfl : r = some x := by
            cases r with
            | none => cases hret
            | some y => simpa [QueueCall.returns] using hret
          have hq := (h.faithful.mem x).mp (of_take htake).1
          have hzero : l.countP (QueueCall.returns x) = 0 := by
            refine List.countP_eq_zero.mpr fun k hk hret => ?_
            cases k with
            | take t r =>
                cases r with
                | none => cases hret
                | some y =>
                    obtain rfl : y = x := by simpa [QueueCall.returns] using hret
                    rw [(h.add_of_take hk).2] at hq
                    cases hq
            | _ => cases hret
          rw [hzero]
          rfl
  | _ => simpa [List.countP_cons, QueueCall.returns] using ‹_›

/-- A call in a history was made on the queue that the earlier calls have left. -/
lemma History.exists_of_take {newer older : List (QueueCall α)}
    (h : History deadline (newer ++ .take now' r :: older) q now) :
    ∃ p p', History deadline older p now' ∧ p.take deadline now' = some (r, p') := by
  generalize hl : newer ++ .take now' r :: older = l at h
  induction h generalizing newer with
  | new now => simp at hl
  | wait _ _ ih => exact ih hl
  | take h htake ih =>
      cases newer with
      | nil =>
          obtain ⟨hk, rfl⟩ := List.cons.inj hl
          obtain ⟨rfl, rfl⟩ := QueueCall.take.inj hk
          exact ⟨_, _, h, htake⟩
      | cons k newer => exact ih (List.cons.inj hl).2
  | add _ _ _ ih | remove _ _ ih | clear _ ih | stop _ ih | resume _ ih =>
      cases newer with
      | nil => cases (List.cons.inj hl).1
      | cons k newer => exact ih (List.cons.inj hl).2

omit [DecidableEq α] in
/-- An ordered queue gives its first element away, and nothing in it is due before that. -/
lemma Ordered.le_of_take (h : q.Ordered deadline) (ht : q.take deadline now = some (some x, q')) :
    ∀ y ∈ q.items, deadline x ≤ deadline y := by
  obtain ⟨hitems, -⟩ := items_of_take ht
  rw [Ordered, hitems] at h
  rw [hitems]
  exact List.forall_mem_cons.mpr ⟨le_rfl, (List.pairwise_cons.mp h).1⟩

/-- **Ordered, no loss, no duplication.** After any calls the queue is ordered; a `take` returns an
element only once its deadline has passed, and when nothing in the queue is due before it; it
returns an element at most once, and only what was added and neither removed nor cleared since; what
was added and neither removed, cleared nor returned is in the queue; and as long as the queue is
stopped, it returns nothing and leaves the queue as it is. -/
theorem History.correct (h : History deadline l q now) : q.Ordered deadline
    ∧ (∀ now' x newer older, l = newer ++ .take now' (some x) :: older → ∃ p p',
        History deadline older p now' ∧ p.take deadline now' = some (some x, p') ∧ deadline x ≤ now'
          ∧ (∀ y ∈ p.items, deadline x ≤ deadline y)
          ∧ ∃ mid early, older = mid ++ .add x :: early ∧ .remove x ∉ mid ∧ .clear ∉ mid)
    ∧ (∀ x, l.countP (QueueCall.returns x) ≤ 1)
    ∧ (∀ x newer older, l = newer ++ .add x :: older → .remove x ∉ newer → .clear ∉ newer →
        (∀ now', .take now' (some x) ∉ newer) → x ∈ q.items)
    ∧ (QueueCall.halted l = true → ∀ now', q.take deadline now' = some (none, q)) := by
  refine ⟨h.faithful.ordered, fun now' x newer older hl => ?_, h.countP_returns,
    fun x newer older hl hr hc ht => ?_, fun hstop now' => ?_⟩
  · obtain ⟨p, p', hp, htake⟩ := History.exists_of_take (hl ▸ h)
    obtain ⟨hx, hdl, -⟩ := of_take htake
    obtain ⟨mid, early, hadd, hr, hc, -⟩ :=
      QueueCall.exists_add_of_queued ((hp.faithful.mem x).mp hx)
    exact ⟨p, p', hp, htake, hdl, hp.faithful.ordered.le_of_take htake, mid, early, hadd, hr, hc⟩
  · rw [h.faithful.mem, hl]
    exact QueueCall.queued_of_add hr hc ht
  · simp [DelayQueue.take, h.faithful.stopped, hstop]

/-! ### Equal deadlines -/

/-- Due earlier, or at the same time with the smaller identifier. -/
def Before (deadline : α → ℤ) (id : α → ℕ) (x y : α) : Prop :=
  deadline x < deadline y ∨ deadline x = deadline y ∧ id x < id y

/-- The elements were added in the order of their identifiers. -/
def Ascending (id : α → ℕ) (l : List (QueueCall α)) : Prop :=
  ∀ newer x older, l = newer ++ .add x :: older → ∀ y, .add y ∈ older → id y < id x

omit [DecidableEq α] in
lemma Ascending.of_cons {k : QueueCall α} (h : Ascending id (k :: l)) : Ascending id l :=
  fun newer x older hl => h (k :: newer) x older (hl ▸ rfl)

/-- Elements with equal deadlines stand in the reverse order of their identifiers. -/
lemma History.reversed (h : History deadline l q now) (hid : Ascending id l) :
    q.items.Pairwise fun x y => deadline x = deadline y → id y < id x := by
  induction h with
  | new now => exact .nil
  | wait _ _ ih => exact ih hid
  | @add l q now x h _ ih =>
      have hq := ih hid.of_cons
      rw [h.faithful.ordered.items_add]
      have hlt : ∀ y ∈ q.items, id y < id x := fun y hy => by
        obtain ⟨newer, older, rfl, -⟩ := QueueCall.exists_add_of_queued ((h.faithful.mem y).mp hy)
        exact hid [] x _ rfl y (by simp)
      refine List.pairwise_append.mpr ⟨hq.sublist List.filter_sublist, List.pairwise_cons.mpr
        ⟨fun y hy _ => hlt y (List.mem_filter.mp hy).1, hq.sublist List.filter_sublist⟩, ?_⟩
      intro y hy z hz hyz
      have hyx : deadline y < deadline x := by simpa using (List.mem_filter.mp hy).2
      rcases List.mem_cons.mp hz with rfl | hz
      · omega
      · have hxz : deadline x ≤ deadline z := by simpa using (List.mem_filter.mp hz).2
        omega
  | remove x _ ih => exact (ih hid.of_cons).sublist List.eraseP_sublist
  | clear _ ih => exact .nil
  | take _ htake ih =>
      have hq := ih hid.of_cons
      rcases take_eq_some htake with ⟨-, -, rfl⟩ | ⟨-, x, -, hitems, -⟩
      · exact hq
      · rw [hitems] at hq
        exact (List.pairwise_cons.mp hq).2
  | stop _ ih | resume _ ih => exact ih hid.of_cons

/-- **Ties.** What `take` returns is the least element in the queue, by deadline and then by
identifier, if and only if the smallest deadline in the queue is the deadline of one element
only. -/
theorem History.least_iff (h : History deadline l q now) (hid : Ascending id l)
    (ht : q.take deadline now' = some (some x, q')) :
    (∀ y ∈ q.items, y ≠ x → Before deadline id x y)
      ↔ ∀ y ∈ q.items, ∀ z ∈ q.items, (∀ s ∈ q.items, deadline y ≤ deadline s) →
          deadline z = deadline y → z = y := by
  have hle := h.faithful.ordered.le_of_take ht
  obtain ⟨hx, -, -⟩ := of_take ht
  have hrev := h.reversed hid
  obtain ⟨hitems, -⟩ := items_of_take ht
  constructor
  · intro hall y hy z hz hmin hzy
    -- both are due first, like `x`, which only `x` itself can be
    have honly : ∀ s ∈ q.items, deadline s = deadline x → s = x := by
      intro s hs hsx
      by_contra hne
      rw [hitems] at hrev hs
      have hlt := (List.pairwise_cons.mp hrev).1 s ((List.mem_cons.mp hs).resolve_left hne) hsx.symm
      rcases hall s (hitems ▸ hs) hne with hlt' | ⟨-, hlt'⟩ <;> omega
    have hyx : deadline y = deadline x := le_antisymm (hmin x hx) (hle y hy)
    rw [honly y hy hyx, honly z hz (hzy.trans hyx)]
  · intro hall y hy hne
    refine Or.inl (lt_of_le_of_ne (hle y hy) fun heq => hne ?_)
    exact hall x hx y hy hle heq.symm

end DelayQueue

namespace Tie

open DelayQueue

/-- Elements are a deadline and an identifier. Two of them are added, in the order of their
identifiers. -/
lemma history_two (x y : ℤ × ℕ) (h : x ≠ y) : History Prod.fst [.add y, .add x]
    ((({} : DelayQueue (ℤ × ℕ)).add Prod.fst x).add Prod.fst y) 5 :=
  .add y (.add x (.new 5) (by simp)) (by simpa using h.symm)

lemma ascending_two {x y : ℤ × ℕ} (h : x.2 < y.2) : Ascending Prod.snd [.add y, .add x] := by
  intro newer z older hl u hu
  match newer, hl with
  | [], hl =>
      obtain ⟨hz, rfl⟩ := List.cons.inj hl
      cases hz
      obtain rfl : u = x := by simpa using hu
      exact h
  | [_], hl =>
      cases hl
      cases hu
  | _ :: _ :: _, hl => simp at hl

/-- **The last one first.** Of two elements with the same deadline, the one that was added last is
returned first. -/
theorem not_least : ∃ l q, History Prod.fst l q 5 ∧ Ascending Prod.snd l
    ∧ ∃ x q', q.take Prod.fst 5 = some (some x, q')
      ∧ ¬ ∀ y ∈ q.items, y ≠ x → Before Prod.fst Prod.snd x y := by
  refine ⟨_, _, history_two (5, 1) (5, 2) (by decide), ascending_two (by decide), (5, 2), _, rfl,
    fun h => ?_⟩
  have := h (5, 1) (by decide) (by decide)
  simp [Before] at this

/-- With different deadlines, the first one due is returned. -/
theorem least_of_distinct : ∃ l q, History Prod.fst l q 5 ∧ Ascending Prod.snd l
    ∧ ∃ x q', q.take Prod.fst 5 = some (some x, q')
      ∧ ∀ y ∈ q.items, y ≠ x → Before Prod.fst Prod.snd x y := by
  have h := history_two (5, 1) (7, 2) (by decide)
  have ht : DelayQueue.take Prod.fst 5
      ((({} : DelayQueue (ℤ × ℕ)).add Prod.fst (5, 1)).add Prod.fst (7, 2))
        = some (some (5, 1), ⟨[(7, 2)], false⟩) := rfl
  have hid := ascending_two (x := (5, 1)) (y := (7, 2)) (by decide)
  exact ⟨_, _, h, hid, (5, 1), _, ht, (h.least_iff hid ht).mpr (by decide)⟩

/-- A history of additions and a `take` in the middle. -/
theorem correct_take : ∃ l q, History Prod.fst l q 5
    ∧ (.take 5 (some (5, 1)) : QueueCall (ℤ × ℕ)) ∈ l
    ∧ q.Ordered Prod.fst ∧ l.countP (QueueCall.returns (5, 1)) ≤ 1 ∧ (7, 2) ∈ q.items := by
  have h : History Prod.fst [.take 5 (some (5, 1)), .add (7, 2), .add (5, 1)] ⟨[(7, 2)], false⟩ 5 :=
    .take (history_two (5, 1) (7, 2) (by decide)) rfl
  obtain ⟨ho, -, hc, hq, -⟩ := h.correct
  exact ⟨_, _, h, List.mem_cons_self, ho, hc _,
    hq (7, 2) [.take 5 (some (5, 1))] [.add (5, 1)] rfl (by simp) (by simp) (by simp)⟩

end Tie

end CppStatecharts
