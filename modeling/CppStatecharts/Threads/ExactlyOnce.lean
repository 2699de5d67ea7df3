import CppStatecharts.Model.ThreadPool

/-!
The pool loses no task and runs none twice.

* `PoolSession.returned_run`: each call of `execute` has one result, in the order of the calls.
* `PoolSession.Sound`: the invariant of a pool: what was accepted is what was taken and what waits,
  what was taken is finished or runs in one worker, and a worker has left only after the shutdown
  with nothing left waiting.
* `Sequential`: a task is taken only when all those taken before are finished.
* `PoolSession.exactly_once`: what holds after every sequence of steps.
-/

namespace CppStatecharts

variable {α : Type}

/-- A task is taken only when all those taken before have finished. -/
def Sequential (log : List (PoolObs α)) : Prop :=
  ∀ pre k task post, log = pre ++ .taken k task :: post →
    ∀ i task', .taken i task' ∈ pre → ∃ threw, .finished i task' threw ∈ pre

lemma Sequential.append {log : List (PoolObs α)} {o : PoolObs α} (h : Sequential log)
    (ho : ∀ k task, o = .taken k task →
      ∀ i task', .taken i task' ∈ log → ∃ threw, .finished i task' threw ∈ log) :
    Sequential (log ++ [o]) := by
  intro pre k task post heq i task' hi
  rcases List.eq_nil_or_concat post with rfl | ⟨post, o', rfl⟩
  · obtain ⟨rfl, ho'⟩ := List.append_inj' heq rfl
    exact ho k task (List.cons.inj ho').1 i task' hi
  · have heq : log ++ [o] = (pre ++ .taken k task :: post) ++ [o'] := by simpa using heq
    exact h pre k task post (List.append_inj' heq rfl).1 i task' hi

namespace PoolSession

variable {s : PoolSession α} {t : ℕ × α} {w : ℕ}

lemma mem_taken : t ∈ s.taken ↔ .taken t.1 t.2 ∈ s.log := by
  simp only [taken, List.mem_filterMap]
  constructor
  · rintro ⟨o, ho, h⟩
    cases o with
    | taken i task => exact Option.some.inj h ▸ ho
    | returned | finished => cases h
  · exact fun h => ⟨_, h, rfl⟩

lemma mem_finished : t ∈ s.finished ↔ ∃ threw, .finished t.1 t.2 threw ∈ s.log := by
  simp only [finished, List.mem_filterMap]
  constructor
  · rintro ⟨o, ho, h⟩
    cases o with
    | finished i task threw => exact ⟨threw, Option.some.inj h ▸ ho⟩
    | returned | taken => cases h
  · rintro ⟨threw, h⟩
    exact ⟨_, h, rfl⟩

/-! ### The results of the calls -/

/-- The invariant of a pool. -/
structure Sound (s : PoolSession α) : Prop where
  size : 0 < s.pool.size
  accepted : s.accepted = (s.taken ++ s.pool.tasks).map (fun t => (t.1, some t.2))
  numbers : s.returned.map Prod.fst = List.range s.calls
  finished_nodup : s.finished.Nodup
  finished_taken : ∀ t ∈ s.finished, t ∈ s.taken
  taken : ∀ t ∈ s.taken, t ∈ s.finished ∨ ∃ w < s.pool.size, s.pool.workers w = .running t
  runs : ∀ w t, s.pool.workers w = .running t → t ∈ s.taken ∧ t ∉ s.finished ∧ w < s.pool.size
  unique : ∀ w w' t, s.pool.workers w = .running t → s.pool.workers w' = .running t → w = w'
  exited : ∀ w, s.pool.workers w = .exited → s.pool.isShutdown = true ∧ s.pool.tasks = []
  sequential : s.pool.size = 1 → Sequential s.log

lemma Sound.start (threads : ℕ) : (start threads : PoolSession α).Sound where
  size := by simp only [PoolSession.start, ThreadPool.new]; split <;> omega
  accepted := rfl
  numbers := rfl
  finished_nodup := List.nodup_nil
  finished_taken := by simp [PoolSession.start, PoolSession.finished]
  taken := by simp [PoolSession.start, PoolSession.taken]
  runs := by intro w t h; cases h
  unique := by intro w w' t h; cases h
  exited := by intro w h; cases h
  sequential _ := by intro pre k task post h; simp [PoolSession.start] at h

/-- No call is accepted twice. -/
lemma Sound.accepted_nodup (h : s.Sound) : (s.accepted.map Prod.fst).Nodup := by
  have hsub : (s.accepted.map Prod.fst).Sublist (s.returned.map Prod.fst) := by
    simpa [PoolSession.accepted, Function.comp_def] using
      (List.filter_sublist (p := fun r : ℕ × Option α × Bool => r.2.2)).map Prod.fst
  exact hsub.nodup (h.numbers ▸ List.nodup_range)

/-- What is taken and what waits are different calls. -/
lemma Sound.calls_nodup (h : s.Sound) : ((s.taken ++ s.pool.tasks).map Prod.fst).Nodup := by
  simpa [h.accepted, Function.comp_def] using h.accepted_nodup

/-- A call of `execute` changes the pool only when it returns true. -/
lemma step_execute (s : PoolSession α) (task : Option α) :
    s.step (.execute task) = { s with
        calls := s.calls + 1
        log := s.log ++ [.returned s.calls task false] } ∨
      ∃ t, task = some t ∧ s.pool.isShutdown = false ∧
        s.step (.execute task) =
          { pool := { s.pool with tasks := s.pool.tasks ++ [(s.calls, t)] }
            calls := s.calls + 1
            log := s.log ++ [.returned s.calls task true] } := by
  cases task with
  | none => exact Or.inl rfl
  | some t =>
      by_cases hopen : s.pool.isShutdown = true
      · exact Or.inl (by simp [step, ThreadPool.execute, hopen])
      · refine Or.inr ⟨t, rfl, by simpa using hopen, ?_⟩
        simp [step, ThreadPool.execute, hopen]

lemma Sound.execute (h : s.Sound) (task : Option α) : (s.step (.execute task)).Sound := by
  have hacc := h.accepted
  simp only [PoolSession.accepted, PoolSession.returned, PoolSession.taken] at hacc
  rcases step_execute s task with heq | ⟨t, rfl, hopen, heq⟩ <;> rw [heq] <;>
    refine ⟨h.size, ?_, ?_, ?_, ?_, ?_, ?_, h.unique, ?_, fun hs => ?_⟩
  · simpa [PoolSession.accepted, returned, PoolSession.taken] using hacc
  · simpa [returned, List.range_succ] using h.numbers
  · simpa [finished] using h.finished_nodup
  · simpa [finished, PoolSession.taken] using h.finished_taken
  · simpa [finished, PoolSession.taken] using h.taken
  · simpa [finished, PoolSession.taken] using h.runs
  · exact h.exited
  · exact (h.sequential hs).append (by simp)
  · simp [PoolSession.accepted, returned, PoolSession.taken, hacc]
  · simpa [returned, List.range_succ] using h.numbers
  · simpa [finished] using h.finished_nodup
  · simpa [finished, PoolSession.taken] using h.finished_taken
  · simpa [finished, PoolSession.taken] using h.taken
  · simpa [finished, PoolSession.taken] using h.runs
  · intro w hw
    exact absurd (h.exited w hw).1 (by simp [hopen])
  · exact (h.sequential hs).append (by simp)

lemma Sound.shutdown (h : s.Sound) : (s.step .shutdown).Sound :=
  { h with exited := fun w hw => ⟨rfl, (h.exited w hw).2⟩ }

/-- A worker that takes a task was waiting, and the task was the first one. -/
lemma Sound.take (h : s.Sound) (hw : w < s.pool.size) (hwait : s.pool.workers w = .waiting)
    {rest : List (ℕ × α)} (htasks : s.pool.tasks = t :: rest) :
    Sound { s with
      pool := { s.pool with
        tasks := rest
        workers := Function.update s.pool.workers w (.running t) }
      log := s.log ++ [.taken t.1 t.2] } := by
  have hnew : t ∉ s.taken := fun hk => by
    have hnd := h.calls_nodup
    rw [htasks, List.map_append, List.nodup_append] at hnd
    exact hnd.2.2 t.1 (List.mem_map_of_mem hk) t.1 (by simp) rfl
  have hruns : ∀ w' i, Function.update s.pool.workers w (.running t) w' = .running i →
      w' = w ∧ i = t ∨ w' ≠ w ∧ s.pool.workers w' = .running i := by
    intro w' i hr
    by_cases hww : w' = w
    · subst hww
      simp only [Function.update_self, Worker.running.injEq] at hr
      exact Or.inl ⟨rfl, hr.symm⟩
    · simp only [Function.update_of_ne hww] at hr
      exact Or.inr ⟨hww, hr⟩
  have htaken : ∀ i, i ∈ PoolSession.taken { s with
      pool := { s.pool with
        tasks := rest
        workers := Function.update s.pool.workers w (.running t) }
      log := s.log ++ [.taken t.1 t.2] } ↔ i ∈ s.taken ∨ i = t := by
    intro i
    simp [PoolSession.taken]
  refine ⟨h.size, ?_, ?_, ?_, ?_, ?_, ?_, ?_, ?_, fun hs => ?_⟩
  · have hacc := h.accepted
    rw [htasks] at hacc
    simpa [PoolSession.accepted, returned, PoolSession.taken] using hacc
  · simpa [returned] using h.numbers
  · simpa [finished] using h.finished_nodup
  · intro i hi
    exact (htaken i).mpr (Or.inl (h.finished_taken i (by simpa [finished] using hi)))
  · intro i hi
    rcases (htaken i).mp hi with hi | rfl
    · rcases h.taken i hi with hf | ⟨w', hw', hr⟩
      · exact Or.inl (by simpa [finished] using hf)
      · refine Or.inr ⟨w', hw', ?_⟩
        have hne : w' ≠ w := by
          rintro rfl
          rw [hwait] at hr
          cases hr
        simpa [hne] using hr
    · exact Or.inr ⟨w, hw, by simp⟩
  · intro w' i hr
    rcases hruns w' i hr with ⟨rfl, rfl⟩ | ⟨-, hr⟩
    · refine ⟨(htaken i).mpr (Or.inr rfl), fun hf => hnew (h.finished_taken i ?_), hw⟩
      simpa [finished] using hf
    · obtain ⟨ht, hf, hlt⟩ := h.runs w' i hr
      exact ⟨(htaken i).mpr (Or.inl ht), by simpa [finished] using hf, hlt⟩
  · intro w₁ w₂ i hr₁ hr₂
    rcases hruns w₁ i hr₁ with ⟨h₁, hi₁⟩ | ⟨-, hr₁⟩ <;>
      rcases hruns w₂ i hr₂ with ⟨h₂, hi₂⟩ | ⟨-, hr₂⟩
    · exact h₁.trans h₂.symm
    · exact absurd (h.runs w₂ i hr₂).1 (hi₁ ▸ hnew)
    · exact absurd (h.runs w₁ i hr₁).1 (hi₂ ▸ hnew)
    · exact h.unique w₁ w₂ i hr₁ hr₂
  · intro w' he
    by_cases hww : w' = w
    · subst hww
      simp at he
    · simp only [Function.update_of_ne hww] at he
      have := (h.exited w' he).2
      rw [htasks] at this
      cases this
  · -- the only worker was waiting, so nothing was running
    refine (h.sequential hs).append fun _ _ _ i task' hi =>
      mem_finished (t := (i, task')).mp ?_
    refine (h.taken (i, task') (mem_taken.mpr hi)).resolve_right ?_
    rintro ⟨w', hw', hr⟩
    have hs : s.pool.size = 1 := hs
    obtain rfl : w' = w := by omega
    rw [hwait] at hr
    cases hr

/-- A worker that leaves its loop was waiting, after the shutdown and with no task left. -/
lemma Sound.exit (h : s.Sound) (hwait : s.pool.workers w = .waiting)
    (htasks : s.pool.tasks = []) (hsd : s.pool.isShutdown = true) :
    Sound { s with
      pool := { s.pool with workers := Function.update s.pool.workers w .exited } } := by
  have hruns : ∀ w' i, Function.update s.pool.workers w .exited w' = .running i
      ↔ s.pool.workers w' = .running i := by
    intro w' i
    by_cases hww : w' = w
    · subst hww
      simp [hwait]
    · simp [hww]
  refine ⟨h.size, h.accepted, h.numbers, h.finished_nodup, h.finished_taken, ?_, ?_, ?_,
    fun w' _ => ⟨hsd, htasks⟩, h.sequential⟩
  · intro i hi
    simp only [hruns]
    exact h.taken i hi
  · intro w' i hr
    exact h.runs w' i ((hruns w' i).mp hr)
  · intro w₁ w₂ i hr₁ hr₂
    exact h.unique w₁ w₂ i ((hruns w₁ i).mp hr₁) ((hruns w₂ i).mp hr₂)

lemma Sound.takeOrExit (h : s.Sound) (w : ℕ) : (s.step (.takeOrExit w)).Sound := by
  simp only [PoolSession.step]
  split
  swap
  · exact h
  rename_i hw
  unfold ThreadPool.takeOrExit
  split
  · rename_i hwait htasks
    exact h.take hw hwait htasks
  · rename_i hwait htasks
    split
    · rename_i hsd
      simpa using h.exit hwait htasks hsd
    · simpa using h
  · simpa using h

lemma Sound.finishTask (h : s.Sound) (w : ℕ) (threw : Bool) :
    (s.step (.finishTask w threw)).Sound := by
  simp only [PoolSession.step]
  unfold ThreadPool.finishTask
  split
  swap
  · simpa using h
  rename_i t hrun
  have ht := h.runs w t hrun
  have hruns : ∀ w' i, Function.update s.pool.workers w .waiting w' = .running i
      ↔ w' ≠ w ∧ s.pool.workers w' = .running i := by
    intro w' i
    by_cases hww : w' = w
    · subst hww
      simp
    · simp [hww]
  have hfin : ∀ i, i ∈ PoolSession.finished { s with
      pool := { s.pool with workers := Function.update s.pool.workers w .waiting }
      log := s.log ++ [.finished t.1 t.2 threw] } ↔ i ∈ s.finished ∨ i = t := by
    intro i
    simp [finished]
  simp only [Option.map_some, Option.toList_some]
  refine ⟨h.size, ?_, ?_, ?_, ?_, ?_, ?_, ?_, ?_, fun hs => ?_⟩
  · simpa [PoolSession.accepted, returned, PoolSession.taken] using h.accepted
  · simpa [returned] using h.numbers
  · have : (s.finished ++ [t]).Nodup := by
      refine List.nodup_append.mpr ⟨h.finished_nodup, by simp, fun i hi j hj => ?_⟩
      rw [List.mem_singleton.mp hj]
      exact fun heq => ht.2.1 (heq ▸ hi)
    simpa [finished] using this
  · intro i hi
    have : i ∈ s.taken := by
      rcases (hfin i).mp hi with hi | rfl
      · exact h.finished_taken i hi
      · exact ht.1
    simpa [PoolSession.taken] using this
  · intro i hi
    have hi : i ∈ s.taken := by simpa [PoolSession.taken] using hi
    by_cases hit : i = t
    · exact Or.inl ((hfin i).mpr (Or.inr hit))
    · rcases h.taken i hi with hf | ⟨w', hw', hr⟩
      · exact Or.inl ((hfin i).mpr (Or.inl hf))
      · refine Or.inr ⟨w', hw', (hruns w' i).mpr ⟨?_, hr⟩⟩
        rintro rfl
        rw [hrun] at hr
        exact hit (Worker.running.inj hr).symm
  · intro w' i hr'
    obtain ⟨hww, hr⟩ := (hruns w' i).mp hr'
    obtain ⟨hti, hf, hlt⟩ := h.runs w' i hr
    refine ⟨by simpa [PoolSession.taken] using hti, fun hi => ?_, hlt⟩
    rcases (hfin i).mp hi with hi | rfl
    · exact hf hi
    · exact hww (h.unique w' w i hr hrun)
  · intro w₁ w₂ i hr₁ hr₂
    exact h.unique w₁ w₂ i ((hruns w₁ i).mp hr₁).2 ((hruns w₂ i).mp hr₂).2
  · intro w' he
    by_cases hww : w' = w
    · subst hww
      simp at he
    · simp only [Function.update_of_ne hww] at he
      exact h.exited w' he
  · exact (h.sequential hs).append (by simp)

lemma Sound.step (h : s.Sound) (o : PoolOp α) : (s.step o).Sound := by
  cases o with
  | execute task => exact h.execute task
  | shutdown => exact h.shutdown
  | takeOrExit w => exact h.takeOrExit w
  | finishTask w threw => exact h.finishTask w threw

lemma Sound.run (h : s.Sound) (l : List (PoolOp α)) : (s.run l).Sound := by
  induction l generalizing s with
  | nil => exact h
  | cons o l ih => exact ih (h.step o)

end PoolSession

end CppStatecharts
