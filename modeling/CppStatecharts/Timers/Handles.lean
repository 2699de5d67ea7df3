import CppStatecharts.Model.Asynchron
import CppStatecharts.Timers.Ledger

/-!
The pointers to the entries in the runtime data.

* `System.Anchored`: every entry that a state lists is owned by the pending list.
* `System.Handled`: the invariant of the system, with what `World.Shifts` needs.
* `System.anchored_of_released`: every session is anchored in which neither a client cancels an
  entry that is listed, nor a shutdown releases one.
* `Forgetful.not_anchored`: the shutdown of a chart whose metadata is still in use.
-/

namespace CppStatecharts

variable {S T E P : Type}

namespace System

/-- Every entry that a state lists is owned by the pending list. -/
def Anchored (σ : System S T E P) : Prop :=
  ∀ d s, ∀ id ∈ (σ.stores d).timeouts s, ∃ e ∈ σ.timers.pendingEntries, e.id = id

/-- No entry is released while a state lists it: a client cancels only entries that are listed
nowhere, and nothing is listed any more when the shutdown ends. -/
def Released : Request S E → System S T E P → System S T E P → Prop
  | .cancelTimeout entry, σ, _ => ∀ d s, entry.id ∉ (σ.stores d).timeouts s
  | .terminate, σ, _ => ∀ d s, (σ.stores d).timeouts s = []
  | _, _, _ => True

variable (c : Chart S T E P)

/-- The metadata are sorted, the entries past the timeout queue have old numbers, and every pointer
is anchored. -/
structure Handled (σ : System S T E P) : Prop where
  sorted : Sorted c σ
  used : ∀ e ∈ σ.pool ++ σ.worker.toList, e.id < σ.timers.nextId
  anchored : σ.Anchored

variable {c} {σ σ' τ : System S T E P} {w w' : World S T E P} {l : List (Obs S T)}

lemma Handled.of_eq (h : Handled c σ) (ht : σ'.timers = σ.timers) (hs : σ'.stores = σ.stores)
    (hpool : ∀ e ∈ σ'.pool ++ σ'.worker.toList, e ∈ σ.pool ++ σ.worker.toList) : Handled c σ' where
  sorted := h.sorted.of_eq ht hs
  used e he := ht ▸ h.used e (hpool e he)
  anchored d s id hid := ht ▸ h.anchored d s id (hs ▸ hid)

/-- A part of a call keeps the pointers of its metadata anchored, and takes no entry of another. -/
lemma Handled.put (h : Handled c (σ.put w)) (hs : w.Shifts c l w') : Handled c (σ.put w') := by
  have hw := h.sorted.of_put
  refine ⟨h.sorted.put hs, fun e he => (h.used e he).trans_le hs.nextId, fun d s id hid => ?_⟩
  by_cases hd : d = w.dataId
  · subst hd
    refine hs.anchored (fun x i hi => ?_) s id (by simpa [System.put, ← hs.dataId] using hid)
    exact h.anchored w.dataId x i (by simpa [System.put] using hi)
  · have hid : id ∈ (σ.stores d).timeouts s := by simpa [System.put, hs.dataId, hd] using hid
    have hid' : id ∈ ((σ.put w).stores d).timeouts s := by simpa [System.put, hd] using hid
    obtain ⟨e, he, rfl⟩ := h.anchored d s id hid'
    have hdata := ((h.sorted d 0).listed s e.id hid').2.2 e he rfl
    exact ⟨e, hs.others hw he fun heq => hd (hdata.1.symm.trans heq), rfl⟩

/-- The timeout thread only moves entries. -/
lemma Handled.expire (h : Handled c σ) : Handled c σ.expire := by
  refine ⟨h.sorted.expire, fun e he => ?_, ?_⟩
  · obtain ⟨-, -, -, hid, -, -, hsub, -⟩ := expire_frame σ
    rw [hid]
    rcases List.mem_append.mp (hsub e (List.mem_append_right _ he)) with hq | hp
    · exact h.sorted.coherent.used e (h.sorted.coherent.queued e hq)
    · exact h.used e hp
  · rcases expire_cases σ with he | ⟨e, q, -, -, he⟩
    · rw [he]
      exact h.anchored
    · rw [he]
      exact h.anchored

lemma Handled.submit (h : Handled c σ) (d : ℕ) (e : Option E) (p : Option ℕ) :
    Handled c (σ.submit c d e p) := by
  have hsorted := h.sorted.submit d e p
  rcases submit_cases c d e p σ with ⟨-, hσ⟩ | ⟨-, q, pool, hσ, hq⟩
  · rw [hσ]
    exact h
  rw [hσ] at hsorted ⊢
  refine ⟨hsorted, fun e' he' => ?_, fun d' s id hid => ?_⟩
  · have he' : e' ∈ σ.pool ++ σ.worker.toList ∨ e' = newEntry c σ d e p := by
      rcases hq with ⟨-, rfl⟩ | ⟨-, rfl⟩
      · exact Or.inl he'
      · simp only [List.mem_append, List.mem_singleton] at he' ⊢
        tauto
    rcases he' with he' | rfl
    · exact (h.used e' he').trans (Nat.lt_succ_self _)
    · exact Nat.lt_succ_self _
  · obtain ⟨e', he', rfl⟩ := h.anchored d' s id hid
    exact ⟨e', List.mem_append_left _ he', rfl⟩

/-- An entry that nobody lists is cancelled. -/
lemma Handled.cancelTimeout (h : Handled c σ) {entry : EventQueueEntry S E}
    (hentry : entry ∈ σ.timers.pendingEntries ++ (σ.pool ++ σ.worker.toList))
    (hfree : ∀ d s, entry.id ∉ (σ.stores d).timeouts s) : Handled c (σ.cancelTimeout entry) := by
  have hlt : entry.id < σ.timers.nextId := (List.mem_append.mp hentry).elim
    (h.sorted.coherent.used entry) (h.used entry)
  have hd := h.sorted.coherent.drops_one entry.id (Or.inl rfl)
  refine ⟨h.sorted.cancelTimeout hlt, fun e he => (h.used e he).trans_eq hd.nextId.symm,
    fun d s id hid => ?_⟩
  obtain ⟨e, he, rfl⟩ := h.anchored d s id hid
  have hne : e.id ≠ entry.id := fun heq => hfree d s (heq ▸ hid)
  exact ⟨e, mem_pending_cancelTimeout h.sorted.coherent |>.mpr ⟨he, hne⟩, rfl⟩

lemma Handled.shutdown (h : Handled c σ) : Handled c σ.shutdown := by
  refine ⟨h.sorted.shutdown, ?_, ?_⟩ <;> unfold System.shutdown <;> split
  · exact h.used
  · exact h.used
  · exact h.anchored
  · exact h.anchored

lemma Handled.terminate (h : Handled c σ) (hrun : σ.timers.running = false)
    (hfree : ∀ d s, (σ.stores d).timeouts s = []) : Handled c σ.terminate :=
  ⟨h.sorted.terminate hrun, h.used, fun d s _ hid => absurd (hfree d s ▸ hid) (List.not_mem_nil)⟩

section Steps

variable [DecidableEq S] [Inhabited P] {op : Op S E} {r : Request S E}

omit [DecidableEq S] in
lemma Handled.argument (h : Handled c σ) (p : Option ℕ) : Handled c (σ.argument p).2 := by
  obtain ⟨ht, hs, -, hpool, hworker⟩ := argument_frame σ p
  exact h.of_eq ht hs fun e he => by rwa [hpool, hworker] at he

lemma Handled.call (hc : c.ActionsKeepTimers) {d : ℕ} {p : Option ℕ} (h : Handled c σ)
    (hop : op.call = some (d, p)) (hs : Step c op σ σ') : Handled c σ' := by
  obtain ⟨l, w', hl, -, rfl⟩ := h.sorted.call hc hop hs
  have hτ := h.argument p
  rw [← put_world (σ.argument p).2 d (σ.argument p).1] at hτ
  exact hτ.put hl

lemma Handled.deliver (hc : c.ActionsKeepTimers) (h : Handled c σ) (hs : Deliver c σ σ') :
    Handled c σ' := by
  obtain ⟨e, he, q, τ, hτ, l, w', hl, -, -, rfl⟩ := h.sorted.deliver hc hs
  have hidle : Handled c { σ with worker := none } := h.of_eq rfl rfl fun e he => by
    simp only [List.mem_append] at he ⊢
    tauto
  have hτ' : Handled c τ := by
    have := hidle.argument e.param
    rwa [← hτ] at this
  rw [← put_world τ e.data q] at hτ'
  exact hτ'.put hl

omit [DecidableEq S] [Inhabited P] in
lemma Handled.check (h : Handled c σ) : Handled c σ.check :=
  h.of_eq (check_frame σ).1 (check_frame σ).2.1 (check_frame σ).2.2.2

lemma Handled.step (hc : c.ActionsKeepTimers) (h : Handled c σ) (hs : Step c op σ σ') :
    Handled c σ' := by
  cases op with
  | start d p => exact h.call hc rfl hs
  | restoreState s d p => exact h.call hc rfl hs
  | dispatch d e p => exact h.call hc rfl hs
  | tick ns =>
      obtain rfl := hs
      exact ⟨h.sorted.tick ns, h.used, h.anchored⟩
  | expire =>
      obtain rfl := hs
      exact h.expire
  | check =>
      obtain rfl := hs
      exact h.check
  | deliver => exact h.deliver hc hs
  | work =>
      obtain ⟨-, ⟨-, rfl⟩ | hd⟩ := hs
      · exact h.check
      · exact h.check.deliver hc hd

omit [DecidableEq S] in
lemma Handled.share (h : Handled c σ) (p : Shared) : Handled c (σ.share p).2 := by
  cases p with
  | new => exact h.argument none
  | given p => exact h

lemma Handled.serves (hc : c.ActionsKeepTimers) (hs : Serves c r σ σ') (hok : Released r σ σ')
    (h : Handled c σ) : Handled c σ' := by
  cases r with
  | op op => exact h.step hc hs
  | startAsynchron d p =>
      obtain rfl := hs
      have hτ := h.share p
      rw [← put_world (σ.share p).2 d 0] at hτ
      obtain ⟨l, hl, -⟩ := calls_enter hτ.sorted.of_put
      exact (hτ.put hl).submit d none _
  | dispatchAsynchron d e p =>
      obtain rfl := hs
      exact (h.share p).submit d e _
  | cancelTimeout entry =>
      obtain ⟨hentry, rfl⟩ := hs
      exact h.cancelTimeout hentry hok
  | shutdown =>
      obtain rfl := hs
      exact h.shutdown
  | terminate =>
      obtain ⟨hrun, rfl⟩ := hs
      exact h.terminate hrun hok

/-- **No dangling pointer.** In every session in which no entry is released while a state lists it,
every entry that a state lists is owned by the pending list. -/
theorem anchored_of_released (hc : c.ActionsKeepTimers) {params : ℕ → P} {nextParam : ℕ}
    (h : Session c Released (fresh params nextParam) σ) : σ.Anchored := by
  have h₀ : Handled c (fresh params nextParam : System S T E P) := by
    refine ⟨fun d p => ⟨⟨?_, ?_, ?_, ?_, ?_, ?_⟩, ?_, ?_⟩, ?_, ?_⟩ <;>
      simp [fresh, world, Metadata.timeouts, Anchored]
  exact (h.induction (fun r σ σ' hs hok hh => hh.serves hc hs hok) h₀).anchored

end Steps

end System

/-! ### A shutdown while a timer is running -/

namespace Forgetful

set_option maxRecDepth 4000 in
/-- **A pointer that is left behind.** The shutdown releases the entry of `a`, which still lists
it. -/
theorem not_anchored : ∃ σ, System.Session (chart none) (fun _ _ _ => True) initial σ
    ∧ ¬ System.Anchored σ := by
  have hstart : ∀ {σ}, System.exec (chart none) 4 initial (.start 0 (some 0)) = some σ →
      System.Session (chart none) (fun _ _ _ => True) initial σ := fun h =>
    .step (.op (.start 0 (some 0))) (.refl _) (System.step_of_exec h) trivial
  refine ⟨_, .step .terminate (.step .shutdown (hstart rfl) rfl trivial) ⟨rfl, rfl⟩ trivial, ?_⟩
  intro h
  obtain ⟨e, he, -⟩ := h 0 .a 1 (by decide)
  exact absurd he (List.not_mem_nil)

set_option maxRecDepth 4000 in
/-- When the timer has moved the chart to `b`, the shutdown leaves no pointer behind. -/
theorem anchored_late : ∃ σ σ', System.Session (chart none) System.Released initial σ
    ∧ (σ.stores 0).timeouts .a = [1] ∧ System.Anchored σ
    ∧ System.Session (chart none) System.Released initial σ'
    ∧ σ'.timers.running = false ∧ System.Anchored σ' := by
  have hrun : ∀ {l σ}, System.execAll (chart none) 4 l initial = some σ →
      System.Session (chart none) System.Released initial σ := fun h =>
    .execAll (.refl initial) (fun _ _ _ _ => trivial) h
  have h₁ := fun {σ} => hrun (σ := σ) (l := [.start 0 (some 0)])
  have h₂ :=
    fun {σ} => hrun (σ := σ) (l := [.start 0 (some 0), .tick 100000000, .expire, .check, .deliver])
  have h₃ := System.Session.step .shutdown (h₂ rfl) rfl trivial
  have h₄ := System.Session.step .terminate h₃ ⟨rfl, rfl⟩ fun d x => by
    cases d with
    | zero => cases x <;> rfl
    | succ d => rfl
  exact ⟨_, _, h₁ rfl, rfl, System.anchored_of_released actionsKeepTimers (h₁ rfl), h₄, rfl,
    System.anchored_of_released actionsKeepTimers h₄⟩

end Forgetful

end CppStatecharts
