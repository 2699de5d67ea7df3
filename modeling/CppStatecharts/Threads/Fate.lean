import CppStatecharts.Threads.Delivery

/-!
What becomes of the entries of a chart, whatever the client's actions do.

* `System.Accounts`: what a step or a session does to the entries in the line.
* `System.accounted`: an entry is not lost for other reasons than those the source gives, and it is
  the worker's tests that drop it.
* `Timers.Halts`, `System.halted_of_shutdown`: a chart that is shut down stays so, and creates no
  entries.
-/

namespace CppStatecharts

variable {S T E P : Type}

namespace System

variable {σ σ' τ : System S T E P} {w w' : World S T E P} {e : EventQueueEntry S E}

/-- What is marked stays so; and what is in the line stays there, or it was dispatched, cancelled or
swept away by the shutdown, or else `D` says what happened to it. -/
structure Accounts (D : EventQueueEntry S E → Prop) (σ σ' : System S T E P) : Prop where
  grows : ∀ d, σ.dispatches d ⊆ σ'.dispatches d
  invalid : ∀ id ∈ σ.timers.invalid, id ∈ σ'.timers.invalid
  halted : σ.timers.running = false → σ'.timers.running = false
  kept : ∀ e ∈ σ.line, e ∈ σ'.line ∨ (∃ now, (e.id, now) ∈ σ'.dispatches e.data)
    ∨ e.id ∈ σ'.timers.invalid ∨ σ'.timers.running = false ∨ D e

/-- The idle worker is about to drop the entry, as its state is not active. -/
def Drops (σ : System S T E P) (e : EventQueueEntry S E) : Prop :=
  σ.worker = none ∧ (∃ pool, σ.pool = e :: pool) ∧ (σ.stores e.data).isActive e.state = false

variable {D D' : EventQueueEntry S E → Prop}

lemma Accounts.refl (σ : System S T E P) : Accounts D σ σ :=
  ⟨fun _ => List.Subset.refl _, fun _ hi => hi, id, fun _ => Or.inl⟩

lemma Accounts.trans (h : Accounts D σ τ) (h' : Accounts D τ σ') : Accounts D σ σ' := by
  refine ⟨fun d => List.Subset.trans (h.grows d) (h'.grows d),
    fun id hi => h'.invalid id (h.invalid id hi), fun hr => h'.halted (h.halted hr), fun e he => ?_⟩
  rcases h.kept e he with he | ⟨now, hm⟩ | hi | hr | hD
  · exact h'.kept e he
  · exact Or.inr (Or.inl ⟨now, h'.grows _ hm⟩)
  · exact Or.inr (Or.inr (Or.inl (h'.invalid _ hi)))
  · exact Or.inr (Or.inr (Or.inr (Or.inl (h'.halted hr))))
  · exact Or.inr (Or.inr (Or.inr (Or.inr hD)))

lemma Accounts.mono (h : Accounts D σ σ') (hD : ∀ e, D e → D' e) : Accounts D' σ σ' :=
  { h with kept := fun e he => (h.kept e he).imp id fun h => h.imp id fun h => h.imp id fun h =>
      h.imp id (hD e) }

/-- Nothing but the line has changed. -/
lemma Accounts.of_line (hd : ∀ d, σ'.dispatches d = σ.dispatches d)
    (hi : σ'.timers.invalid = σ.timers.invalid) (hr : σ.timers.running = false →
      σ'.timers.running = false)
    (hkept : ∀ e ∈ σ.line, e ∈ σ'.line ∨ e.id ∈ σ'.timers.invalid ∨ σ'.timers.running = false
      ∨ D e) : Accounts D σ σ' :=
  ⟨fun d => (hd d).symm ▸ List.Subset.refl _, fun _ hid => hi.symm ▸ hid, hr, fun e he =>
    (hkept e he).imp id Or.inr⟩

lemma accounts_put (hs : w.Files w') : Accounts D (σ.put w) (σ.put w') := by
  refine ⟨fun d => (dispatches_put hs.trace hs.dataId d).symm ▸ List.Subset.refl _,
    hs.timers.invalid, fun hr => hs.timers.running.trans hr, fun e he => ?_⟩
  simp only [line, System.put, List.mem_append] at he ⊢
  rcases he with he | he | he
  · exact Or.inl (Or.inl he)
  · exact Or.inl (Or.inr (Or.inl he))
  · exact (hs.timers.kept e he).imp (fun he => Or.inr (Or.inr he)) fun hi => Or.inr (Or.inl hi)

/-- A call files what it adds. -/
lemma accounts_world {d p : ℕ} (hs : (σ.world d p).Files w) : Accounts D σ (σ.put w) := by
  have hput := accounts_put (D := D) (σ := σ) hs
  rwa [put_world] at hput

lemma accounts_expire : Accounts D σ σ.expire := by
  obtain ⟨-, htr, hi, -⟩ := expire_frame σ
  refine .of_line (fun d => by rw [dispatches, htr]; rfl) hi (fun hr => ?_) fun e he => ?_
  · rcases expire_cases σ with h | ⟨e, q, -, -, h⟩
    · rwa [h]
    · rw [h]
      exact hr
  rcases expire_cases σ with h | ⟨e', q, -, hitems, h⟩
  · rw [h]
    exact Or.inl he
  simp only [line, hitems, List.mem_append, List.mem_cons] at he
  rw [h]
  simp only [line, List.mem_append]
  rcases he with he | he | rfl | he
  · exact Or.inl (Or.inl he)
  · refine Or.inl (Or.inr (Or.inl ?_))
    split
    · exact he
    · exact List.mem_append_left _ he
  · by_cases hid : e.id ∈ σ.timers.invalid
    · exact Or.inr (Or.inl hid)
    · refine Or.inl (Or.inr (Or.inl ?_))
      rw [if_neg hid]
      exact List.mem_append_right _ (List.mem_singleton_self e)
  · exact Or.inl (Or.inr (Or.inr he))

/-- The worker drops an entry that is invalid, or whose state is not active. -/
lemma accounts_check : Accounts (Drops σ) σ σ.check := by
  obtain ⟨ht, -, htr, -⟩ := check_frame σ
  refine .of_line (fun d => by rw [dispatches, htr]; rfl) (by rw [ht]) (fun hr => by rwa [ht])
    fun e he => ?_
  rw [ht]
  unfold System.check
  split
  swap
  · exact Or.inl he
  rename_i e' pool hworker hpool
  simp only [line, hworker, hpool, Option.toList_none, List.nil_append, List.cons_append,
    List.mem_cons] at he
  rcases he with rfl | he
  · split
    · exact Or.inl (by simp [line])
    · rename_i hdrop
      rw [not_and_or, not_not, Bool.not_eq_true] at hdrop
      exact Or.inr (hdrop.imp id fun hi => Or.inr ⟨hworker, ⟨pool, hpool⟩, hi⟩)
  · refine Or.inl ?_
    split
    · exact List.mem_append_right _ he
    · simpa [line, hworker] using he

lemma accounts_submit (c : Chart S T E P) (d : ℕ) (e : Option E) (p : Option ℕ) :
    Accounts D σ (σ.submit c d e p) := by
  rcases submit_cases c d e p σ with ⟨-, hσ⟩ | ⟨hrun, q, pool, hσ, hq⟩
  · rw [hσ]
    exact .refl σ
  rw [hσ]
  refine .of_line (fun _ => rfl) rfl (fun hr => hr) fun e' he' => Or.inl ?_
  simp only [line, List.mem_append] at he' ⊢
  rcases hq with ⟨rfl, rfl⟩ | ⟨rfl, rfl⟩
  · exact he'.imp id fun h => h.imp id fun he' => DelayQueue.mem_add.mpr (Or.inr he')
  · exact he'.imp id fun h => h.imp (fun he' => List.mem_append_left _ he') id

lemma accounts_cancelTimeout (entry : EventQueueEntry S E) :
    Accounts D σ (σ.cancelTimeout entry) := by
  have ht := Timers.Refiles.cancelTimeout σ.timers entry.id
  refine ⟨fun d => ?_, ht.invalid, fun hr => ht.running.trans hr, fun e he => ?_⟩
  · by_cases hd : d = entry.data
    · subst hd
      simp [dispatches, System.cancelTimeout, Obs.dispatch?]
    · simp [dispatches, System.cancelTimeout, hd]
  · simp only [line, List.mem_append] at he ⊢
    rcases he with he | he | he
    · exact Or.inl (Or.inl he)
    · exact Or.inl (Or.inr (Or.inl he))
    · exact (ht.kept e he).imp (fun he => Or.inr (Or.inr he)) fun hi => Or.inr (Or.inl hi)

lemma accounts_shutdown : Accounts D σ σ.shutdown := by
  unfold System.shutdown
  split
  · exact .of_line (fun _ => rfl) rfl (fun _ => rfl) fun e _ => Or.inr (Or.inr (Or.inl rfl))
  · exact .refl σ

section Steps

variable [DecidableEq S] [Inhabited P] {c : Chart S T E P} {op : Op S E} {r : Request S E}
variable {ok : Request S E → System S T E P → System S T E P → Prop}

omit [DecidableEq S] in
lemma accounts_argument (p : Option ℕ) : Accounts D σ (σ.argument p).2 := by
  cases p <;> exact .of_line (fun _ => rfl) rfl id fun _ => Or.inl

omit [DecidableEq S] in
lemma accounts_share (p : Shared) : Accounts D σ (σ.share p).2 := by
  cases p with
  | new => exact accounts_argument none
  | given p => exact .refl σ

/-- The worker's entry is dispatched, and the others stay. -/
lemma accounts_deliver (hs : Deliver c σ σ') : Accounts D σ σ' := by
  obtain ⟨e, q, τ, n, o, w', he, -, ⟨ht, -, htr, hpool, hworker⟩, h₂, rfl⟩ := hs.cases
  have hfiles := accounts_put (D := D) (σ := τ) (files_dispatch h₂)
  refine .trans ⟨fun d => ?_, ?_, ?_, fun e' he' => ?_⟩ hfiles
  · by_cases hd : d = e.data
    · subst hd
      simp [dispatches, System.put, world, World.log, htr, Obs.dispatch?]
    · simp [dispatches, System.put, world, World.log, htr, hd]
  · simp [System.put, world, World.log, ht]
  · simp [System.put, world, World.log, ht]
  · simp only [line, he, Option.toList_some, List.singleton_append, List.mem_cons] at he'
    rcases he' with rfl | he'
    · refine Or.inr (Or.inl ⟨σ.timers.now, ?_⟩)
      simp [dispatches, System.put, world, World.log, Obs.dispatch?]
    · refine Or.inl ?_
      simpa [line, System.put, world, World.log, hworker, hpool, ht] using he'

lemma accounts_call {d : ℕ} {p : Option ℕ} (hop : op.call = some (d, p)) (hs : Step c op σ σ') :
    Accounts D σ σ' := by
  obtain ⟨w', hw, rfl⟩ := files_call hop hs
  exact (accounts_argument p).trans (accounts_world hw)

/-- The steps in which the worker makes its tests. -/
def Tests (r : Request S E) : Prop := r = .op .check ∨ r = .op .work

/-- Only the worker's tests drop an entry. -/
lemma accounts_step (hs : Step c op σ σ') :
    Accounts (fun e => Tests (.op op) ∧ σ.Drops e) σ σ' := by
  cases op with
  | start d p => exact accounts_call (p := p) rfl hs
  | restoreState s d p => exact accounts_call (p := some p) rfl hs
  | dispatch d e p => exact accounts_call (p := p) rfl hs
  | tick ns =>
      obtain rfl := hs
      exact .of_line (fun _ => rfl) rfl id fun _ => Or.inl
  | expire =>
      obtain rfl := hs
      exact accounts_expire
  | check =>
      obtain rfl := hs
      exact accounts_check.mono fun e hdrop => ⟨Or.inl rfl, hdrop⟩
  | deliver => exact accounts_deliver hs
  | work =>
      have hcheck : Accounts (fun e => Tests (.op (.work : Op S E)) ∧ σ.Drops e) σ σ.check :=
        accounts_check.mono fun e hdrop => ⟨Or.inr rfl, hdrop⟩
      obtain ⟨-, ⟨-, rfl⟩ | hd⟩ := hs
      · exact hcheck
      · exact hcheck.trans (accounts_deliver hd)

lemma accounts_serves (hs : Serves c r σ σ') : Accounts (fun e => Tests r ∧ σ.Drops e) σ σ' := by
  cases r with
  | op op => exact accounts_step hs
  | startAsynchron d p =>
      obtain rfl := hs
      exact (accounts_share p).trans
        ((accounts_world (files_enter (c := c) _)).trans (accounts_submit c d none _))
  | dispatchAsynchron d e p =>
      obtain rfl := hs
      exact (accounts_share p).trans (accounts_submit c d e _)
  | cancelTimeout entry =>
      obtain ⟨-, rfl⟩ := hs
      exact accounts_cancelTimeout entry
  | shutdown =>
      obtain rfl := hs
      exact accounts_shutdown
  | terminate =>
      obtain ⟨-, rfl⟩ := hs
      exact .of_line (fun _ => rfl) rfl id fun _ => Or.inl

/-- **Every entry is accounted for.** An entry that is on its way at some time is so later on, too,
or it was dispatched or marked invalid, or the chart was shut down, or the worker has dropped it in
its tests, made at a moment at which its state was not active. -/
theorem accounted (h : Session c ok σ σ') (he : e ∈ σ.outstanding) : e ∈ σ'.outstanding
    ∨ (∃ now, (e.id, now) ∈ σ'.dispatches e.data) ∨ e.id ∈ σ'.timers.invalid
    ∨ σ'.timers.running = false
    ∨ ∃ r σ₁ σ₂, Tests r ∧ Session c ok σ σ₁ ∧ σ₁.Drops e ∧ Serves c r σ₁ σ₂
      ∧ Session c ok σ₂ σ' := by
  have key : Accounts (fun e => ∃ r σ₁ σ₂, Tests r ∧ Session c ok σ σ₁ ∧ σ₁.Drops e
      ∧ Serves c r σ₁ σ₂ ∧ Session c ok σ₂ σ') σ σ' := by
    induction h with
    | refl => exact .refl _
    | @step σ₁ σ₂ r h hr hok ih =>
        refine .trans (ih.mono ?_) ((accounts_serves hr).mono fun e hdrop => ?_)
        · rintro e ⟨r', τ₁, τ₂, htests, h₁, hdrop, h₂, h₃⟩
          exact ⟨r', τ₁, τ₂, htests, h₁, hdrop, h₂, .step r h₃ hr hok⟩
        · exact ⟨r, σ₁, σ₂, hdrop.1, h, hdrop.2, hr, .refl _⟩
  exact (key.kept e (mem_line.mpr he)).imp mem_line.mp id

/-! ### After the shutdown -/

end Steps

end System

/-- A shutdown is final: no number is given away any more, and the queue stays empty. -/
structure Timers.Halts (tm tm' : Timers S E) : Prop where
  running : tm.running = false → tm'.running = false ∧ tm'.nextId = tm.nextId
  empty : (tm.running = false → tm.timeoutQueue.items = []) →
    tm'.running = false → tm'.timeoutQueue.items = []

namespace Timers.Halts

variable {tm tm₁ tm' : Timers S E}

lemma refl (tm : Timers S E) : tm.Halts tm := ⟨fun h => ⟨h, rfl⟩, id⟩

lemma trans (h : tm.Halts tm₁) (h' : tm₁.Halts tm') : tm.Halts tm' where
  running hr := by
    obtain ⟨hr₁, hn₁⟩ := h.running hr
    obtain ⟨hr', hn'⟩ := h'.running hr₁
    exact ⟨hr', hn'.trans hn₁⟩
  empty hq := h'.empty (h.empty hq)

lemma of_refiles (h : tm.Refiles tm') (hq : tm.Queued) : tm.Halts tm' where
  running hr := ⟨h.running.trans hr, h.halted hr⟩
  empty hempty hr' := by
    have hr : tm.running = false := h.running.symm.trans hr'
    refine List.eq_nil_iff_forall_not_mem.mpr fun e he => ?_
    have hold := h.renews.mem he ((h.queued hq).used e he |>.trans_eq (h.halted hr))
    rw [hempty hr] at hold
    cases hold

/-- As long as the chart runs, anything may happen that leaves it running. -/
lemma of_running (hr : tm.running = true) (hr' : tm'.running = true) : tm.Halts tm' where
  running h := absurd (hr.symm.trans h) (by simp)
  empty _ h := absurd (hr'.symm.trans h) (by simp)

end Timers.Halts

namespace System

variable {σ σ' : System S T E P} {L : Service S E}

lemma halts_expire (σ : System S T E P) : σ.timers.Halts σ.expire.timers := by
  rcases expire_cases σ with h | ⟨e, q, hrun, -, h⟩
  · rw [h]
    exact .refl _
  · rw [h]
    exact .of_running hrun hrun

lemma halts_submit (c : Chart S T E P) (d : ℕ) (e : Option E) (p : Option ℕ)
    (σ : System S T E P) : σ.timers.Halts (σ.submit c d e p).timers := by
  rcases submit_cases c d e p σ with ⟨-, h⟩ | ⟨hrun, q, pool, h, -⟩
  · rw [h]
    exact .refl _
  · rw [h]
    exact .of_running hrun hrun

lemma halts_shutdown (σ : System S T E P) : σ.timers.Halts σ.shutdown.timers := by
  unfold System.shutdown
  split
  · rename_i hrun
    exact ⟨fun h => absurd (hrun.symm.trans h) (by simp), fun _ _ => rfl⟩
  · exact .refl _

section Steps

variable [DecidableEq S] [Inhabited P] {c : Chart S T E P} {op : Op S E} {r : Request S E}
variable {ok ok' : Request S E → System S T E P → System S T E P → Prop}
variable {params : ℕ → P} {nextParam : ℕ}

lemma halts_deliver (hq : σ.timers.Queued) (hs : Deliver c σ σ') :
    σ.timers.Halts σ'.timers := by
  obtain ⟨e, q, τ, n, o, w', -, -, ⟨ht, -⟩, h₂, rfl⟩ := hs.cases
  have hfiles := (files_dispatch h₂).timers
  simp only [World.log, world, ht] at hfiles
  exact .of_refiles hfiles hq

lemma halts_step (hq : σ.timers.Queued) (hs : Step c op σ σ') : σ.timers.Halts σ'.timers := by
  have hcall : ∀ d p, op.call = some (d, p) → σ.timers.Halts σ'.timers := by
    intro d p hop
    obtain ⟨w', hw, rfl⟩ := files_call hop hs
    have hfiles := hw.timers
    simp only [world, (argument_frame σ p).1] at hfiles
    exact .of_refiles hfiles hq
  cases op with
  | start d p => exact hcall d p rfl
  | restoreState s d p => exact hcall d (some p) rfl
  | dispatch d e p => exact hcall d p rfl
  | tick ns =>
      obtain rfl := hs
      exact ⟨fun h => ⟨h, rfl⟩, id⟩
  | expire =>
      obtain rfl := hs
      exact halts_expire σ
  | check =>
      obtain rfl := hs
      rw [(check_frame σ).1]
      exact .refl _
  | deliver => exact halts_deliver hq hs
  | work =>
      obtain ⟨-, ⟨-, rfl⟩ | hd⟩ := hs
      · rw [(check_frame σ).1]
        exact .refl _
      · have ht := (check_frame σ).1
        exact ht ▸ halts_deliver (ht.symm ▸ hq) hd

lemma halts_serves (hq : σ.timers.Queued) (hs : Serves c r σ σ') : σ.timers.Halts σ'.timers := by
  have hshare : ∀ p, (σ.share p).2.timers = σ.timers := fun p => by cases p <;> rfl
  cases r with
  | op op => exact halts_step hq hs
  | startAsynchron d p =>
      obtain rfl := hs
      have henter : ((σ.share p).2.put (Statechart.enter c ((σ.share p).2.world d 0))).timers
          = σ.timers := (timers_enter _).trans (hshare p)
      exact henter ▸ halts_submit c d none _ _
  | dispatchAsynchron d e p =>
      obtain rfl := hs
      exact hshare p ▸ halts_submit c d e _ _
  | cancelTimeout entry =>
      obtain ⟨-, rfl⟩ := hs
      exact .of_refiles (.cancelTimeout σ.timers entry.id) hq
  | shutdown =>
      obtain rfl := hs
      exact halts_shutdown σ
  | terminate =>
      obtain ⟨-, rfl⟩ := hs
      exact ⟨fun h => ⟨h, rfl⟩, id⟩

lemma Shows.halts (h : Shows σ L) (hs : Session c ok σ σ') : σ.timers.Halts σ'.timers := by
  induction hs with
  | refl => exact .refl _
  | step r hs hr _ ih =>
      obtain ⟨L', -, hL'⟩ := h.session hs
      exact ih.trans (halts_serves hL'.queued hr)

/-- **Nothing new after a shutdown.** A chart that is shut down stays so, creates no entries, and
has an empty queue; what the worker still dispatches was with it or in the pool, in this order. -/
theorem halted_of_shutdown (h : Session c ok (fresh params nextParam) σ)
    (hrun : σ.timers.running = false) (h' : Session c ok' σ σ') : σ'.timers.running = false
      ∧ σ'.timers.nextId = σ.timers.nextId ∧ σ'.timers.timeoutQueue.items = []
      ∧ (σ'.worker.toList ++ σ'.pool).Sublist (σ.worker.toList ++ σ.pool)
      ∧ ∀ d, ∀ q ∈ σ'.dispatches d, q ∈ σ.dispatches d
        ∨ ∃ e ∈ σ.worker.toList ++ σ.pool, e.data = d ∧ e.id = q.1 := by
  obtain ⟨L, hL⟩ := exists_shows h
  obtain ⟨L', hsteps, hL'⟩ := hL.session h'
  have hadv := Line.advances_of_steps hsteps
  have hempty : σ.timers.timeoutQueue.items = [] :=
    ((shows_fresh params nextParam).halts h).empty (fun _ => rfl) hrun
  obtain ⟨hrun', hn⟩ := (hL.halts h').running hrun
  have hempty' := (hL.halts h').empty (fun _ => hempty) hrun'
  have hline : ∀ {τ : System S T E P}, τ.timers.timeoutQueue.items = [] →
      τ.line = τ.worker.toList ++ τ.pool := fun hτ => by rw [line, hτ, List.append_nil]
  -- no number is new, so that the whole history is old
  have hhistory : L'.history.Sublist L.history := by
    have hall : ∀ e ∈ L'.history, e.id < L.next := fun e he => by
      rw [hL.next, ← hn, ← hL'.next]
      exact L'.used e he
    have hsub := hadv.history
    rwa [Renews, List.filter_eq_self.mpr fun e he => by simpa using hall e he] at hsub
  obtain ⟨done, hdone⟩ := hadv.served
  have hrest : (done.map Prod.fst ++ L'.waiting).Sublist L.waiting := by
    rw [Line.history, Line.history, ← hdone, List.map_append, List.append_assoc] at hhistory
    exact (List.append_sublist_append_left _).mp hhistory
  rw [hL.waiting, hL'.waiting, hline hempty, hline hempty'] at hrest
  refine ⟨hrun', hn, hempty', (List.sublist_append_right _ _).trans hrest, fun d q hq => ?_⟩
  obtain ⟨e, now, hp, hd, rfl⟩ := hL'.mem_dispatches.mp hq
  rw [← hdone] at hp
  rcases List.mem_append.mp hp with hp | hp
  · exact Or.inl (hL.mem_dispatches.mpr ⟨e, now, hp, hd, rfl⟩)
  · exact Or.inr ⟨e, hrest.subset (List.mem_append_left _ (List.mem_map_of_mem hp)), hd, rfl⟩

end Steps

end System

namespace Forgetful

set_option maxRecDepth 4000 in
/-- The timer of `a` is in the queue, or in the pool, until it is dispatched. -/
theorem accounted_late : ∃ σ σ', System.Session (chart none) Anything σ σ'
    ∧ timer ∈ σ.outstanding ∧ timer ∉ σ'.outstanding
    ∧ (timer ∈ σ'.outstanding ∨ (∃ now, (1, now) ∈ σ'.dispatches 0) ∨ 1 ∈ σ'.timers.invalid
      ∨ σ'.timers.running = false
      ∨ ∃ r σ₁ σ₂, System.Tests r ∧ System.Session (chart none) Anything σ σ₁ ∧ σ₁.Drops timer
        ∧ System.Serves (chart none) r σ₁ σ₂ ∧ System.Session (chart none) Anything σ₂ σ') := by
  obtain ⟨h₁, -⟩ := session_of_execAll [.start 0 (some 0)] (.refl initial) rfl
  obtain ⟨-, h⟩ := session_of_execAll [.tick 100000000, .expire, .check, .deliver] h₁ rfl
  have hmem : timer ∈ [timer] := List.mem_cons_self
  exact ⟨_, _, h, hmem, List.not_mem_nil, System.accounted h hmem⟩

set_option maxRecDepth 4000 in
/-- The chart is shut down while the timer of `a` is in the pool, and entered once more after. -/
theorem halted_late : ∃ σ σ', System.Session (chart none) Anything initial σ
    ∧ System.Session (chart none) Anything σ σ' ∧ (σ'.stores 1).isActive .a = true
    ∧ σ'.timers.running = false ∧ σ'.timers.nextId = σ.timers.nextId
    ∧ σ'.timers.timeoutQueue.items = []
    ∧ (σ'.worker.toList ++ σ'.pool).Sublist (σ.worker.toList ++ σ.pool) := by
  obtain ⟨h₁, -⟩ :=
    session_of_execAll [.start 0 (some 0), .tick 100000000, .expire] (.refl initial) rfl
  have h := System.Session.step .shutdown h₁ rfl trivial
  obtain ⟨-, h'⟩ := session_of_execAll [.start 1 (some 0), .check] h rfl
  obtain ⟨hrun', hn, hempty, hsub, -⟩ := System.halted_of_shutdown h rfl h'
  exact ⟨_, _, h, h', rfl, hrun', hn, hempty, hsub⟩

end Forgetful

end CppStatecharts
