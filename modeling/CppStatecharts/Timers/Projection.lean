import CppStatecharts.Timers.Isolation

/-!
A chart that works for several metadata, seen from one of them.

* `System.Does`: a step, with what a call returns.
* `System.Concerns`: whether a step is about the metadata `d`; the passing of time is.
* `Report`, `System.Observed`: what is observed on `d` along a run: the operations that concern it,
  what they return, the configuration, the actions executed so far and the outstanding timers.
* `System.Projects`: the same chart when it works for `d` alone.
* `observed_alone`: what is observed on `d` is what is observed when all other operations are left
  out. A client that looks at the identifiers of its timers can tell: `Curious.not_observed_alone`.
-/

namespace CppStatecharts

variable {S T E P : Type} [DecidableEq S] [Inhabited P]

/-- What is observed on a metadata after an operation. -/
structure Report (S T E : Type) where
  op : Op S E
  outcome : Option Outcome
  config : Metadata S
  actions : List (Obs S T)
  timers : List (EventQueueEntry S E)

namespace System

variable (c : Chart S T E P)

/-- A step and the value that a call returns. -/
def Does : Op S E → System S T E P → Option Outcome → System S T E P → Prop
  | .start d p, σ, o, σ' => ∃ a w', o = some a
      ∧ Returned (Statechart.start c) ((σ.argument p).2.world d (σ.argument p).1) a w'
      ∧ σ' = (σ.argument p).2.put w'
  | .dispatch d e p, σ, o, σ' => ∃ a w', o = some a
      ∧ Returned (fun n => Statechart.dispatch c n e)
        ((σ.argument p).2.world d (σ.argument p).1) a w'
      ∧ σ' = (σ.argument p).2.put w'
  | op, σ, o, σ' => o = none ∧ Step c op σ σ'

variable {c}

omit [DecidableEq S] [Inhabited P] in
/-- The operation is about the metadata `d`: a call on it, or a step of a thread with one of its
entries. Time passes for all. -/
def Concerns (d : ℕ) (σ : System S T E P) : Op S E → Prop
  | .start d' _ | .dispatch d' _ _ | .restoreState _ d' _ => d' = d
  | .tick _ => True
  | .expire => ∃ e ∈ σ.timers.timeoutQueue.items.head?, e.data = d
  | .check | .work => σ.worker = none ∧ ∃ e ∈ σ.pool.head?, e.data = d
  | .deliver => ∃ e ∈ σ.worker, e.data = d

/-- The timers of `d` that are still to fire: queued, with the pool or with the worker, and not
invalid. Their identifiers are not shown. -/
def timersOf (σ : System S T E P) (d : ℕ) : List (EventQueueEntry S E) :=
  (σ.outstanding.filter fun e => e.data = d ∧ e.id ∉ σ.timers.invalid).map
    fun e => { e with id := 0 }

def report (d : ℕ) (op : Op S E) (o : Option Outcome) (σ : System S T E P) : Report S T E where
  op := op
  outcome := o
  config := (σ.stores d).untimed
  actions := Obs.performed (σ.traces d)
  timers := σ.timersOf d

variable (c) in
/-- A run whose steps satisfy `ok`, with what is observed on `d`. -/
inductive Observed (ok : Op S E → System S T E P → Prop) (d : ℕ) :
    List (Report S T E) → System S T E P → System S T E P → Prop
  | refl (σ : System S T E P) : Observed ok d [] σ σ
  | own {l σ σ₁ σ' op o} : Observed ok d l σ σ₁ → Does c op σ₁ o σ' → ok op σ₁ → Concerns d σ₁ op →
      Observed ok d (l ++ [report d op o σ']) σ σ'
  | other {l σ σ₁ σ' op o} : Observed ok d l σ σ₁ → Does c op σ₁ o σ' → ok op σ₁ →
      ¬ Concerns d σ₁ op → Observed ok d l σ σ'

/-- The calls on `d`, and no others, are made with the parameters `own`. -/
def Separate (d : ℕ) (own : ℕ → Prop) : Op S E → Prop
  | .start d' p | .dispatch d' _ p => ∃ q, p = some q ∧ (own q ↔ d' = d)
  | .restoreState .. => False
  | _ => True

/-- The system `τ` is what is left of `σ` when only the metadata `d`, with the parameters `own`, is
there. -/
structure Projects (d : ℕ) (own : ℕ → Prop) (mine : ℕ → Bool) (ρ : ℕ → ℕ) (σ τ : System S T E P) :
    Prop where
  mirror : Timers.Mirror d own mine ρ σ.timers τ.timers
  data : τ.stores d = (σ.stores d).rename ρ
  listed : ∀ x, ∀ id ∈ (σ.stores d).timeouts x, mine id = true
  others : ∀ d' ≠ d, ∀ x, ∀ id ∈ (σ.stores d').timeouts x, id < σ.timers.nextId ∧ mine id = false
  pool : τ.pool = CppStatecharts.mirror mine ρ σ.pool
  worker : τ.worker.toList = CppStatecharts.mirror mine ρ σ.worker.toList
  belongs : ∀ e ∈ σ.pool ++ σ.worker.toList, Timers.Belongs d own mine σ.timers.nextId e
  params : ∀ p, own p → τ.params p = σ.params p
  performed : Obs.performed (τ.traces d) = Obs.performed (σ.traces d)

variable {σ σ' τ : System S T E P} {d : ℕ} {own : ℕ → Prop} {mine : ℕ → Bool} {ρ : ℕ → ℕ}
variable {w' v' : World S T E P}

/-! ### Calls -/

omit [DecidableEq S] [Inhabited P] in
lemma Projects.echo (h : Projects d own mine ρ σ τ) {p : ℕ} (hp : own p) :
    (σ.world d p).Echo d own σ.timers.nextId mine ρ (τ.world d p) where
  renamed := ⟨mine, ρ, fun _ _ => ⟨rfl, rfl⟩, h.mirror, h.data, h.listed⟩
  bound := le_rfl
  dataId := ⟨rfl, rfl⟩
  paramId := rfl
  own := hp
  param := h.params p hp
  performed := h.performed

omit [DecidableEq S] [Inhabited P] in
/-- After a call on `d`, on both sides. -/
lemma Projects.put (h : Projects d own mine ρ σ τ)
    (he : w'.Echo d own σ.timers.nextId mine ρ v') :
    ∃ mine' ρ', Projects d own mine' ρ' (σ.put w') (τ.put v') := by
  obtain ⟨mine', ρ', hold, htimers, hdata, hlisted⟩ := he.renamed
  obtain ⟨hd, hd'⟩ := he.dataId
  have hcongr : ∀ l : List (EventQueueEntry S E),
      (∀ e ∈ l, Timers.Belongs d own mine σ.timers.nextId e) →
      CppStatecharts.mirror mine' ρ' l = CppStatecharts.mirror mine ρ l := fun l hl =>
    mirror_congr fun e he => hold _ (hl e he).1
  refine ⟨mine', ρ', htimers, ?_, ?_, ?_, ?_, ?_, ?_, ?_, ?_⟩
  · simpa [System.put, hd, hd'] using hdata
  · simpa [System.put, hd] using hlisted
  · intro d' hne x id hid
    obtain ⟨hlt, hmine⟩ := h.others d' hne x id (by simpa [System.put, hd, hne] using hid)
    exact ⟨hlt.trans_le he.bound, ((hold id hlt).1).trans hmine⟩
  · exact h.pool.trans (hcongr _ fun e he => h.belongs e (List.mem_append_left _ he)).symm
  · exact h.worker.trans (hcongr _ fun e he => h.belongs e (List.mem_append_right _ he)).symm
  · intro e hmem
    have hb := h.belongs e hmem
    refine ⟨hb.1.trans_le he.bound, ?_, hb.2.2⟩
    rw [(hold _ hb.1).1]
    exact hb.2.1
  · intro p hp
    by_cases hpw : p = w'.paramId
    · subst hpw
      simp [System.put, he.paramId, he.param]
    · simpa [System.put, he.paramId, hpw] using h.params p hp
  · simpa [System.put, hd, hd'] using he.performed

omit [DecidableEq S] [Inhabited P] in
/-- A call on `d` that is the same on both sides. -/
lemma Projects.call {α : Type} {f f' : ℕ → Comp (World S T E P) α} {a : α} {p : ℕ}
    (h : Projects d own mine ρ σ τ) (hp : own p)
    (hf : ∀ n, Simulates (World.Echo d own σ.timers.nextId mine ρ) (f n) (f' n))
    (hr : Returned f (σ.world d p) a w') :
    ∃ v' mine' ρ', Returned f' (τ.world d p) a v'
      ∧ Projects d own mine' ρ' (σ.put w') (τ.put v') := by
  obtain ⟨v', hv, he⟩ := Simulates.returned hf (h.echo hp) hr
  obtain ⟨mine', ρ', hput⟩ := h.put he
  exact ⟨v', mine', ρ', hv, hput⟩

omit [DecidableEq S] [Inhabited P] in
/-- A call on another metadata, with another parameter. -/
lemma Projects.call_other {α : Type} {f : ℕ → Comp (World S T E P) α} {a : α} {d' p : ℕ}
    (h : Projects d own mine ρ σ τ) (hd : d' ≠ d) (hp : ¬ own p)
    (hf : ∀ n, Keeps (World.Apart d own mine ρ) (f n)) (hr : Returned f (σ.world d' p) a w') :
    Projects d own mine ρ (σ.put w') τ := by
  obtain ⟨n, hn⟩ := hr
  obtain ⟨hid, hpid, hx⟩ := hf n _ _ _ hn
  have hid : w'.dataId = d' := hid
  have hpid : w'.paramId = p := hpid
  obtain ⟨hmirror, hbound, hothers⟩ := hx hd hp τ.timers h.mirror (h.others d' hd)
  refine ⟨hmirror, ?_, ?_, ?_, h.pool, h.worker, fun e he => (h.belongs e he).mono hbound, ?_, ?_⟩
  · simpa [System.put, hid, hd.symm] using h.data
  · simpa [System.put, hid, hd.symm] using h.listed
  · intro d'' hne x id hmem
    by_cases hdd : d'' = d'
    · subst hdd
      exact hothers x id (by simpa [System.put, hid] using hmem)
    · obtain ⟨hlt, hm⟩ := h.others d'' hne x id (by simpa [System.put, hid, hdd] using hmem)
      exact ⟨hlt.trans_le hbound, hm⟩
  · intro q hq
    have hne : q ≠ p := fun heq => hp (heq ▸ hq)
    simpa [System.put, hpid, hne] using h.params q hq
  · simpa [System.put, hid, hd.symm] using h.performed

/-! ### The timeout thread -/

omit [DecidableEq S] [Inhabited P] in
/-- Entries that are only moved. -/
lemma Projects.moved (h : Projects d own mine ρ σ τ) {items pool : List (EventQueueEntry S E)}
    {worker worker' : Option (EventQueueEntry S E)} {items' pool' : List (EventQueueEntry S E)}
    (hsub : items.Sublist σ.timers.timeoutQueue.items)
    (hmem : ∀ e ∈ pool ++ worker.toList,
      e ∈ σ.timers.timeoutQueue.items ∨ e ∈ σ.pool ++ σ.worker.toList)
    (hitems : items' = CppStatecharts.mirror mine ρ items)
    (hpool : pool' = CppStatecharts.mirror mine ρ pool)
    (hworker : worker'.toList = CppStatecharts.mirror mine ρ worker.toList) :
    Projects d own mine ρ
      { σ with
        timers := { σ.timers with timeoutQueue := { σ.timers.timeoutQueue with items := items } }
        pool := pool
        worker := worker }
      { τ with
        timers := { τ.timers with timeoutQueue := { τ.timers.timeoutQueue with items := items' } }
        pool := pool'
        worker := worker' } := by
  have hm := h.mirror
  refine ⟨?_, h.data, h.listed, h.others, hpool, hworker, fun e he => ?_, h.params, h.performed⟩
  · refine { hm with ordered := hm.ordered.sublist hsub, belongs := fun e he => hm.belongs e ?_,
                     queue := hitems }
    exact (List.mem_append.mp he).elim (List.mem_append_left _)
      fun he => List.mem_append_right _ (hsub.subset he)
  · exact (hmem e he).elim (fun he => hm.belongs e (List.mem_append_right _ he)) (h.belongs e)

omit [DecidableEq S] [Inhabited P] in
/-- A round of the timeout thread of a chart that is not shut down. -/
lemma expire_eq (hrun : σ.timers.running = true) (hs : σ.timers.timeoutQueue.stopped = false) :
    σ.expire = match σ.timers.timeoutQueue.items with
      | [] => σ
      | e :: items => if e.deadline ≤ σ.timers.now then
          { σ with
            timers := { σ.timers with
              timeoutQueue := { σ.timers.timeoutQueue with items := items } }
            pool := if e.id ∈ σ.timers.invalid then σ.pool else σ.pool ++ [e] }
        else σ := by
  unfold System.expire DelayQueue.take
  rw [if_pos hrun, hs]
  cases σ.timers.timeoutQueue.items with
  | nil => rfl
  | cons e items =>
      by_cases hdl : e.deadline ≤ σ.timers.now
      · by_cases hinv : e.id ∈ σ.timers.invalid <;> simp [hdl, hinv, hs]
      · simp [hdl]

omit [DecidableEq S] [Inhabited P] in
lemma Projects.expire_own (h : Projects d own mine ρ σ τ) (hcon : Concerns d σ .expire) :
    Concerns d τ .expire ∧ Projects d own mine ρ σ.expire τ.expire := by
  obtain ⟨e, he, hd⟩ := hcon
  have hm := h.mirror
  obtain ⟨items, hitems⟩ : ∃ items, σ.timers.timeoutQueue.items = e :: items :=
    List.head?_eq_some_iff.mp he
  have hmine : mine e.id = true :=
    (hm.belongs e (List.mem_append_right _ (hitems ▸ List.mem_cons_self))).2.1.mpr hd
  have hitems' := hm.queue
  rw [hitems, mirror_cons_of_mine hmine] at hitems'
  refine ⟨⟨{ e with id := ρ e.id }, by rw [hitems']; rfl, hd⟩, ?_⟩
  rw [expire_eq hm.running.1 hm.stopped.1, expire_eq hm.running.2 hm.stopped.2, hitems, hitems']
  have hdue : (e.deadline ≤ τ.timers.now) = (e.deadline ≤ σ.timers.now) := by rw [hm.now]
  simp only [hdue, hm.invalid e.id hmine]
  split
  swap
  · exact h
  refine h.moved (hitems ▸ List.sublist_cons_self e items) (fun x hx => ?_) rfl ?_ h.worker
  · split at hx
    · exact Or.inr hx
    · simp only [List.mem_append, List.mem_singleton] at hx ⊢
      rcases hx with (hx | rfl) | hx
      · exact Or.inr (Or.inl hx)
      · exact Or.inl (hitems ▸ List.mem_cons_self)
      · exact Or.inr (Or.inr hx)
  · split
    · exact h.pool
    · rw [h.pool, mirror_append, mirror_cons_of_mine hmine, mirror_nil]

omit [DecidableEq S] [Inhabited P] in
lemma Projects.expire_other (h : Projects d own mine ρ σ τ) (hcon : ¬ Concerns d σ .expire) :
    Projects d own mine ρ σ.expire τ := by
  have hm := h.mirror
  rw [expire_eq hm.running.1 hm.stopped.1]
  cases hitems : σ.timers.timeoutQueue.items with
  | nil => exact h
  | cons e items =>
      have hne : e.data ≠ d := fun hd => hcon ⟨e, by rw [hitems]; rfl, hd⟩
      have hmine : mine e.id = false := by
        have hb := (hm.belongs e (List.mem_append_right _ (hitems ▸ List.mem_cons_self))).2.1
        by_contra hmine
        exact hne (hb.mp (by simpa using hmine))
      have hqueue := hm.queue
      rw [hitems, mirror_cons_of_not_mine hmine] at hqueue
      simp only
      split
      swap
      · exact h
      refine h.moved (hitems ▸ List.sublist_cons_self e items) (fun x hx => ?_) hqueue ?_ h.worker
      · split at hx
        · exact Or.inr hx
        · simp only [List.mem_append, List.mem_singleton] at hx ⊢
          rcases hx with (hx | rfl) | hx
          · exact Or.inr (Or.inl hx)
          · exact Or.inl (hitems ▸ List.mem_cons_self)
          · exact Or.inr (Or.inr hx)
      · split
        · exact h.pool
        · rw [h.pool, mirror_append, mirror_cons_of_not_mine hmine, mirror_nil, List.append_nil]

/-! ### The worker -/

omit [DecidableEq S] [Inhabited P] in
lemma Projects.check_own (h : Projects d own mine ρ σ τ) (hcon : Concerns d σ .check) :
    Concerns d τ .check ∧ Projects d own mine ρ σ.check τ.check := by
  obtain ⟨hworker, e, he, hd⟩ := hcon
  obtain ⟨pool, hpool⟩ : ∃ pool, σ.pool = e :: pool := List.head?_eq_some_iff.mp he
  have hmine : mine e.id = true :=
    (h.belongs e (List.mem_append_left _ (hpool ▸ List.mem_cons_self))).2.1.mpr hd
  have hpool' := h.pool
  rw [hpool, mirror_cons_of_mine hmine] at hpool'
  have hworker' : τ.worker = none := by
    have hw := h.worker
    rw [hworker] at hw
    exact Option.toList_eq_nil_iff.mp hw
  refine ⟨⟨hworker', { e with id := ρ e.id }, by rw [hpool']; rfl, hd⟩, ?_⟩
  have hactive : (τ.stores e.data).isActive e.state = (σ.stores e.data).isActive e.state := by
    rw [hd, h.data, Metadata.rename, Metadata.isActive_mapTimeouts]
  unfold System.check
  rw [hworker, hpool, hworker', hpool']
  simp only [h.mirror.invalid e.id hmine, hactive]
  split
  · refine h.moved (List.Sublist.refl _) (fun x hx => Or.inr ?_) h.mirror.queue rfl ?_
    · simp only [hpool, List.mem_append, List.mem_cons, Option.mem_toList, Option.some.injEq]
        at hx ⊢
      tauto
    · simp [mirror_cons_of_mine hmine]
  · refine h.moved (List.Sublist.refl _) (fun x hx => Or.inr ?_) h.mirror.queue rfl rfl
    simp only [hpool, List.mem_append, List.mem_cons] at hx ⊢
    tauto

omit [DecidableEq S] [Inhabited P] in
lemma Projects.check_other (h : Projects d own mine ρ σ τ) (hcon : ¬ Concerns d σ .check) :
    Projects d own mine ρ σ.check τ := by
  unfold System.check
  split
  swap
  · exact h
  rename_i e pool hworker hpool
  have hmine : mine e.id = false := by
    have hb := (h.belongs e (List.mem_append_left _ (hpool ▸ List.mem_cons_self))).2.1
    by_contra hmine
    exact hcon ⟨hworker, e, by rw [hpool]; rfl, hb.mp (by simpa using hmine)⟩
  have hpool' := h.pool
  rw [hpool, mirror_cons_of_not_mine hmine] at hpool'
  have hworker' := h.worker
  rw [hworker] at hworker'
  split
  · refine h.moved (List.Sublist.refl _) (fun x hx => Or.inr ?_) h.mirror.queue hpool' ?_
    · simp only [hpool, List.mem_append, List.mem_cons, Option.mem_toList, Option.some.injEq]
        at hx ⊢
      tauto
    · rw [hworker', Option.toList_some, mirror_cons_of_not_mine hmine]
      rfl
  · refine h.moved (List.Sublist.refl _) (fun x hx => Or.inr ?_) h.mirror.queue hpool' ?_
    · simp only [hpool, List.mem_append, List.mem_cons] at hx ⊢
      tauto
    · rw [hworker', hworker]

omit [DecidableEq S] [Inhabited P] in
/-- The worker leaves its entry. -/
lemma Projects.idle (h : Projects d own mine ρ σ τ) :
    Projects d own mine ρ { σ with worker := none } { τ with worker := none } :=
  h.moved (List.Sublist.refl _) (fun e he => Or.inr (List.mem_append_left _ (by simpa using he)))
    h.mirror.queue h.pool rfl

omit [DecidableEq S] [Inhabited P] in
/-- What the tests have let through was the first entry of the pool. -/
lemma head_of_check {e : EventQueueEntry S E} (hw : σ.worker = none)
    (he : σ.check.worker = some e) :
    e ∈ σ.pool.head? := by
  unfold System.check at he
  split at he
  · rename_i entry pool _ hpool
    split at he
    · rw [hpool]
      exact he
    · rw [hw] at he
      cases he
  · rw [hw] at he
    cases he

section Steps

variable (hc : c.Anonymous) {op : Op S E} {o : Option Outcome}

include hc

omit [Inhabited P] in
lemma simulates_dispatch (n n₀ : ℕ) (e : Option E) :
    Simulates (World.Echo d own n₀ mine ρ) (Statechart.dispatch c n e)
      (Statechart.dispatch c n e) :=
  (similar_echo hc).dispatch n e

omit [Inhabited P] in
lemma simulates_start (n n₀ : ℕ) :
    Simulates (World.Echo d own n₀ mine ρ) (Statechart.start c n) (Statechart.start c n) := by
  refine simulates_bind (simulates_modify fun w v h => ?_) fun _ => simulates_dispatch hc n n₀ none
  have hreset : ((w.onData fun _ => .reset).log .reset).Echo d own n₀ mine ρ
      ((v.onData fun _ => .reset).log .reset) := by
    refine (h.onData (f := fun _ => .reset) (fun _ _ => rfl) fun m x id hid => ?_).log rfl rfl
    simp [Metadata.timeouts] at hid
  unfold Statechart.enter
  cases c.startState c.root with
  | none => exact hreset.activateData
  | some st => exact hreset.activateData.activateData

omit [Inhabited P] in
lemma keeps_dispatch_apart (n : ℕ) (e : Option E) :
    Keeps (World.Apart d own mine ρ) (Statechart.dispatch c n e) :=
  (compatible_apart hc).dispatch n trivial

omit [Inhabited P] in
lemma keeps_start_apart (n : ℕ) : Keeps (World.Apart d own mine ρ) (Statechart.start c n) :=
  have : IsTrans (World S T E P) (World.Apart d own mine ρ) :=
    (compatible_apart hc).isTrans
  keeps_bind (keeps_modify apart_enter) fun _ => keeps_dispatch_apart hc n none

/-- The worker dispatches an entry of `d`, on both sides. -/
lemma Projects.deliver_own (h : Projects d own mine ρ σ τ) (hcon : Concerns d σ .deliver)
    (hs : Deliver c σ σ') : Concerns d τ .deliver
      ∧ ∃ τ' mine' ρ', Deliver c τ τ' ∧ Projects d own mine' ρ' σ' τ' := by
  obtain ⟨e, he, hd⟩ := hcon
  obtain ⟨e', hworker, a, w', hr, rfl⟩ := hs
  obtain rfl : e' = e := Option.some.inj (hworker.symm.trans he)
  obtain ⟨-, hmine, p, hp, hown⟩ := h.belongs e' (List.mem_append_right _ (by simp [hworker]))
  have hworker' : τ.worker = some { e' with id := ρ e'.id } := by
    have hw := h.worker
    rw [hworker, Option.toList_some, mirror_cons_of_mine (hmine.mpr hd), mirror_nil] at hw
    simpa using hw
  simp only [hp, hd, argument] at hr ⊢
  have hf : ∀ n, Simulates (World.Echo d own σ.timers.nextId mine ρ)
      (do modify (·.log (.dispatched e'.id σ.timers.now)); Statechart.dispatch c n e'.event)
      (do modify (·.log (.dispatched (ρ e'.id) τ.timers.now)); Statechart.dispatch c n e'.event) :=
    fun n => simulates_bind (simulates_modify fun _ _ hx => hx.log rfl rfl) fun _ =>
      simulates_dispatch hc n _ _
  obtain ⟨v', mine', ρ', hv, hput⟩ := h.idle.call (hown.mpr hd) hf hr
  refine ⟨⟨_, hworker', hd⟩, _, mine', ρ', ⟨_, hworker', a, v', ?_, rfl⟩, ?_⟩
  · simpa only [hp, hd, argument] using hv
  · simpa only [hp, hd, argument] using hput

lemma Projects.deliver_other (h : Projects d own mine ρ σ τ) (hcon : ¬ Concerns d σ .deliver)
    (hs : Deliver c σ σ') : Projects d own mine ρ σ' τ := by
  obtain ⟨e, hworker, a, w', hr, rfl⟩ := hs
  have hd : e.data ≠ d := fun hd => hcon ⟨e, hworker, hd⟩
  obtain ⟨-, hmine, p, hp, hown⟩ := h.belongs e (List.mem_append_right _ (by simp [hworker]))
  have hmine : mine e.id = false := by
    by_contra hm
    exact hd (hmine.mp (by simpa using hm))
  have hworker' : τ.worker = none := by
    have hw := h.worker
    rw [hworker, Option.toList_some, mirror_cons_of_not_mine hmine, mirror_nil] at hw
    exact Option.toList_eq_nil_iff.mp hw
  have hτ : { τ with worker := none } = τ := by rw [← hworker']
  have hidle : Projects d own mine ρ { σ with worker := none } τ := hτ ▸ h.idle
  simp only [hp, argument] at hr ⊢
  have : IsTrans (World S T E P) (World.Apart d own mine ρ) :=
    (compatible_apart hc).isTrans
  have hf : ∀ n, Keeps (World.Apart d own mine ρ)
      (do modify (·.log (.dispatched e.id σ.timers.now)); Statechart.dispatch c n e.event) :=
        fun n =>
    keeps_bind (keeps_modify fun _ =>
      World.Apart.of_timers rfl rfl rfl fun x _ hid => ⟨x, hid⟩) fun _ =>
      keeps_dispatch_apart hc n _
  exact hidle.call_other hd (fun hq => hd (hown.mp hq)) hf hr

/-- A step that concerns `d` is a step of the chart that works for `d` alone. -/
lemma Projects.own_step (h : Projects d own mine ρ σ τ) (hs : Does c op σ o σ')
    (hok : Separate d own op) (hcon : Concerns d σ op) :
    ∃ τ' mine' ρ', Does c op τ o τ' ∧ Concerns d τ op ∧ Projects d own mine' ρ' σ' τ' := by
  cases op with
  | start d' p =>
      obtain ⟨q, rfl, hq⟩ := hok
      obtain rfl : d' = d := hcon
      obtain ⟨a, w', rfl, hr, rfl⟩ := hs
      obtain ⟨v', mine', ρ', hv, hput⟩ := h.call (hq.mpr rfl) (fun n => simulates_start hc n _) hr
      exact ⟨_, mine', ρ', ⟨a, v', rfl, hv, rfl⟩, rfl, hput⟩
  | dispatch d' e p =>
      obtain ⟨q, rfl, hq⟩ := hok
      obtain rfl : d' = d := hcon
      obtain ⟨a, w', rfl, hr, rfl⟩ := hs
      obtain ⟨v', mine', ρ', hv, hput⟩ := h.call (hq.mpr rfl)
        (fun n => simulates_dispatch hc n _ e) hr
      exact ⟨_, mine', ρ', ⟨a, v', rfl, hv, rfl⟩, rfl, hput⟩
  | restoreState => exact hok.elim
  | tick ns =>
      obtain ⟨rfl, rfl⟩ := hs
      refine ⟨_, mine, ρ, ⟨rfl, rfl⟩, trivial, ?_⟩
      exact ⟨{ h.mirror with now := by simp [h.mirror.now] }, h.data, h.listed, h.others, h.pool,
        h.worker, h.belongs, h.params, h.performed⟩
  | expire =>
      obtain ⟨rfl, rfl⟩ := hs
      obtain ⟨hcon', hp⟩ := h.expire_own hcon
      exact ⟨_, mine, ρ, ⟨rfl, rfl⟩, hcon', hp⟩
  | check =>
      obtain ⟨rfl, rfl⟩ := hs
      obtain ⟨hcon', hp⟩ := h.check_own hcon
      exact ⟨_, mine, ρ, ⟨rfl, rfl⟩, hcon', hp⟩
  | deliver =>
      obtain ⟨rfl, hs⟩ := hs
      obtain ⟨hcon', τ', mine', ρ', hτ, hp⟩ := h.deliver_own hc hcon hs
      exact ⟨τ', mine', ρ', ⟨rfl, hτ⟩, hcon', hp⟩
  | work =>
      obtain ⟨rfl, hw, hs⟩ := hs
      obtain ⟨hcon', hp⟩ := h.check_own hcon
      rcases hs with ⟨hidle, rfl⟩ | hs
      · refine ⟨_, mine, ρ, ⟨rfl, hcon'.1, Or.inl ⟨?_, rfl⟩⟩, hcon', hp⟩
        have hworker := hp.worker
        rw [hidle] at hworker
        exact Option.toList_eq_nil_iff.mp hworker
      · have hcon₁ : Concerns d σ.check .deliver := by
          obtain ⟨entry, hentry, -⟩ := hs
          obtain ⟨-, e, he, hd⟩ := hcon
          obtain rfl : entry = e := Option.some.inj ((head_of_check hw hentry).symm.trans he)
          exact ⟨entry, hentry, hd⟩
        obtain ⟨-, τ', mine', ρ', hτ, hp'⟩ := hp.deliver_own hc hcon₁ hs
        exact ⟨τ', mine', ρ', ⟨rfl, hcon'.1, Or.inr hτ⟩, hcon', hp'⟩

/-- A step that does not concern `d` is no step of it. -/
lemma Projects.other_step (h : Projects d own mine ρ σ τ) (hs : Does c op σ o σ')
    (hok : Separate d own op) (hcon : ¬ Concerns d σ op) : Projects d own mine ρ σ' τ := by
  cases op with
  | start d' p =>
      obtain ⟨q, rfl, hq⟩ := hok
      obtain ⟨a, w', rfl, hr, rfl⟩ := hs
      exact h.call_other hcon (fun hown => hcon (hq.mp hown)) (fun n => keeps_start_apart hc n) hr
  | dispatch d' e p =>
      obtain ⟨q, rfl, hq⟩ := hok
      obtain ⟨a, w', rfl, hr, rfl⟩ := hs
      exact h.call_other hcon (fun hown => hcon (hq.mp hown))
        (fun n => keeps_dispatch_apart hc n e) hr
  | restoreState => exact hok.elim
  | tick => exact absurd trivial hcon
  | expire => exact hs.2 ▸ h.expire_other hcon
  | check => exact hs.2 ▸ h.check_other hcon
  | deliver => exact h.deliver_other hc hcon hs.2
  | work =>
      obtain ⟨rfl, hw, hs⟩ := hs
      have hp := h.check_other hcon
      rcases hs with ⟨-, rfl⟩ | hs
      · exact hp
      · refine hp.deliver_other hc ?_ hs
        rintro ⟨e, he, hd⟩
        exact hcon ⟨hw, e, head_of_check hw he, hd⟩

end Steps

/-! ### What is observed -/

omit [DecidableEq S] [Inhabited P] in
lemma Projects.timersOf (h : Projects d own mine ρ σ τ) : σ.timersOf d = τ.timersOf d := by
  have hout : τ.outstanding = CppStatecharts.mirror mine ρ σ.outstanding := by
    simp only [outstanding, h.mirror.queue, h.pool, h.worker, mirror_append]
  have hb : ∀ e ∈ σ.outstanding, mine e.id = true ↔ e.data = d := fun e he => by
    rcases List.mem_append.mp he with he | he
    · exact (h.mirror.belongs e (List.mem_append_right _ he)).2.1
    · exact (h.belongs e he).2.1
  unfold System.timersOf
  rw [hout]
  generalize σ.outstanding = l at hb
  induction l with
  | nil => rfl
  | cons e l ih =>
      have hl := ih fun e he => hb e (List.mem_cons_of_mem _ he)
      have he := hb e List.mem_cons_self
      cases hm : mine e.id
      · have hd : e.data ≠ d := fun hd => by simp [he.mpr hd] at hm
        rw [mirror_cons_of_not_mine hm, ← hl]
        simp [hd]
      · have hd : e.data = d := he.mp hm
        rw [mirror_cons_of_mine hm]
        by_cases hinv : e.id ∈ σ.timers.invalid
        · simpa [hd, hinv, (h.mirror.invalid e.id hm).mpr hinv] using hl
        · simpa [hd, hinv, mt (h.mirror.invalid e.id hm).mp hinv] using hl

omit [DecidableEq S] [Inhabited P] in
lemma Projects.report (h : Projects d own mine ρ σ τ) (op : Op S E) (o : Option Outcome) :
    report d op o σ = report d op o τ := by
  simp only [System.report, h.timersOf, h.performed, h.data, Metadata.rename,
    Metadata.untimed_mapTimeouts]

omit [DecidableEq S] [Inhabited P] in
lemma projects_fresh (params : ℕ → P) (nextParam : ℕ) : Projects d own (fun _ => false) id
    (fresh params nextParam : System S T E P) (fresh params nextParam) where
  mirror := ⟨rfl, ⟨rfl, rfl⟩, ⟨rfl, rfl⟩, by simp, by simp, by simp, by simp [fresh],
    List.Pairwise.nil, by simp [fresh], rfl, rfl⟩
  data := rfl
  listed := by simp [fresh, Metadata.timeouts]
  others := by simp [fresh, Metadata.timeouts]
  pool := rfl
  worker := rfl
  belongs := by simp [fresh]
  params _ _ := rfl
  performed := rfl

lemma Observed.projects (hc : c.Anonymous) {params : ℕ → P} {nextParam : ℕ}
    {l : List (Report S T E)}
    (h : Observed c (fun op _ => Separate d own op) d l (fresh params nextParam) σ) :
    ∃ τ mine ρ, Observed c (fun op τ => Separate d own op ∧ Concerns d τ op) d l
      (fresh params nextParam) τ ∧ Projects d own mine ρ σ τ := by
  generalize hσ₀ : (fresh params nextParam : System S T E P) = σ₀ at h ⊢
  induction h with
  | refl => exact ⟨_, _, _, .refl _, hσ₀ ▸ projects_fresh params nextParam⟩
  | own _ hs hok hcon ih =>
      obtain ⟨τ, mine, ρ, hτ, hp⟩ := ih hσ₀
      obtain ⟨τ', mine', ρ', hs', hcon', hp'⟩ := hp.own_step hc hs hok hcon
      exact ⟨τ', mine', ρ', hp'.report _ _ ▸ hτ.own hs' ⟨hok, hcon'⟩ hcon', hp'⟩
  | other _ hs hok hcon ih =>
      obtain ⟨τ, mine, ρ, hτ, hp⟩ := ih hσ₀
      exact ⟨τ, mine, ρ, hτ, hp.other_step hc hs hok hcon⟩

/-- **Metadata do not interfere.** When the client's callbacks do not depend on the identity of the
timer entries, and every metadata is driven with parameters of its own, what is observed on one
metadata (the operations, what they return, the configurations, the actions and the outstanding
timers) is observed when the operations on all others are left out. -/
theorem observed_alone (hc : c.Anonymous) {params : ℕ → P} {nextParam : ℕ} {l : List (Report S T E)}
    (h : Observed c (fun op _ => Separate d own op) d l (fresh params nextParam) σ) :
    ∃ τ, Observed c (fun op τ => Separate d own op ∧ Concerns d τ op) d l (fresh params nextParam) τ
      ∧ (τ.stores d).untimed = (σ.stores d).untimed ∧ (∀ p, own p → τ.params p = σ.params p)
      ∧ τ.timersOf d = σ.timersOf d := by
  obtain ⟨τ, mine, ρ, hτ, hp⟩ := h.projects hc
  exact ⟨τ, hτ, by rw [hp.data, Metadata.rename, Metadata.untimed_mapTimeouts], hp.params,
    hp.timersOf.symm⟩

/-- A computed step returns something. -/
lemma does_of_exec {n : ℕ} {op : Op S E} (h : exec c n σ op = some σ') : ∃ o, Does c op σ o σ' := by
  cases op with
  | start d p =>
      obtain ⟨⟨a, w'⟩, hr, rfl⟩ := Option.map_eq_some_iff.mp h
      exact ⟨some a, a, w', rfl, ⟨n, hr⟩, rfl⟩
  | dispatch d e p =>
      obtain ⟨⟨a, w'⟩, hr, rfl⟩ := Option.map_eq_some_iff.mp h
      exact ⟨some a, a, w', rfl, ⟨n, hr⟩, rfl⟩
  | _ => exact ⟨none, rfl, step_of_exec h⟩

variable {n : ℕ} {op : Op S E} {σ₀ : System S T E P} {ok : Op S E → System S T E P → Prop}
variable {l : List (Report S T E)}

lemma Observed.exec_own (h : Observed c ok d l σ₀ σ) (he : System.exec c n σ op = some σ')
    (hok : ok op σ) (hcon : Concerns d σ op) :
    ∃ r, r.op = op ∧ Observed c ok d (l ++ [r]) σ₀ σ' := by
  obtain ⟨o, ho⟩ := does_of_exec he
  exact ⟨_, rfl, h.own ho hok hcon⟩

lemma Observed.exec_other (h : Observed c ok d l σ₀ σ) (he : System.exec c n σ op = some σ')
    (hok : ok op σ) (hcon : ¬ Concerns d σ op) : Observed c ok d l σ₀ σ' := by
  obtain ⟨o, ho⟩ := does_of_exec he
  exact h.other ho hok hcon

/-- A sequence of computed steps is observed. -/
lemma Observed.execAll {ops : List (Op S E)} (h : Observed c ok d l σ₀ σ)
    (hok : ∀ op ∈ ops, ∀ σ, ok op σ) (he : System.execAll c n ops σ = some σ') :
    ∃ l, Observed c ok d l σ₀ σ' := by
  induction ops generalizing σ l with
  | nil => exact ⟨l, Option.some.inj he ▸ h⟩
  | cons op ops ih =>
      obtain ⟨σ₁, h₁, h₂⟩ := Option.bind_eq_some_iff.mp he
      have hok₁ := hok op List.mem_cons_self σ
      have hrest := fun op' h => hok op' (List.mem_cons_of_mem op h)
      by_cases hcon : Concerns d σ op
      · obtain ⟨r, -, hr⟩ := h.exec_own h₁ hok₁ hcon
        exact ih hr hrest h₂
      · exact ih (h.exec_other h₁ hok₁ hcon) hrest h₂

end System

/-! ### An action that looks at the identifiers -/

namespace Curious

inductive St where
  | chart | s | a | b
  deriving DecidableEq

instance : Fintype St := ⟨{.chart, .s, .a, .b}, fun x => by cases x <;> decide⟩

inductive Tr where
  | begin | late | go
  deriving DecidableEq

instance : Fintype Tr := ⟨{.begin, .late, .go}, fun t => by cases t <;> decide⟩

/-- The state `a` is left after 100 milliseconds, or on the event `go` when the parameter is true.
Its entry action is given. -/
def chart (entry : Action St Bool) : Chart St Tr Event Bool where
  name := "curious"
  root := .chart
  ownedStates := [.s, .a, .b]
  ownedTransitions := [.begin, .late, .go]
  kind
    | .chart => .statechart
    | .s => .pseudoState .start
    | _ => .state
  context
    | .chart => none
    | _ => some .chart
  depth
    | .chart => 0
    | _ => 1
  source
    | .begin => .s
    | _ => .a
  target
    | .begin => .a
    | _ => .b
  event
    | .begin => none
    | .late => some (.timeoutEvent 0 1 100)
    | .go => some (.event "go")
  guard
    | .go => some fun _ p => p
    | _ => none
  entryAction
    | .a => some entry
    | _ => none
  equals ev e _ _ := ev.equals e
  timeout := Event.timeout

/-- The parameter becomes `getData(a)->timeoutEvents[0]->id() == 1`. -/
def isFirst : Action St Bool := fun m _ => (m, m.timeouts .a == [1])

/-- The parameter becomes `getData(a)->timeoutEvents.size() == 1`. -/
def isSingle : Action St Bool := fun m _ => (m, (m.timeouts .a).length == 1)

/-- A new system, whose clients have two parameters. -/
abbrev initial : System St Tr Event Bool := System.fresh (fun _ => false) 2

/-- The parameter at 0 belongs to the metadata at 0, all others to the other metadata. -/
lemma separate_start {d : ℕ} : System.Separate 0 (· = 0) (.start d (some d) : Op St Event) :=
  ⟨d, rfl, Iff.rfl⟩

lemma separate_go :
    System.Separate 0 (· = 0) (.dispatch 0 (some (.event "go")) (some 0) : Op St Event) :=
  ⟨0, rfl, Iff.rfl⟩

set_option maxRecDepth 4000 in
/-- **A shared counter.** The entries of all metadata are numbered together, and an action that
looks at the numbers behaves otherwise when another metadata is started first. -/
theorem not_observed_alone : ∃ l l' σ τ,
    System.Observed (chart isFirst) (fun op _ => System.Separate 0 (· = 0) op) 0 l initial σ
    ∧ System.Observed (chart isFirst)
      (fun op τ => System.Separate 0 (· = 0) op ∧ System.Concerns 0 τ op) 0 l' initial τ
    ∧ l.map (·.op) = l'.map (·.op)
    ∧ (σ.stores 0).current .chart = some .a ∧ (τ.stores 0).current .chart = some .b := by
  have hother : ∀ {σ}, System.exec (chart isFirst) 4 initial (.start 1 (some 1)) = some σ →
      System.Observed (chart isFirst) (fun op _ => System.Separate 0 (· = 0) op) 0 [] initial σ :=
    fun h => System.Observed.exec_other (.refl _) h separate_start Nat.one_ne_zero
  have hown : ∀ ok op {l σ σ'}, System.Observed (chart isFirst) ok 0 l initial σ →
      System.exec (chart isFirst) 4 σ op = some σ' → ok op σ → System.Concerns 0 σ op →
      ∃ r, r.op = op ∧ System.Observed (chart isFirst) ok 0 (l ++ [r]) initial σ' :=
    fun _ _ _ _ _ h he hok hcon => h.exec_own he hok hcon
  obtain ⟨r₁, hr₁, h₁⟩ := hown _ (.start 0 (some 0)) (hother rfl) rfl separate_start rfl
  obtain ⟨r₂, hr₂, h₂⟩ := hown _ (.dispatch 0 (some (.event "go")) (some 0)) h₁ rfl separate_go rfl
  obtain ⟨r₁', hr₁', h₁'⟩ := hown (fun op τ => System.Separate 0 (· = 0) op
    ∧ System.Concerns 0 τ op) (.start 0 (some 0)) (.refl _) rfl ⟨separate_start, rfl⟩ rfl
  obtain ⟨r₂', hr₂', h₂'⟩ := hown _ (.dispatch 0 (some (.event "go")) (some 0)) h₁' rfl
    ⟨separate_go, rfl⟩ rfl
  exact ⟨_, _, _, _, h₂, h₂', by simp [hr₁, hr₂, hr₁', hr₂'], rfl, rfl⟩

/-- The number of the entries is not their identity. -/
lemma anonymous : (chart isSingle).Anonymous where
  actions := by
    refine ⟨fun {x f} h => ?_, fun h => by simp [chart] at h, fun h => by simp [chart] at h,
      fun h => by simp [chart] at h⟩
    cases x <;> simp only [chart, reduceCtorEq, Option.some.injEq] at h
    subst h
    exact ⟨fun ρ m p _ => by simp [isSingle, Metadata.timeouts_rename], fun ρ m p _ => rfl⟩
  guard := by
    intro t g h ρ m p _
    cases t <;> simp only [chart, reduceCtorEq, Option.some.injEq] at h
    subst h
    rfl
  equals _ _ _ _ _ _ := rfl

set_option maxRecDepth 4000 in
/-- With an action that only counts its entries, the timer of one metadata fires as if it were
alone. -/
theorem observed_alone_late : ∃ l σ,
    System.Observed (chart isSingle) (fun op _ => System.Separate 0 (· = 0) op) 0 l initial σ
    ∧ (σ.stores 0).current .chart = some .b ∧ (σ.stores 1).current .chart = some .a
    ∧ ∃ τ, System.Observed (chart isSingle)
        (fun op τ => System.Separate 0 (· = 0) op ∧ System.Concerns 0 τ op) 0 l initial τ
      ∧ (τ.stores 0).untimed = (σ.stores 0).untimed ∧ (∀ p, p = 0 → τ.params p = σ.params p)
      ∧ τ.timersOf 0 = σ.timersOf 0 := by
  have hrun : ∀ ops {l σ σ'}, System.Observed (chart isSingle)
        (fun op _ => System.Separate 0 (· = 0) op) 0 l initial σ →
      System.execAll (chart isSingle) 4 ops σ = some σ' →
      (∀ op ∈ ops, System.Separate 0 (· = 0) op) →
      ∃ l, System.Observed (chart isSingle) (fun op _ => System.Separate 0 (· = 0) op) 0 l
        initial σ' := fun _ _ _ _ hl h hok => hl.execAll (fun op hop _ => hok op hop) h
  obtain ⟨l₁, h₁⟩ := hrun [.start 1 (some 1), .start 0 (some 0)] (.refl _) rfl
    (by simp [System.Separate])
  obtain ⟨l₂, h₂⟩ := hrun [.tick 100000000, .expire, .work] h₁ rfl (by simp [System.Separate])
  exact ⟨l₂, _, h₂, rfl, rfl, System.observed_alone anonymous h₂⟩

end Curious

end CppStatecharts
