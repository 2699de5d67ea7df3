import CppStatecharts.Model.Asynchron
import CppStatecharts.Timers.Ledger

/-!
Which parameters the queued entries refer to.

* `Lifetimes`: the entries that own their parameter, and the parameters that lived for one call
  only.
* `System.Alive`, `System.Safe`: a parameter is a client's, or owned by a pending entry; every valid
  entry that a state has scheduled carries such a one.
* `System.Lends`: a call without a parameter schedules no timer.
* `System.Lent`: the invariant of the system.
* `System.safe_of_lends`: every course whose steps satisfy `Lends` is safe.
* `Forgetful.not_safe`: a start without a parameter.
-/

namespace CppStatecharts

variable {S T E P : Type}

/-- The numbers of the entries that own their parameter, and the addresses of the local parameters,
whose lives have ended. -/
structure Lifetimes where
  owners : List ℕ := []
  temporaries : List ℕ := []

/-- The entries with numbers from `n` to below `n'` own their parameter. -/
def Lifetimes.own (L : Lifetimes) (n n' : ℕ) : Lifetimes :=
  { L with owners := L.owners ++ List.range' n (n' - n) }

/-- The parameters from `n` to below `n'` are local. -/
def Lifetimes.lend (L : Lifetimes) (n n' : ℕ) : Lifetimes :=
  { L with temporaries := L.temporaries ++ List.range' n (n' - n) }

@[simp] lemma Lifetimes.own_self (L : Lifetimes) (n : ℕ) : L.own n n = L := by
  simp [own]

@[simp] lemma Lifetimes.lend_self (L : Lifetimes) (n : ℕ) : L.lend n n = L := by
  simp [lend]

/-- An asynchronous call makes entries that own their parameter; the parameters made by any other
call are local. -/
def Lifetimes.after (L : Lifetimes) (r : Request S E) (σ σ' : System S T E P) : Lifetimes :=
  match r with
  | .startAsynchron .. | .dispatchAsynchron .. => L.own σ.timers.nextId σ'.timers.nextId
  | .op _ => L.lend σ.nextParam σ'.nextParam
  | _ => L

namespace System

/-- The parameter is one of the clients, or owned by a pending entry. -/
def Alive (clients : ℕ) (L : Lifetimes) (σ : System S T E P) (p : ℕ) : Prop :=
  p < clients ∨ ∃ e ∈ σ.timers.pendingEntries, e.id ∈ L.owners ∧ e.param = some p

/-- Every valid entry that a state has scheduled and that is still to come carries a parameter that
is alive. -/
def Safe (clients : ℕ) (L : Lifetimes) (σ : System S T E P) : Prop :=
  ∀ e ∈ σ.outstanding, e.id ∉ L.owners → e.id ∉ σ.timers.invalid →
    ∃ p, e.param = some p ∧ p ∉ L.temporaries ∧ Alive clients L σ p

/-- No timer was scheduled on the metadata at `d`. -/
def Timeless (σ σ' : System S T E P) (d : ℕ) : Prop :=
  ∀ id s now delay, .scheduled id s now delay ∉ since σ σ' d

/-- The clients pass their own parameters, and no call without a parameter schedules a timer, nor
does the dispatch of an entry without one. -/
def Lends (clients : ℕ) : Request S E → System S T E P → System S T E P → Prop
  | .op (.start d none), σ, σ' | .op (.dispatch d _ none), σ, σ' => Timeless σ σ' d
  | .op (.start _ (some p)), _, _ | .op (.dispatch _ _ (some p)), _, _
  | .op (.restoreState _ _ p), _, _ => p < clients
  | .op .deliver, σ, σ' => ∀ e, σ.worker = some e → e.param = none → Timeless σ σ' e.data
  | .op .work, σ, σ' => ∀ e, σ.check.worker = some e → e.param = none → Timeless σ.check σ' e.data
  | .startAsynchron _ (.given (some p)), _, _
  | .dispatchAsynchron _ _ (.given (some p)), _, _ => p < clients
  | .cancelTimeout _, _, _ | .shutdown, _, _ | .terminate, _, _ => False
  | _, _, _ => True

/-- A sequence of steps from the beginning on, with the lives of the parameters. -/
inductive Course [DecidableEq S] [Inhabited P] (c : Chart S T E P) (clients : ℕ)
    (ok : Request S E → System S T E P → System S T E P → Prop) :
    Lifetimes → System S T E P → Prop
  | fresh (params : ℕ → P) : Course c clients ok {} (fresh params clients)
  | step {L σ σ'} (r : Request S E) : Course c clients ok L σ → Serves c r σ σ' → ok r σ σ' →
      Course c clients ok (L.after r σ σ') σ'

variable (c : Chart S T E P)

/-- The parameters of all entries are alive; those of states are never null, and no state lists an
entry that owns its parameter. -/
structure Lent (clients : ℕ) (L : Lifetimes) (σ : System S T E P) : Prop where
  sorted : Sorted c σ
  bound : clients ≤ σ.nextParam
  temporaries : ∀ p ∈ L.temporaries, clients ≤ p ∧ p < σ.nextParam
  used : ∀ e ∈ σ.pool ++ σ.worker.toList, e.id < σ.timers.nextId
  alive : ∀ e, e ∈ σ.timers.pendingEntries ∨ e ∈ σ.pool ++ σ.worker.toList →
    (e.id ∉ L.owners → e.param ≠ none)
      ∧ ∀ p, e.param = some p → p < σ.nextParam ∧ p ∉ L.temporaries ∧ Alive clients L σ p
  owners : ∀ id ∈ L.owners, id < σ.timers.nextId ∧ ∀ d s, id ∉ (σ.stores d).timeouts s

variable {c} {clients : ℕ} {L L' : Lifetimes} {σ σ' τ : System S T E P} {w w' : World S T E P}
variable {l : List (Obs S T)}

lemma Lent.safe (h : Lent c clients L σ) : Safe clients L σ := by
  intro e he ho _
  have hmem : e ∈ σ.timers.pendingEntries ∨ e ∈ σ.pool ++ σ.worker.toList :=
    (List.mem_append.mp he).imp (h.sorted.coherent.queued e) fun h => h
  obtain ⟨hsome, halive⟩ := h.alive e hmem
  obtain ⟨p, hp⟩ := Option.ne_none_iff_exists'.mp (hsome ho)
  exact ⟨p, hp, (halive p hp).2⟩

/-- A part of a call with a parameter that is alive, or one that schedules nothing. -/
lemma Lent.put (h : Lent c clients L (σ.put w)) (hs : w.Shifts c l w')
    (hparam : ∀ e, w.News l e → w.paramId < σ.nextParam ∧ w.paramId ∉ L.temporaries
      ∧ Alive clients L (σ.put w) w.paramId) : Lent c clients L (σ.put w') := by
  have hw := h.sorted.of_put
  have hunlisted : ∀ id ∈ L.owners, id < w.timers.nextId ∧ ∀ s, id ∉ w.data.timeouts s := by
    intro id hid
    obtain ⟨hlt, hx⟩ := h.owners id hid
    exact ⟨hlt, fun s => by simpa [System.put] using hx w.dataId s⟩
  have hmono : ∀ {p}, Alive clients L (σ.put w) p → Alive clients L (σ.put w') p := by
    rintro p (hp | ⟨e, he, ho, hp⟩)
    · exact Or.inl hp
    · exact Or.inr ⟨e, hs.spared e he (hunlisted e.id ho).2, ho, hp⟩
  refine ⟨h.sorted.put hs, h.bound, h.temporaries, fun e he => (h.used e he).trans_le hs.nextId,
    fun e he => ?_, fun id hid => ?_⟩
  · have hold : (e ∈ w.timers.pendingEntries ∨ e ∈ σ.pool ++ σ.worker.toList) ∨ w.News l e := by
      rcases he with he | he
      · exact (hs.pending e he).imp Or.inl fun h => h
      · exact Or.inl (Or.inr he)
    rcases hold with hold | hn
    · obtain ⟨hsome, halive⟩ := h.alive e hold
      exact ⟨hsome, fun p hp => ⟨(halive p hp).1, (halive p hp).2.1, hmono (halive p hp).2.2⟩⟩
    · obtain ⟨hlt, hnot, ha⟩ := hparam e hn
      refine ⟨fun _ => by simp [hn.param], fun p hp => ?_⟩
      obtain rfl : w.paramId = p := Option.some.inj (hn.param.symm.trans hp)
      exact ⟨hlt, hnot, hmono ha⟩
  · obtain ⟨hlt, hx⟩ := h.owners id hid
    refine ⟨hlt.trans_le hs.nextId, fun d s => ?_⟩
    by_cases hd : d = w.dataId
    · subst hd
      have := hs.unlisted id hlt (hunlisted id hid).2 s
      simpa [System.put, hs.dataId] using this
    · have := hx d s
      simpa [System.put, hs.dataId, hd] using this

/-- Nothing changes but the places of the entries, the clock and the parameters of the clients. -/
lemma Lent.moves (h : Lent c clients L σ) (hsorted : Sorted c σ')
    (hp : σ'.timers.pendingEntries = σ.timers.pendingEntries)
    (hn : σ'.timers.nextId = σ.timers.nextId) (hs : σ'.stores = σ.stores)
    (hparam : σ'.nextParam = σ.nextParam)
    (hsub : ∀ e ∈ σ'.pool ++ σ'.worker.toList,
      e ∈ σ.timers.pendingEntries ∨ e ∈ σ.pool ++ σ.worker.toList) : Lent c clients L σ' := by
  refine ⟨hsorted, hparam ▸ h.bound, hparam ▸ h.temporaries, fun e he => ?_, fun e he => ?_,
    fun id hid => ?_⟩
  · rw [hn]
    exact (hsub e he).elim (h.sorted.coherent.used e) (h.used e)
  · rw [hparam]
    unfold Alive
    rw [hp] at he ⊢
    exact h.alive e (he.elim Or.inl (hsub e))
  · rw [hn, hs]
    exact h.owners id hid

section Steps

variable [Inhabited P] {p : Option ℕ}

/-- A call without a parameter makes a local one, to which no entry refers yet. -/
lemma Lent.argument (h : Lent c clients L σ) (p : Option ℕ) :
    Lent c clients (L.lend σ.nextParam (σ.argument p).2.nextParam) (σ.argument p).2 := by
  cases p with
  | some p => simpa [System.argument, Lifetimes.lend] using h
  | none =>
      have hrange : List.range' σ.nextParam (σ.nextParam + 1 - σ.nextParam) = [σ.nextParam] := by
        simp
      simp only [System.argument, Lifetimes.lend, hrange]
      refine ⟨h.sorted.of_eq rfl rfl, h.bound.trans (Nat.le_succ _), fun p hp => ?_, h.used,
        fun e he => ?_, h.owners⟩
      · rcases List.mem_append.mp hp with hp | hp
        · exact ⟨(h.temporaries p hp).1, (h.temporaries p hp).2.trans (Nat.lt_succ_self _)⟩
        · obtain rfl := List.mem_singleton.mp hp
          exact ⟨h.bound, Nat.lt_succ_self _⟩
      · obtain ⟨hsome, halive⟩ := h.alive e he
        refine ⟨hsome, fun p hp => ?_⟩
        obtain ⟨hlt, hnot, ha⟩ := halive p hp
        refine ⟨hlt.trans (Nat.lt_succ_self _), ?_, ha⟩
        rw [List.mem_append, List.mem_singleton, not_or]
        exact ⟨hnot, hlt.ne⟩

/-- A call with a client's parameter, or one without that schedules no timer. -/
lemma Lent.invoked (h : Lent c clients L σ) {d : ℕ} {σ₀ : System S T E P}
    (hσ₀ : σ₀.traces = σ.traces)
    (hs : ((σ.argument p).2.world d (σ.argument p).1).Shifts c l w')
    (hok : (∃ q, p = some q ∧ q < σ.nextParam ∧ q ∉ L.temporaries ∧ Alive clients L σ q)
      ∨ Timeless σ₀ ((σ.argument p).2.put w') d) :
    Lent c clients (L.lend σ.nextParam (σ.argument p).2.nextParam) ((σ.argument p).2.put w') := by
  have hτ := h.argument p
  rw [← put_world (σ.argument p).2 d (σ.argument p).1] at hτ
  refine hτ.put hs fun e hn => ?_
  rcases hok with ⟨q, rfl, hlt, hnot, ha⟩ | hok
  · simpa [System.argument, Lifetimes.lend] using ⟨hlt, hnot, ha⟩
  · obtain ⟨now, delay, hm⟩ := hn.scheduled
    have hdata : w'.dataId = d := hs.dataId
    have hsince : since σ₀ ((σ.argument p).2.put w') d = l := by
      refine since_eq ?_
      simp only [System.put, hdata, Function.update_self, hs.trace, world,
        (argument_frame σ p).2.2.1, hσ₀]
    exact absurd (hsince.symm ▸ hm) (hok _ _ _ _)

omit [Inhabited P] in
lemma Lent.of_lt (h : Lent c clients L σ) {q : ℕ} (hq : q < clients) :
    q < σ.nextParam ∧ q ∉ L.temporaries ∧ Alive clients L σ q :=
  ⟨hq.trans_le h.bound, fun hm => absurd (h.temporaries q hm).1 (not_le.mpr hq), Or.inl hq⟩

variable [DecidableEq S] {op : Op S E} {r : Request S E}

lemma Lent.call (hc : c.ActionsKeepTimers) {d : ℕ} (h : Lent c clients L σ)
    (hop : op.call = some (d, p)) (hs : Step c op σ σ')
    (hok : (∃ q, p = some q ∧ q < clients) ∨ Timeless σ σ' d) :
    Lent c clients (L.lend σ.nextParam σ'.nextParam) σ' := by
  obtain ⟨l, w', hl, -, rfl⟩ := h.sorted.call hc hop hs
  refine h.invoked rfl hl (hok.imp ?_ fun hok => hok)
  rintro ⟨q, rfl, hq⟩
  exact ⟨q, rfl, h.of_lt hq⟩

/-- The dispatch of an entry lends its parameter to the timers it schedules. -/
lemma Lent.deliver (hc : c.ActionsKeepTimers) (h : Lent c clients L σ) (hs : Deliver c σ σ')
    (hok : ∀ e, σ.worker = some e → e.param = none → Timeless σ σ' e.data) :
    Lent c clients (L.lend σ.nextParam σ'.nextParam) σ' := by
  obtain ⟨e, he, q, τ, hτ, l, w', hl, -, -, rfl⟩ := h.sorted.deliver hc hs
  have hidle : Lent c clients L { σ with worker := none } :=
    h.moves (h.sorted.of_eq rfl rfl) rfl rfl rfl rfl fun e' he' => Or.inr (by
      simp only [List.mem_append] at he' ⊢
      tauto)
  have hτ₁ : τ = (({ σ with worker := none } : System S T E P).argument e.param).2 := by rw [← hτ]
  have hτ₂ : q = (({ σ with worker := none } : System S T E P).argument e.param).1 := by rw [← hτ]
  have hok' := hok e he
  rw [hτ₁, hτ₂] at hl
  rw [hτ₁] at hok' ⊢
  have htraces : σ.traces = ({ σ with worker := none } : System S T E P).traces := rfl
  refine hidle.invoked htraces hl ?_
  cases hp : e.param with
  | none => exact Or.inr (hp ▸ hok' hp)
  | some q =>
      refine Or.inl ⟨q, rfl, ?_⟩
      exact (h.alive e (Or.inr (by simp [he]))).2 q hp

omit [Inhabited P] [DecidableEq S] in
lemma nextParam_check (σ : System S T E P) : σ.check.nextParam = σ.nextParam := by
  unfold System.check
  split
  · split <;> rfl
  · rfl

omit [Inhabited P] [DecidableEq S] in
lemma nextParam_expire (σ : System S T E P) : σ.expire.nextParam = σ.nextParam := by
  rcases expire_cases σ with he | ⟨_, _, -, -, he⟩ <;> rw [he]

omit [Inhabited P] [DecidableEq S] in
lemma Lent.check (h : Lent c clients L σ) : Lent c clients L σ.check := by
  obtain ⟨ht, hs, -, hsub⟩ := check_frame σ
  exact h.moves h.sorted.check (by rw [ht]) (by rw [ht]) hs (nextParam_check σ)
    fun e he => Or.inr (hsub e he)

omit [Inhabited P] [DecidableEq S] in
lemma Lent.expire (h : Lent c clients L σ) : Lent c clients L σ.expire := by
  have hsorted := h.sorted.expire
  rcases expire_cases σ with he | ⟨e, q, -, hitems, he⟩
  · rwa [he]
  rw [he] at hsorted ⊢
  refine h.moves hsorted rfl rfl rfl rfl fun e' he' => ?_
  have hmem : e ∈ σ.timers.pendingEntries :=
    h.sorted.coherent.queued e (hitems ▸ List.mem_cons_self)
  simp only [List.mem_append] at he' ⊢
  rcases he' with he' | he'
  · split at he'
    · exact Or.inr (Or.inl he')
    · rcases List.mem_append.mp he' with he' | he'
      · exact Or.inr (Or.inl he')
      · exact Or.inl (List.mem_singleton.mp he' ▸ hmem)
  · exact Or.inr (Or.inr he')

lemma Lent.step (hc : c.ActionsKeepTimers) (h : Lent c clients L σ)
    (hok : Lends clients (.op op) σ σ') (hs : Step c op σ σ') :
    Lent c clients (L.lend σ.nextParam σ'.nextParam) σ' := by
  cases op with
  | start d p =>
      refine h.call hc rfl hs ?_
      cases p with
      | none => exact Or.inr hok
      | some q => exact Or.inl ⟨q, rfl, hok⟩
  | restoreState s d p => exact h.call hc rfl hs (Or.inl ⟨p, rfl, hok⟩)
  | dispatch d e p =>
      refine h.call hc rfl hs ?_
      cases p with
      | none => exact Or.inr hok
      | some q => exact Or.inl ⟨q, rfl, hok⟩
  | tick ns =>
      obtain rfl := hs
      rw [Lifetimes.lend_self]
      exact h.moves (h.sorted.tick ns) rfl rfl rfl rfl fun _ => Or.inr
  | expire =>
      obtain rfl := hs
      rw [nextParam_expire, Lifetimes.lend_self]
      exact h.expire
  | check =>
      obtain rfl := hs
      rw [nextParam_check, Lifetimes.lend_self]
      exact h.check
  | deliver => exact h.deliver hc hs hok
  | work =>
      obtain ⟨-, ⟨-, rfl⟩ | hd⟩ := hs
      · rw [nextParam_check, Lifetimes.lend_self]
        exact h.check
      · have := h.check.deliver hc hd hok
        rwa [nextParam_check] at this

omit [DecidableEq S] in
/-- The parameter of an asynchronous call is a client's, or a new one. -/
lemma Lent.share (h : Lent c clients L σ) (p : Shared)
    (hok : ∀ q, p = .given (some q) → q < clients) : Lent c clients L (σ.share p).2
      ∧ ∀ q, (σ.share p).1 = some q → q < (σ.share p).2.nextParam ∧ q ∉ L.temporaries := by
  cases p with
  | given p =>
      refine ⟨h, fun q hq => ?_⟩
      obtain rfl : p = some q := hq
      obtain ⟨hlt, hnot, -⟩ := h.of_lt (hok q rfl)
      exact ⟨hlt, hnot⟩
  | new =>
      refine ⟨⟨h.sorted.of_eq rfl rfl, h.bound.trans (Nat.le_succ _), fun p hp => ?_, h.used,
        fun e he => ?_, h.owners⟩, fun q hq => ?_⟩
      · exact ⟨(h.temporaries p hp).1, (h.temporaries p hp).2.trans (Nat.lt_succ_self _)⟩
      · obtain ⟨hsome, halive⟩ := h.alive e he
        exact ⟨hsome, fun p hp => ⟨(halive p hp).1.trans (Nat.lt_succ_self _), (halive p hp).2⟩⟩
      · obtain rfl : σ.nextParam = q := Option.some.inj hq
        exact ⟨Nat.lt_succ_self _, fun hm => absurd (h.temporaries _ hm).2 (lt_irrefl _)⟩

omit [DecidableEq S] [Inhabited P] in
/-- The new entry owns its parameter. -/
lemma Lent.submit (h : Lent c clients L σ) (d : ℕ) (e : Option E)
    (hp : ∀ q, p = some q → q < σ.nextParam ∧ q ∉ L.temporaries) :
    Lent c clients (L.own σ.timers.nextId (σ.submit c d e p).timers.nextId) (σ.submit c d e p) := by
  have hsorted := h.sorted.submit d e p
  rcases submit_cases c d e p σ with ⟨-, hσ⟩ | ⟨-, q, pool, hσ, hq⟩
  · rw [hσ, Lifetimes.own_self]
    exact h
  rw [hσ] at hsorted ⊢
  have hrange : List.range' σ.timers.nextId (σ.timers.nextId + 1 - σ.timers.nextId)
      = [σ.timers.nextId] := by simp
  simp only [Lifetimes.own, hrange] at hsorted ⊢
  have hown : (newEntry c σ d e p).id = σ.timers.nextId := rfl
  have hmem : ∀ e', e' ∈ pool ++ σ.worker.toList →
      e' = newEntry c σ d e p ∨ e' ∈ σ.pool ++ σ.worker.toList := by
    rcases hq with ⟨-, rfl⟩ | ⟨-, rfl⟩
    · exact fun e' => Or.inr
    · intro e' he'
      simp only [List.mem_append, List.mem_singleton] at he' ⊢
      tauto
  refine ⟨hsorted, h.bound, h.temporaries, fun e' he' => ?_, fun e' he' => ?_, fun id hid => ?_⟩
  · rcases hmem e' he' with rfl | he'
    · exact Nat.lt_succ_self _
    · exact (h.used e' he').trans (Nat.lt_succ_self _)
  · have hold : e' = newEntry c σ d e p
        ∨ e' ∈ σ.timers.pendingEntries ∨ e' ∈ σ.pool ++ σ.worker.toList := by
      rcases he' with he' | he'
      · exact (List.mem_append.mp he').symm.imp List.mem_singleton.mp Or.inl
      · exact (hmem e' he').imp (fun h => h) Or.inr
    rcases hold with rfl | hold
    · refine ⟨fun hnot => absurd (by simp [hown]) hnot, fun q hq => ⟨(hp q hq).1, (hp q hq).2, ?_⟩⟩
      exact Or.inr ⟨newEntry c σ d e p, by simp, by simp [hown], hq⟩
    · obtain ⟨hsome, halive⟩ := h.alive e' hold
      refine ⟨fun hnot => hsome fun ho => hnot (List.mem_append_left _ ho), fun q hq => ?_⟩
      obtain ⟨hlt, hnot, ha⟩ := halive q hq
      refine ⟨hlt, hnot, ha.imp (fun h => h) ?_⟩
      rintro ⟨o, ho, hid, hoq⟩
      exact ⟨o, List.mem_append_left _ ho, List.mem_append_left _ hid, hoq⟩
  · rcases List.mem_append.mp hid with hid | hid
    · obtain ⟨hlt, hx⟩ := h.owners id hid
      exact ⟨hlt.trans (Nat.lt_succ_self _), hx⟩
    · obtain rfl := List.mem_singleton.mp hid
      exact ⟨Nat.lt_succ_self _, fun d s hm => absurd ((h.sorted d 0).listed s _ hm).1
        (lt_irrefl _)⟩

omit [Inhabited P] in
/-- Entering the chart forgets what its states list. -/
lemma Lent.enter (h : Lent c clients L (σ.put w)) :
    Lent c clients L (σ.put (Statechart.enter c w)) := by
  obtain ⟨l, hl, -⟩ := calls_enter h.sorted.of_put
  have ht : (Statechart.enter c w).timers = w.timers := timers_enter w
  have hput := h.sorted.put hl
  refine ⟨hput, h.bound, h.temporaries, fun e he => ?_, fun e he => ?_, fun id hid => ?_⟩
  · exact (h.used e he).trans_eq (congrArg _ ht.symm)
  · unfold Alive
    simp only [System.put, ht] at he ⊢
    exact h.alive e he
  · obtain ⟨hlt, hx⟩ := h.owners id hid
    refine ⟨hlt.trans_eq (congrArg _ ht.symm), fun d s => ?_⟩
    by_cases hd : d = w.dataId
    · subst hd
      have hold : ∀ s, id ∉ w.data.timeouts s := fun s => by simpa [System.put] using hx w.dataId s
      have := hl.unlisted id hlt hold s
      simpa [System.put, hl.dataId] using this
    · have := hx d s
      simpa [System.put, hl.dataId, hd] using this

lemma Lent.serves (hc : c.ActionsKeepTimers) (hs : Serves c r σ σ') (hok : Lends clients r σ σ')
    (h : Lent c clients L σ) : Lent c clients (L.after r σ σ') σ' := by
  cases r with
  | op op => exact h.step hc hok hs
  | startAsynchron d p =>
      obtain rfl := hs
      obtain ⟨hτ, hq⟩ := h.share p fun q hp => by subst hp; exact hok
      rw [← put_world (σ.share p).2 d 0] at hτ
      have hn : ((σ.share p).2.put (Statechart.enter c ((σ.share p).2.world d 0))).timers.nextId
          = σ.timers.nextId := by
        rw [System.put, timers_enter]
        cases p <;> rfl
      have := hτ.enter.submit d none hq
      rw [hn] at this
      exact this
  | dispatchAsynchron d e p =>
      obtain rfl := hs
      obtain ⟨hτ, hq⟩ := h.share p fun q hp => by subst hp; exact hok
      have hn : (σ.share p).2.timers.nextId = σ.timers.nextId := by cases p <;> rfl
      have := hτ.submit d e hq
      rw [hn] at this
      exact this
  | cancelTimeout entry => exact hok.elim
  | shutdown => exact hok.elim
  | terminate => exact hok.elim

/-- **No timer refers to a dead parameter.** In every course in which no call without a parameter
schedules a timer, every valid entry that a state has scheduled carries a parameter that is a
client's or owned by a pending entry. -/
theorem safe_of_lends (hc : c.ActionsKeepTimers) (h : Course c clients (Lends clients) L σ) :
    Safe clients L σ := by
  have hlent : Lent c clients L σ := by
    induction h with
    | fresh params =>
        refine ⟨fun d p => ⟨⟨?_, ?_, ?_, ?_, ?_, ?_⟩, ?_, ?_⟩, ?_, ?_, ?_, ?_, ?_⟩ <;>
          simp [fresh, world, Metadata.timeouts]
    | step r _ hs hok ih => exact ih.serves hc hs hok
  exact hlent.safe

end Steps

end System

/-! ### A start without a parameter -/

namespace Forgetful

set_option maxRecDepth 4000 in
/-- **A parameter that is dead.** The timer of `a` refers to the local parameter of `start`. -/
theorem not_safe : ∃ L σ, System.Course (chart none) 1 (fun r _ _ => r matches .op (.start ..)) L σ
    ∧ ¬ System.Safe 1 L σ := by
  have hstart : ∀ {σ}, System.exec (chart none) 4 initial (.start 0 none) = some σ →
      System.Course (chart none) 1 (fun r _ _ => r matches .op (.start ..)) _ σ := fun h =>
    .step (.op (.start 0 none)) (.fresh _) (System.step_of_exec h) rfl
  refine ⟨_, _, hstart rfl, fun h => ?_⟩
  obtain ⟨p, hp, hnot, -⟩ := h _ List.mem_cons_self (by decide) (by decide)
  obtain rfl : 1 = p := Option.some.inj hp
  exact absurd hnot (by decide)

set_option maxRecDepth 4000 in
/-- A start with a client's parameter, and a dispatch without one that schedules nothing. -/
theorem safe_late : ∃ L σ, System.Course (chart none) 1 (System.Lends 1) L σ
    ∧ σ.timers.timeoutQueue.items.map (·.param) = [some 0] ∧ L.temporaries = [1]
    ∧ System.Safe 1 L σ := by
  have h₁ : ∀ {σ}, System.exec (chart none) 4 initial (.start 0 (some 0)) = some σ →
      System.Course (chart none) 1 (System.Lends 1) _ σ := fun h =>
    .step (.op (.start 0 (some 0))) (.fresh _) (System.step_of_exec h) (by simp [System.Lends])
  have h₂ : ∀ {L σ σ'}, System.Course (chart none) 1 (System.Lends 1) L σ →
      System.exec (chart none) 4 σ (.dispatch 0 none none) = some σ' →
      System.Timeless σ σ' 0 → System.Course (chart none) 1 (System.Lends 1) _ σ' :=
        fun hr he hok =>
    .step (.op (.dispatch 0 none none)) hr (System.step_of_exec he) hok
  have h₃ := h₂ (h₁ rfl) rfl fun _ _ _ _ hm => absurd hm (List.not_mem_nil)
  exact ⟨_, _, h₃, rfl, rfl, System.safe_of_lends actionsKeepTimers h₃⟩

end Forgetful

end CppStatecharts
