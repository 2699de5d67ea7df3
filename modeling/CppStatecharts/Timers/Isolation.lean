import CppStatecharts.Model.System
import CppStatecharts.Semantics.Simulation
import CppStatecharts.Timers.Frame

/-!
Several metadata driven by one chart: a call on one of them, with the timers of the others and
without.

* `mirror`, `Timers.Mirror`: the timers of the chart, cut down to the entries of one metadata, which
  have other identifiers when the chart works for this metadata alone.
* `World.Echo`, `similar_echo`: a call on the metadata itself is the same call when it is alone.
* `World.Apart`, `compatible_apart`: a call on another metadata leaves nothing that the first one
  would see.
-/

namespace CppStatecharts

variable {S T E P : Type}

/-! ### The entries of one metadata -/

/-- The entries whose identifiers are marked, with the identifiers they have elsewhere. -/
def mirror (mine : ℕ → Bool) (ρ : ℕ → ℕ) (l : List (EventQueueEntry S E)) :
    List (EventQueueEntry S E) :=
  (l.filter (mine ·.id)).map fun e => { e with id := ρ e.id }

variable {mine mine' : ℕ → Bool} {ρ ρ' : ℕ → ℕ} {l : List (EventQueueEntry S E)}
variable {e : EventQueueEntry S E}

@[simp] lemma mirror_nil : mirror mine ρ ([] : List (EventQueueEntry S E)) = [] := rfl

lemma mirror_append (l l' : List (EventQueueEntry S E)) :
    mirror mine ρ (l ++ l') = mirror mine ρ l ++ mirror mine ρ l' := by
  simp [mirror]

lemma mirror_cons_of_mine (h : mine e.id = true) :
    mirror mine ρ (e :: l) = { e with id := ρ e.id } :: mirror mine ρ l := by
  simp [mirror, h]

lemma mirror_cons_of_not_mine (h : mine e.id = false) : mirror mine ρ (e :: l) =
    mirror mine ρ l := by
  simp [mirror, h]

lemma mirror_congr (h : ∀ e ∈ l, mine' e.id = mine e.id ∧ ρ' e.id = ρ e.id) :
    mirror mine' ρ' l = mirror mine ρ l := by
  induction l with
  | nil => rfl
  | cons e l ih =>
      obtain ⟨hm, hρ⟩ := h e List.mem_cons_self
      have hl := ih fun e he => h e (List.mem_cons_of_mem _ he)
      cases he : mine e.id
      · rw [mirror_cons_of_not_mine he, mirror_cons_of_not_mine (hm.trans he), hl]
      · rw [mirror_cons_of_mine he, mirror_cons_of_mine (hm.trans he), hl, hρ]

/-- A test that does not look at the identifier may be made before or after. -/
lemma mirror_filter (q : EventQueueEntry S E → Bool)
    (hq : ∀ e id, q { e with id := id } = q e) :
    mirror mine ρ (l.filter q) = (mirror mine ρ l).filter q := by
  simp only [mirror, List.filter_map, List.filter_filter, Function.comp_def, hq, Bool.and_comm]

/-- An entry of someone else is erased without a trace. -/
lemma mirror_eraseP_of_not_mine {id : ℕ} (h : mine id = false) :
    mirror mine ρ (l.eraseP (·.id == id)) = mirror mine ρ l := by
  induction l with
  | nil => rfl
  | cons e l ih =>
      by_cases he : e.id = id
      · rw [List.eraseP_cons_of_pos (by simpa using he), mirror_cons_of_not_mine (he ▸ h)]
      · rw [List.eraseP_cons_of_neg (by simpa using he)]
        cases hm : mine e.id
        · rw [mirror_cons_of_not_mine hm, mirror_cons_of_not_mine hm, ih]
        · rw [mirror_cons_of_mine hm, mirror_cons_of_mine hm, ih]

/-- An entry of the metadata is erased on both sides. -/
lemma mirror_eraseP {id : ℕ} (hinj : ∀ i j, mine i = true → mine j = true → ρ i = ρ j → i = j)
    (h : mine id = true) :
    mirror mine ρ (l.eraseP (·.id == id)) = (mirror mine ρ l).eraseP (·.id == ρ id) := by
  induction l with
  | nil => rfl
  | cons e l ih =>
      by_cases he : e.id = id
      · rw [List.eraseP_cons_of_pos (by simpa using he), mirror_cons_of_mine (he ▸ h),
          List.eraseP_cons_of_pos (by simp [he])]
      · rw [List.eraseP_cons_of_neg (by simpa using he)]
        cases hm : mine e.id
        · rw [mirror_cons_of_not_mine hm, mirror_cons_of_not_mine hm, ih]
        · have hne : ρ e.id ≠ ρ id := fun heq => he (hinj _ _ hm h heq)
          rw [mirror_cons_of_mine hm, mirror_cons_of_mine hm, ih,
            List.eraseP_cons_of_neg (by simpa using hne)]

lemma any_mirror {id : ℕ} (hinj : ∀ i j, mine i = true → mine j = true → ρ i = ρ j → i = j)
    (h : mine id = true) : (mirror mine ρ l).any (·.id == ρ id) = l.any (·.id == id) := by
  induction l with
  | nil => rfl
  | cons e l ih =>
      cases hm : mine e.id
      · have he : e.id ≠ id := fun he => by simp [he, h] at hm
        rw [mirror_cons_of_not_mine hm, ih, List.any_cons, beq_false_of_ne he, Bool.false_or]
      · have hiff : (ρ e.id == ρ id) = (e.id == id) := by
          by_cases he : e.id = id
          · simp [he]
          · have hne : ρ e.id ≠ ρ id := fun heq => he (hinj _ _ hm h heq)
            simp [he, hne]
        rw [mirror_cons_of_mine hm, List.any_cons, List.any_cons, ih, hiff]

/-! ### The timers of one metadata -/

namespace Timers

/-- The entry belongs to the metadata `d` exactly when it is marked, and its parameter is one of
those that `d` works with exactly then. -/
def Belongs (d : ℕ) (own : ℕ → Prop) (mine : ℕ → Bool) (nextId : ℕ) (e : EventQueueEntry S E) :
    Prop :=
  e.id < nextId ∧ (mine e.id = true ↔ e.data = d) ∧ ∃ p, e.param = some p ∧ (own p ↔ e.data = d)

/-- The timers `tm'` are what is left of `tm` when only the metadata `d`, with the parameters `own`,
is there. -/
structure Mirror (d : ℕ) (own : ℕ → Prop) (mine : ℕ → Bool) (ρ : ℕ → ℕ) (tm tm' : Timers S E) :
    Prop where
  now : tm'.now = tm.now
  running : tm.running = true ∧ tm'.running = true
  stopped : tm.timeoutQueue.stopped = false ∧ tm'.timeoutQueue.stopped = false
  lt : ∀ id, mine id = true → id < tm.nextId ∧ ρ id < tm'.nextId
  inj : ∀ i j, mine i = true → mine j = true → ρ i = ρ j → i = j
  invalid : ∀ id, mine id = true → (ρ id ∈ tm'.invalid ↔ id ∈ tm.invalid)
  known : (∀ id ∈ tm.invalid, id < tm.nextId) ∧ ∀ id ∈ tm'.invalid, id < tm'.nextId
  ordered : tm.timeoutQueue.Ordered (·.deadline)
  belongs : ∀ e ∈ tm.pendingEntries ++ tm.timeoutQueue.items, Belongs d own mine tm.nextId e
  pending : tm'.pendingEntries = mirror mine ρ tm.pendingEntries
  queue : tm'.timeoutQueue.items = mirror mine ρ tm.timeoutQueue.items

variable {d : ℕ} {own : ℕ → Prop} {tm tm' : Timers S E} {s : S} {ev : E} {data p : ℕ} {ms : ℤ}

lemma Belongs.mono {n n' : ℕ} (h : Belongs d own mine n e) (hn : n ≤ n') :
    Belongs d own mine n' e := ⟨h.1.trans_le hn, h.2⟩

/-- The new mark: the next identifier of the chart. -/
def markNext (mine : ℕ → Bool) (n : ℕ) : ℕ → Bool := fun i => i == n || mine i

lemma Belongs.markNext {n : ℕ} (h : Belongs d own mine n e) :
    Belongs d own (markNext mine n) (n + 1) e := by
  refine ⟨h.1.trans (Nat.lt_succ_self _), ?_, h.2.2⟩
  simpa [Timers.markNext, (h.1.ne : e.id ≠ n)] using h.2.1

/-- A timeout of another metadata. -/
lemma Mirror.enqueueTimeout_other (h : Mirror d own mine ρ tm tm') (hd : data ≠ d) (hp : ¬ own p) :
    Mirror d own mine ρ (tm.enqueueTimeout s data ev p ms) tm' := by
  have hnew : mine tm.nextId = false := by
    by_contra hm
    exact absurd (h.lt _ (by simpa using hm)).1 (lt_irrefl _)
  unfold enqueueTimeout
  rw [if_pos h.running.1]
  refine ⟨h.now, h.running, h.stopped, fun id hid => ⟨(h.lt id hid).1.trans (Nat.lt_succ_self _),
    (h.lt id hid).2⟩, h.inj, h.invalid,
    ⟨fun id hid => (h.known.1 id hid).trans (Nat.lt_succ_self _), h.known.2⟩, h.ordered.add _,
    fun e he => ?_, ?_, ?_⟩
  · have hcases : e = tm.newEntry s data ev p ms
        ∨ e ∈ tm.pendingEntries ++ tm.timeoutQueue.items := by
      simp only [List.mem_append, List.mem_singleton, DelayQueue.mem_add] at he ⊢
      tauto
    rcases hcases with rfl | he
    · exact ⟨Nat.lt_succ_self _, by simp [newEntry, hnew, hd], p, rfl, by simp [newEntry, hp, hd]⟩
    · exact (h.belongs e he).mono (Nat.le_succ _)
  · rw [h.pending, mirror_append, mirror_cons_of_not_mine hnew, mirror_nil, List.append_nil]
  · obtain ⟨l₁, l₂, hl, hadd⟩ := DelayQueue.exists_items_add (·.deadline) tm.timeoutQueue
      (tm.newEntry s data ev p ms)
    simp only [hadd]
    rw [h.queue, hl, mirror_append, mirror_append, mirror_cons_of_not_mine hnew]

/-- Different entries of `d` have different identifiers elsewhere. -/
lemma Mirror.injOn (h : Mirror d own mine ρ tm tm') {m : Metadata S}
    (hm : ∀ x, ∀ id ∈ m.timeouts x, mine id = true) : Set.InjOn ρ {id | m.Lists id} :=
  fun i ⟨x, hi⟩ j ⟨y, hj⟩ hij => h.inj i j (hm x i hi) (hm y j hj) hij

lemma Mirror.ordered' (h : Mirror d own mine ρ tm tm') : tm'.timeoutQueue.Ordered (·.deadline) := by
  unfold DelayQueue.Ordered
  rw [h.queue, mirror, List.pairwise_map]
  exact h.ordered.sublist List.filter_sublist

/-- A timeout of the metadata `d` itself gets the next identifier on both sides. -/
lemma Mirror.enqueueTimeout (h : Mirror d own mine ρ tm tm') (hp : own p) :
    Mirror d own (markNext mine tm.nextId) (Function.update ρ tm.nextId tm'.nextId)
      (tm.enqueueTimeout s d ev p ms) (tm'.enqueueTimeout s d ev p ms) := by
  set mine' := markNext mine tm.nextId with hmine
  set ρ' := Function.update ρ tm.nextId tm'.nextId with hρ
  have hself : mine' tm.nextId = true := by simp [hmine, markNext]
  have hρself : ρ' tm.nextId = tm'.nextId := by simp [hρ]
  -- the marks of the earlier entries are as before
  have hold : ∀ i, i < tm.nextId → mine' i = mine i ∧ ρ' i = ρ i := fun i hi => by
    simp [hmine, markNext, hρ, hi.ne]
  have hcases : ∀ i, mine' i = true → i = tm.nextId ∨ i < tm.nextId ∧ mine i = true := by
    intro i hi
    by_cases hn : i = tm.nextId
    · exact Or.inl hn
    · have hm : mine i = true := by simpa [hmine, markNext, hn] using hi
      exact Or.inr ⟨(h.lt i hm).1, hm⟩
  have hcongr : ∀ l : List (EventQueueEntry S E), (∀ e ∈ l, Belongs d own mine tm.nextId e) →
      mirror mine' ρ' l = mirror mine ρ l := fun l hl => mirror_congr fun e he => hold _ (hl e he).1
  have hpending := hcongr tm.pendingEntries fun e he => h.belongs e (List.mem_append_left _ he)
  have hqueue := hcongr tm.timeoutQueue.items fun e he => h.belongs e (List.mem_append_right _ he)
  have hentry : mirror mine' ρ' [tm.newEntry s d ev p ms] = [tm'.newEntry s d ev p ms] := by
    rw [mirror_cons_of_mine hself]
    simp [newEntry, hρself, h.now]
  have hdl : (tm'.newEntry s d ev p ms).deadline = (tm.newEntry s d ev p ms).deadline := by
    simp [newEntry, h.now]
  unfold Timers.enqueueTimeout
  rw [if_pos h.running.1, if_pos h.running.2]
  refine ⟨h.now, h.running, h.stopped, fun i hi => ?_, fun i j hi hj hij => ?_, fun i hi => ?_,
    ⟨fun i hi => (h.known.1 i hi).trans (Nat.lt_succ_self _),
      fun i hi => (h.known.2 i hi).trans (Nat.lt_succ_self _)⟩,
    h.ordered.add _, fun e he => ?_, ?_, ?_⟩
  · rcases hcases i hi with rfl | ⟨hlt, hm⟩
    · exact ⟨Nat.lt_succ_self _, hρself.trans_lt (Nat.lt_succ_self _)⟩
    · exact ⟨hlt.trans (Nat.lt_succ_self _),
        (hold i hlt).2.trans_lt ((h.lt i hm).2.trans (Nat.lt_succ_self _))⟩
  · rcases hcases i hi with rfl | ⟨hlt, hm⟩ <;> rcases hcases j hj with rfl | ⟨hlt', hm'⟩
    · rfl
    · rw [hρself, (hold j hlt').2] at hij
      exact absurd hij (h.lt j hm').2.ne'
    · rw [hρself, (hold i hlt).2] at hij
      exact absurd hij (h.lt i hm).2.ne
    · rw [(hold i hlt).2, (hold j hlt').2] at hij
      exact h.inj i j hm hm' hij
  · rcases hcases i hi with rfl | ⟨hlt, hm⟩
    · rw [hρself]
      exact iff_of_false (fun hi => lt_irrefl _ (h.known.2 _ hi))
        fun hi => lt_irrefl _ (h.known.1 _ hi)
    · rw [(hold i hlt).2]
      exact h.invalid i hm
  · have hmem : e = tm.newEntry s d ev p ms ∨ e ∈ tm.pendingEntries ++ tm.timeoutQueue.items := by
      simp only [List.mem_append, List.mem_singleton, DelayQueue.mem_add] at he ⊢
      tauto
    rcases hmem with rfl | he
    · exact ⟨Nat.lt_succ_self _, by simp [newEntry, hself], p, rfl, by simp [newEntry, hp]⟩
    · exact (h.belongs e he).markNext
  · rw [h.pending, mirror_append, hentry, hpending]
  · have hfilter : ∀ q : EventQueueEntry S E → Bool, (∀ e id, q { e with id := id } = q e) →
        mirror mine' ρ' (tm.timeoutQueue.items.filter q)
          = (mirror mine' ρ' tm.timeoutQueue.items).filter q := fun q hq => mirror_filter q hq
    rw [h.ordered'.items_add, h.ordered.items_add, mirror_append]
    rw [show ∀ l, mirror mine' ρ' (tm.newEntry s d ev p ms :: l) = tm'.newEntry s d ev p ms
      :: mirror mine' ρ' l from fun l => by
        rw [← List.singleton_append, mirror_append, hentry]; rfl]
    rw [hfilter _ fun _ _ => rfl, hfilter _ fun _ _ => rfl, hqueue, h.queue, hdl]

lemma Mirror.markInvalid_other (h : Mirror d own mine ρ tm tm') {id : ℕ} (hid : id < tm.nextId)
    (hm : mine id = false) : Mirror d own mine ρ (tm.markInvalid id) tm' := by
  refine { h with invalid := fun i hi => ?_, known := ⟨fun i hi => ?_, h.known.2⟩ }
  · have hne : i ≠ id := fun he => by simp [he, hm] at hi
    simpa [markInvalid, hne] using h.invalid i hi
  · rcases List.mem_cons.mp hi with rfl | hi
    · exact hid
    · exact h.known.1 i hi

lemma Mirror.markInvalid (h : Mirror d own mine ρ tm tm') {id : ℕ} (hm : mine id = true) :
    Mirror d own mine ρ (tm.markInvalid id) (tm'.markInvalid (ρ id)) := by
  refine { h with invalid := fun i hi => ?_, known := ⟨fun i hi => ?_, fun i hi => ?_⟩ }
  · have hiff : ρ i = ρ id ↔ i = id := ⟨fun he => h.inj i id hi hm he, congrArg ρ⟩
    simp only [Timers.markInvalid, List.mem_cons, hiff, h.invalid i hi]
  · rcases List.mem_cons.mp hi with rfl | hi
    · exact (h.lt _ hm).1
    · exact h.known.1 i hi
  · rcases List.mem_cons.mp hi with rfl | hi
    · exact (h.lt _ hm).2
    · exact h.known.2 i hi

/-- The cancelling of an entry of another metadata. -/
lemma Mirror.cancelTimeout_other (h : Mirror d own mine ρ tm tm') {id : ℕ} (hid : id < tm.nextId)
    (hm : mine id = false) : Mirror d own mine ρ (tm.cancelTimeout id) tm' := by
  have h' := h.markInvalid_other hid hm
  unfold Timers.cancelTimeout
  simp only
  split
  · refine { h' with ordered := h'.ordered.remove _, belongs := fun e he => h'.belongs e ?_,
                     pending := ?_, queue := ?_ }
    · exact List.mem_append.mpr ((List.mem_append.mp he).imp List.mem_of_mem_eraseP
        DelayQueue.mem_of_mem_remove)
    · exact h'.pending.trans (mirror_eraseP_of_not_mine hm).symm
    · exact h'.queue.trans (mirror_eraseP_of_not_mine hm).symm
  · exact h'

/-- The cancelling of an entry of the metadata `d` itself. -/
lemma Mirror.cancelTimeout (h : Mirror d own mine ρ tm tm') {id : ℕ} (hm : mine id = true) :
    Mirror d own mine ρ (tm.cancelTimeout id) (tm'.cancelTimeout (ρ id)) := by
  have h' := h.markInvalid hm
  have hany := any_mirror (l := (tm.markInvalid id).pendingEntries) h'.inj hm
  rw [← h'.pending] at hany
  unfold Timers.cancelTimeout
  simp only [hany]
  split
  · refine { h' with ordered := h'.ordered.remove _, belongs := fun e he => h'.belongs e ?_,
                     pending := ?_, queue := ?_ }
    · exact List.mem_append.mpr ((List.mem_append.mp he).imp List.mem_of_mem_eraseP
        DelayQueue.mem_of_mem_remove)
    · rw [mirror_eraseP h'.inj hm, ← h'.pending]
    · simp only [DelayQueue.remove]
      rw [mirror_eraseP h'.inj hm, ← h'.queue]
  · exact h'

end Timers

/-! ### The calls on the metadata itself -/

/-- The world `v` of a call on the metadata `d`, when the chart works for `d` alone, and the world
`w` of the same call otherwise. The marks and the identifiers of the entries below `n₀` are
given. -/
structure World.Echo (d : ℕ) (own : ℕ → Prop) (n₀ : ℕ) (mine₀ : ℕ → Bool) (ρ₀ : ℕ → ℕ)
    (w v : World S T E P) : Prop where
  renamed : ∃ mine ρ, (∀ i < n₀, mine i = mine₀ i ∧ ρ i = ρ₀ i)
    ∧ Timers.Mirror d own mine ρ w.timers v.timers ∧ v.data = w.data.rename ρ
    ∧ ∀ x, ∀ id ∈ w.data.timeouts x, mine id = true
  bound : n₀ ≤ w.timers.nextId
  dataId : w.dataId = d ∧ v.dataId = d
  paramId : v.paramId = w.paramId
  own : own w.paramId
  param : v.param = w.param
  performed : Obs.performed v.trace = Obs.performed w.trace

namespace World.Echo

variable {c : Chart S T E P} {d n₀ : ℕ} {own : ℕ → Prop} {mine₀ : ℕ → Bool} {ρ₀ : ℕ → ℕ}
variable {w v : World S T E P} {o o' : Obs S T} {s : S}

lemma log (h : w.Echo d own n₀ mine₀ ρ₀ v) (ho : o.isAction = false) (ho' : o'.isAction = false) :
    (w.log o).Echo d own n₀ mine₀ ρ₀ (v.log o') :=
  { h with performed := by simpa [World.log, Obs.performed, ho, ho'] using h.performed }

lemma onData (h : w.Echo d own n₀ mine₀ ρ₀ v) {f : Metadata S → Metadata S}
    (hf : ∀ ρ m, (f m).rename ρ = f (m.rename ρ))
    (ht : ∀ m x, ∀ id ∈ (f m).timeouts x, id ∈ m.timeouts x) :
    (w.onData f).Echo d own n₀ mine₀ ρ₀ (v.onData f) := by
  obtain ⟨mine, ρ, hold, htimers, hdata, hlisted⟩ := h.renamed
  refine { h with renamed := ⟨mine, ρ, hold, htimers, ?_, fun x id hid => ?_⟩ }
  · exact (congrArg f hdata).trans (hf ρ w.data).symm
  · exact hlisted x id (ht _ x id hid)

/-- A change of the record of one state that does not touch its entries. -/
lemma modify [DecidableEq S] (h : w.Echo d own n₀ mine₀ ρ₀ v)
    {f : StateRuntimedata S → StateRuntimedata S}
    (hf : ∀ g d, (f d).mapTimeouts g = f (d.mapTimeouts g))
    (ht : ∀ d, (f d).timeoutEvents = d.timeoutEvents) :
    (w.onData (·.modify s f)).Echo d own n₀ mine₀ ρ₀ (v.onData (·.modify s f)) :=
  h.onData (fun _ _ => Metadata.mapTimeouts_modify (hf _)) fun m x id hid => by
    rwa [Metadata.timeouts_modify_of_eq ht] at hid

lemma perform (h : w.Echo d own n₀ mine₀ ρ₀ v) (o : Obs S T) {a : Option (Action S P)}
    (ha : ∀ f, a = some f → f.Anonymous) :
    (w.perform o a).Echo d own n₀ mine₀ ρ₀ (v.perform o a) := by
  cases a with
  | none => exact h
  | some f =>
      have hf := ha f rfl
      obtain ⟨mine, ρ, hold, htimers, hdata, hlisted⟩ := h.renamed
      have hinj := htimers.injOn hlisted
      refine ⟨⟨mine, ρ, hold, htimers, ?_, fun x id hid => ?_⟩, h.bound, h.dataId, h.paramId, h.own,
        ?_, ?_⟩
      · simp only [World.perform, World.log, h.param, hdata]
        exact hf.data ρ _ _ hinj
      · obtain ⟨y, hy⟩ := hf.lists ⟨x, hid⟩
        exact hlisted y id hy
      · simp only [World.perform, World.log, h.param, hdata]
        exact hf.param ρ _ _ hinj
      · have hp := h.performed
        simp only [World.perform, World.log, Obs.performed, List.filter_cons] at hp ⊢
        rw [hp]

variable [DecidableEq S]

lemma activateData (h : w.Echo d own n₀ mine₀ ρ₀ v) :
    (c.activateData s w).Echo d own n₀ mine₀ ρ₀ (c.activateData s v) :=
  (h.onData (f := (·.activate (c.context s) s)) (fun _ _ => Metadata.mapTimeouts_activate rfl)
    fun _ _ _ hid => by
    rwa [Metadata.timeouts_activate] at hid).log rfl rfl

lemma deactivateData (h : w.Echo d own n₀ mine₀ ρ₀ v) :
    (c.deactivateData s w).Echo d own n₀ mine₀ ρ₀ (c.deactivateData s v) := by
  have honData : (w.onData (·.deactivate (c.kind s).isHistory s)).Echo d own n₀ mine₀ ρ₀
      (v.onData (·.deactivate (c.kind s).isHistory s)) := by
    refine h.onData (fun _ _ => Metadata.mapTimeouts_deactivate) fun m x id hid => ?_
    rw [Metadata.timeouts_deactivate] at hid
    split at hid
    · cases hid
    · exact hid
  obtain ⟨mine, ρ, -, -, hdata, -⟩ := h.renamed
  unfold Chart.deactivateData
  rw [hdata, Metadata.getData_rename]
  cases w.data.getData s with
  | none => exact h
  | some d =>
      simp only [Option.map_some]
      split
      · exact honData
      · exact honData.log rfl rfl

omit [DecidableEq S] in
/-- Every entry that a state has noted down is cancelled on both sides. -/
lemma cancelTimeouts (h : w.Echo d own n₀ mine₀ ρ₀ v) :
    (Chart.cancelTimeouts s w).Echo d own n₀ mine₀ ρ₀ (Chart.cancelTimeouts s v) := by
  obtain ⟨mine, ρ, hold, htimers, hdata, hlisted⟩ := h.renamed
  have key : ∀ (ids : List ℕ) (w v : World S T E P), (∀ id ∈ ids, mine id = true) →
      Timers.Mirror d own mine ρ w.timers v.timers → n₀ ≤ w.timers.nextId →
      Timers.Mirror d own mine ρ (ids.foldl Chart.cancelEntry w).timers
        ((ids.map ρ).foldl Chart.cancelEntry v).timers
        ∧ n₀ ≤ (ids.foldl Chart.cancelEntry w).timers.nextId := by
    intro ids
    induction ids with
    | nil => exact fun w v _ h hn => ⟨h, hn⟩
    | cons id ids ih =>
        intro w v hids h hn
        have hid := hids id List.mem_cons_self
        refine ih _ _ (fun i hi => hids i (List.mem_cons_of_mem _ hi))
          ((h.markInvalid hid).cancelTimeout hid) (hn.trans_eq ?_)
        simp only [Chart.cancelEntry, Timers.cancelTimeout]
        split <;> rfl
  obtain ⟨hmirror, hbound⟩ := key _ w v (hlisted s) htimers h.bound
  have hv : Chart.cancelTimeouts s v = ((w.data.timeouts s).map ρ).foldl Chart.cancelEntry v := by
    rw [Chart.cancelTimeouts, hdata, Metadata.timeouts_rename]
  refine ⟨⟨mine, ρ, hold, hv ▸ hmirror, ?_, ?_⟩, hbound, ?_, ?_, ?_, ?_, ?_⟩
  · rw [data_cancelTimeouts, data_cancelTimeouts, hdata]
  · rw [data_cancelTimeouts]
    exact hlisted
  · rw [(cancels_cancelTimeouts s w).dataId, (cancels_cancelTimeouts s v).dataId]
    exact h.dataId
  · rw [frame_cancelTimeouts.1, frame_cancelTimeouts.1, h.paramId]
  · rw [frame_cancelTimeouts.1]
    exact h.own
  · rw [frame_cancelTimeouts.2.1, frame_cancelTimeouts.2.1, h.param]
  · rw [frame_cancelTimeouts.2.2, frame_cancelTimeouts.2.2, h.performed]

/-- A timeout is scheduled on both sides, with the next identifier of each. -/
lemma scheduleTimeout (h : w.Echo d own n₀ mine₀ ρ₀ v) (t : T) :
    (c.scheduleTimeout s w t).Echo d own n₀ mine₀ ρ₀ (c.scheduleTimeout s v t) := by
  obtain ⟨mine, ρ, hold, htimers, hdata, hlisted⟩ := h.renamed
  unfold Chart.scheduleTimeout
  split
  · exact h
  rename_i ev ms _
  rw [if_pos htimers.running.1, if_pos htimers.running.2]
  have hlt : ∀ x, ∀ id ∈ w.data.timeouts x, id < w.timers.nextId := fun x id hid =>
    (htimers.lt id (hlisted x id hid)).1
  refine ⟨⟨Timers.markNext mine w.timers.nextId, Function.update ρ w.timers.nextId v.timers.nextId,
    fun i hi => ?_, ?_, ?_, fun x id hid => ?_⟩, ?_, h.dataId, h.paramId, h.own, h.param, ?_⟩
  · have hne : i ≠ w.timers.nextId := (hi.trans_le h.bound).ne
    simpa [Timers.markNext, hne, beq_false_of_ne hne] using hold i hi
  · simp only [h.dataId.1, h.dataId.2, h.paramId]
    exact htimers.enqueueTimeout h.own
  · have hρ : ∀ x, ∀ id ∈ w.data.timeouts x,
        Function.update ρ w.timers.nextId v.timers.nextId id = ρ id := fun x id hid => by
      simp [(hlt x id hid).ne]
    ext x : 1
    by_cases hx : x = s
    · subst hx
      rw [Metadata.getData_rename, Metadata.getData_modify_self,
        Metadata.getData_modify_self, hdata, Metadata.getData_rename]
      cases hd : w.data.getData x with
      | none => rfl
      | some r =>
          have hids := fun id hid => hρ x id (by simpa [Metadata.timeouts, hd] using hid)
          simp [StateRuntimedata.mapTimeouts, List.map_congr_left hids]
    · rw [Metadata.getData_rename, Metadata.getData_modify_of_ne hx,
        Metadata.getData_modify_of_ne hx,
        hdata, ← Metadata.getData_rename, Metadata.rename_congr hρ]
  · rw [Metadata.timeouts_modify] at hid
    have hcases : id ∈ w.data.timeouts x ∨ id = w.timers.nextId := by
      split at hid
      · subst x
        cases hd : w.data.getData s with
        | none => simp [hd] at hid
        | some r => simpa [Metadata.timeouts, hd] using hid
      · exact Or.inl hid
    rcases hcases with hid | rfl
    · simp [Timers.markNext, hlisted x id hid]
    · simp [Timers.markNext]
  · refine h.bound.trans ?_
    unfold Timers.enqueueTimeout
    rw [if_pos htimers.running.1]
    exact Nat.le_succ _
  · simpa [Obs.performed, Obs.isAction] using h.performed

lemma scheduleTimeouts (h : w.Echo d own n₀ mine₀ ρ₀ v) :
    (c.scheduleTimeouts s w).Echo d own n₀ mine₀ ρ₀ (c.scheduleTimeouts s v) := by
  unfold Chart.scheduleTimeouts
  induction c.transitions s generalizing w v with
  | nil => exact h
  | cons t l ih => exact ih (h.scheduleTimeout t)

end World.Echo

/-- A call on a metadata is the same call when the chart works for this metadata alone. -/
lemma similar_echo [DecidableEq S] {c : Chart S T E P} (hc : c.Anonymous) {d n₀ : ℕ}
    {own : ℕ → Prop} {mine₀ : ℕ → Bool} {ρ₀ : ℕ → ℕ} :
    c.Similar (World.Echo d own n₀ mine₀ ρ₀) where
  isActive s h := by
    obtain ⟨mine, ρ, -, -, hdata, -⟩ := h.renamed
    rw [hdata, Metadata.rename, Metadata.isActive_mapTimeouts]
  current s h := by
    obtain ⟨mine, ρ, -, -, hdata, -⟩ := h.renamed
    rw [hdata, Metadata.rename, Metadata.current_mapTimeouts]
  stateset s h := by
    obtain ⟨mine, ρ, -, -, hdata, -⟩ := h.renamed
    rw [hdata, Metadata.rename, Metadata.stateset_mapTimeouts]
  isSome s h := by
    obtain ⟨mine, ρ, -, -, hdata, -⟩ := h.renamed
    rw [hdata, Metadata.getData_rename, Option.isSome_map]
  guardHolds t h := by
    obtain ⟨mine, ρ, -, htimers, hdata, hlisted⟩ := h.renamed
    unfold Transition.guardHolds
    split
    · rfl
    · rw [h.param, hdata]
      exact (hc.guard ‹_› ρ _ _ (htimers.injOn hlisted)).symm
  triggered t e h := by
    obtain ⟨mine, ρ, -, htimers, hdata, hlisted⟩ := h.renamed
    unfold Transition.triggered
    split
    · rfl
    · rw [h.param, hdata, hc.equals _ _ ρ _ _ (htimers.injOn hlisted)]
  fire _ h := h.log rfl rfl
  fired _ _ h := h.log rfl rfl
  fallThrough _ _ h := h.log rfl rfl
  entering _ h := h.log rfl rfl
  entered _ h := h.log rfl rfl
  effect _ h := h.perform _ fun _ => hc.actions.effect
  entry _ h := h.perform _ fun _ => hc.actions.entry
  doing _ h := h.perform _ fun _ => hc.actions.doing
  exit _ h := h.perform _ fun _ => hc.actions.exit
  activateData _ h := h.activateData
  scheduleTimeouts _ h _ := h.scheduleTimeouts
  leave _ h _ := h.cancelTimeouts.deactivateData
  registerRegion n r h := by
    refine h.onData (fun ρ m => ?_) fun m x id hid => ?_
    · rw [Metadata.rename, Metadata.mapTimeouts_modify fun d => ?_,
        Metadata.mapTimeouts_createRuntimedata rfl]
      · rfl
      by_cases hr : r ∈ d.stateset <;> simp [StateRuntimedata.mapTimeouts, hr]
    · rwa [Metadata.timeouts_modify_of_eq fun d => by split <;> rfl,
        Metadata.timeouts_createRuntimedata] at hid
  clearStateset _ h := h.modify (fun _ _ => rfl) fun _ => rfl
  clearCurrent _ h := h.modify (fun _ _ => rfl) fun _ => rfl
  storeChain _ _ h := h.modify (fun _ _ => rfl) fun _ => rfl

/-! ### The calls of the others -/

section Apart

variable [DecidableEq S] {d : ℕ} {own : ℕ → Prop}

/-- A call on another metadata, with another parameter, leaves nothing that `d` would see. -/
def World.Apart (d : ℕ) (own : ℕ → Prop) (mine : ℕ → Bool) (ρ : ℕ → ℕ) (w w' : World S T E P) :
    Prop :=
  w'.dataId = w.dataId ∧ w'.paramId = w.paramId ∧ (w.dataId ≠ d → ¬ own w.paramId → ∀ tm',
    Timers.Mirror d own mine ρ w.timers tm' →
    (∀ x, ∀ id ∈ w.data.timeouts x, id < w.timers.nextId ∧ mine id = false) →
    Timers.Mirror d own mine ρ w'.timers tm' ∧ w.timers.nextId ≤ w'.timers.nextId
      ∧ ∀ x, ∀ id ∈ w'.data.timeouts x, id < w'.timers.nextId ∧ mine id = false)

omit [DecidableEq S] in
lemma World.Apart.trans {w₁ w₂ w₃ : World S T E P} (h : w₁.Apart d own mine ρ w₂)
    (h' : w₂.Apart d own mine ρ w₃) : w₁.Apart d own mine ρ w₃ := by
  refine ⟨h'.1.trans h.1, h'.2.1.trans h.2.1, fun hd hp tm' hm hx => ?_⟩
  obtain ⟨h₁, hn, h₂⟩ := h.2.2 hd hp tm' hm hx
  obtain ⟨h₃, hn', h₄⟩ := h'.2.2 (h.1 ▸ hd) (h.2.1 ▸ hp) tm' h₁ h₂
  exact ⟨h₃, hn.trans hn', h₄⟩

omit [DecidableEq S] in
/-- A change that leaves the timers alone and notes down no entry. -/
lemma World.Apart.of_timers {w w' : World S T E P} (ht : w'.timers = w.timers)
    (hd : w'.dataId = w.dataId) (hp : w'.paramId = w.paramId)
    (hx : ∀ x, ∀ id ∈ w'.data.timeouts x, w.data.Lists id) : w.Apart d own mine ρ w' := by
  refine ⟨hd, hp, fun _ _ tm' hm hx' => ?_⟩
  rw [ht]
  refine ⟨hm, le_rfl, fun x id hid => ?_⟩
  obtain ⟨y, hy⟩ := hx x id hid
  exact hx' y id hy

lemma apart_scheduleTimeout {c : Chart S T E P} {w : World S T E P} (s : S) (t : T) :
    w.Apart d own mine ρ (c.scheduleTimeout s w t) := by
  unfold Chart.scheduleTimeout
  split
  · exact World.Apart.of_timers rfl rfl rfl fun x _ hid => ⟨x, hid⟩
  rename_i ev ms _
  split
  swap
  · exact World.Apart.of_timers rfl rfl rfl fun x _ hid => ⟨x, hid⟩
  rename_i hrun
  refine ⟨rfl, rfl, fun hd hp tm' hm hx => ?_⟩
  have hnext : (w.timers.enqueueTimeout s w.dataId ev w.paramId ms).nextId =
    w.timers.nextId + 1 := by
    simp [Timers.enqueueTimeout, hrun]
  have hnew : mine w.timers.nextId = false := by
    by_contra hmine
    exact absurd (hm.lt _ (by simpa using hmine)).1 (lt_irrefl _)
  refine ⟨hm.enqueueTimeout_other hd hp, hnext ▸ Nat.le_succ _, fun x id hid => ?_⟩
  rw [Metadata.timeouts_modify] at hid
  rw [hnext]
  have hcases : id ∈ w.data.timeouts x ∨ id = w.timers.nextId := by
    split at hid
    · subst x
      cases hd : w.data.getData s with
      | none => simp [hd] at hid
      | some r => simpa [Metadata.timeouts, hd] using hid
    · exact Or.inl hid
  rcases hcases with hid | rfl
  · exact ⟨(hx x id hid).1.trans (Nat.lt_succ_self _), (hx x id hid).2⟩
  · exact ⟨Nat.lt_succ_self _, hnew⟩

omit [DecidableEq S] in
lemma apart_cancelTimeouts {w : World S T E P} (s : S) :
    w.Apart d own mine ρ (Chart.cancelTimeouts s w) := by
  refine ⟨(cancels_cancelTimeouts s w).dataId, frame_cancelTimeouts.1, fun _ _ tm' hm hx => ?_⟩
  rw [data_cancelTimeouts]
  have key : ∀ (ids : List ℕ) (w : World S T E P), (∀ id ∈ ids, id < w.timers.nextId
      ∧ mine id = false) → Timers.Mirror d own mine ρ w.timers tm' →
      Timers.Mirror d own mine ρ (ids.foldl Chart.cancelEntry w).timers tm' := by
    intro ids
    induction ids with
    | nil => exact fun w _ h => h
    | cons id ids ih =>
        intro w hids h
        obtain ⟨hlt, hid⟩ := hids id List.mem_cons_self
        have hn : (Chart.cancelEntry w id).timers.nextId = w.timers.nextId := by
          simp only [Chart.cancelEntry, Timers.cancelTimeout]
          split <;> rfl
        refine ih _ (fun i hi => ?_) ((h.markInvalid_other hlt hid).cancelTimeout_other hlt hid)
        rw [hn]
        exact hids i (List.mem_cons_of_mem _ hi)
  have hn := (cancels_cancelTimeouts s w).nextId
  exact ⟨key _ w (hx s) hm, hn.ge, fun x id hid => hn ▸ hx x id hid⟩

lemma compatible_apart {c : Chart S T E P} (hc : c.Anonymous) :
    Compatible c Set.univ (World.Apart d own mine ρ) := by
  refine compatible_of_actions hc.actions (fun w o f hf => ?_) World.Apart.trans
    (fun w w' h => ?_) (fun s w t => apart_scheduleTimeout s t) fun s w => ?_
  · exact World.Apart.of_timers rfl rfl rfl fun x _ hid => hf.lists ⟨x, hid⟩
  · exact World.Apart.of_timers h.timers h.dataId h.paramId fun x id hid =>
      ⟨x, h.timeouts x ▸ hid⟩
  · refine (apart_cancelTimeouts s).trans ?_
    unfold Chart.leave Chart.deactivateData
    split
    · exact World.Apart.of_timers rfl rfl rfl fun x _ hid => ⟨x, hid⟩
    · have hx :
        ∀ x, ∀ id ∈ ((Chart.cancelTimeouts s w).data.deactivate (c.kind s).isHistory s).timeouts x,
          (Chart.cancelTimeouts s w).data.Lists id := by
        intro x id hid
        rw [Metadata.timeouts_deactivate] at hid
        split at hid
        · cases hid
        · exact ⟨x, hid⟩
      simp only
      split <;> exact World.Apart.of_timers rfl rfl rfl hx

lemma apart_enter {c : Chart S T E P} (w : World S T E P) :
    w.Apart d own mine ρ (Statechart.enter c w) := by
  refine World.Apart.of_timers (timers_enter w) (frame_enter w).1 (frame_enter w).2.1
    fun x id hid => ?_
  have hreset : ∀ x, (Metadata.reset : Metadata S).timeouts x = [] := fun _ => rfl
  unfold Statechart.enter at hid
  split at hid <;> simp [hreset, World.onData, World.log] at hid

end Apart

end CppStatecharts
