import CppStatecharts.Semantics.Links
import CppStatecharts.Semantics.Records
import CppStatecharts.Timers.Frame

/-!
What the observations of a run tell about its configurations.

* `Obs.activeIn`: the states that the notifications of the observers show as active;
  `World.Tells` says that they are right about a state.
* `Obs.inProgress`: the entry into a concurrent state has begun and not ended; `compatible_level`
  says that no method leaves such an entry open.
* `Obs.Unbroken`: no concurrent state is left while it is being entered.
* `Chart.Nests`: entry actions run inside an active context, exit actions after everything inside
  was left, and the two alternate.
* `Chart.Recorded`: the record of the run agrees with the configuration; `Recorded.greet`,
  `Recorded.depart` and `Recorded.visit` are the changes that count.
-/

namespace CppStatecharts

variable {S T E P : Type} [DecidableEq S]

namespace Obs

/-- The states that are active according to the notifications. -/
def activeIn (x : S) : List (Obs S T) → Bool
  | [] => false
  | .activated y :: l => decide (x = y) || activeIn x l
  | .deactivated y :: l => !decide (x = y) && activeIn x l
  | .reset :: _ => false
  | _ :: l => activeIn x l

/-- The action of `s` that was called last is its entry action. -/
def opened (s : S) : List (Obs S T) → Bool
  | [] => false
  | .entry y :: l => decide (s = y) || opened s l
  | .exit y :: l => !decide (s = y) && opened s l
  | .reset :: _ => false
  | _ :: l => opened s l

def isEntering (n : S) : Obs S T → Bool
  | .entering x => x = n
  | _ => false

def isEntered (n : S) : Obs S T → Bool
  | .entered x => x = n
  | _ => false

/-- An entry into the concurrent state `n` has begun and not ended. -/
def inProgress (n : S) (l : List (Obs S T)) : Prop :=
  l.countP (isEntering n) ≠ l.countP (isEntered n)

/-- No concurrent state is left while it is being entered. -/
def Unbroken (l : List (Obs S T)) : Prop :=
  ∀ newer n older, l = newer ++ .deactivated n :: older → ¬ inProgress n older

/-- The newest observation is not the exit of a concurrent state that is being entered. -/
def isIntact : List (Obs S T) → Bool
  | .deactivated n :: l => l.countP (isEntering n) == l.countP (isEntered n)
  | _ => true

lemma unbroken_iff {l : List (Obs S T)} : Unbroken l ↔ ∀ l' ∈ l.tails, isIntact l' = true := by
  constructor
  · intro h l' hl'
    obtain ⟨newer, rfl⟩ := (List.mem_tails _ _).mp hl'
    unfold isIntact
    split
    · rename_i n older
      simpa [inProgress] using h newer n older rfl
    · rfl
  · rintro h newer n older rfl
    have := h (.deactivated n :: older) ((List.mem_tails _ _).mpr (List.suffix_append _ _))
    simpa [inProgress, isIntact] using this

instance (l : List (Obs S T)) : Decidable (Unbroken l) := decidable_of_iff _ unbroken_iff.symm

/-- Neither a reset nor a mark of the entry into a concurrent state. -/
def isPlain : Obs S T → Bool
  | .reset | .entering _ | .entered _ => false
  | _ => true

/-- No notification, no reset, no mark of an entry or of the end of a firing, and no call of an
entry or exit action. -/
def isIdle : Obs S T → Bool
  | .reset | .entering _ | .entered _ | .activated _ | .deactivated _ | .entry _ | .exit _ => false
  | .fired .. => false
  | _ => true

variable {n x : S} {o : Obs S T} {l l' : List (Obs S T)}

omit [DecidableEq S] in
lemma isPlain_of_isIdle (h : isIdle o = true) : isPlain o = true := by
  cases o <;> simp_all [isIdle, isPlain]

lemma activeIn_cons (h : isIdle o = true) : activeIn x (o :: l) = activeIn x l := by
  cases o <;> first | rfl | simp [isIdle] at h

lemma activeIn_append (h : ∀ o ∈ l', isIdle o = true) : activeIn x (l' ++ l) = activeIn x l := by
  induction l' with
  | nil => rfl
  | cons o l' ih =>
      rw [List.cons_append, activeIn_cons (h o List.mem_cons_self)]
      exact ih fun o ho => h o (List.mem_cons_of_mem _ ho)

lemma opened_cons (h : ∀ y, o ≠ .entry y ∧ o ≠ .exit y) (hr : o ≠ .reset) :
    opened x (o :: l) = opened x l := by
  cases o with
  | entry y => exact absurd rfl (h y).1
  | exit y => exact absurd rfl (h y).2
  | reset => exact absurd rfl hr
  | _ => rfl

lemma opened_append (h : ∀ o ∈ l', (∀ y, o ≠ .entry y ∧ o ≠ .exit y) ∧ o ≠ .reset) :
    opened x (l' ++ l) = opened x l := by
  induction l' with
  | nil => rfl
  | cons o l' ih =>
      have ho := h o List.mem_cons_self
      rw [List.cons_append, opened_cons ho.1 ho.2]
      exact ih fun o ho => h o (List.mem_cons_of_mem _ ho)

lemma Unbroken.of_append (h : Unbroken (l' ++ l)) : Unbroken l := by
  rintro newer n older rfl
  exact h (l' ++ newer) n older (by simp)

lemma inProgress_append (hl : ∀ o ∈ l', isPlain o = true) :
    inProgress n (l' ++ l) ↔ inProgress n l := by
  have h : ∀ f : Obs S T → Bool, (∀ o, isPlain o = true → f o = false) → l'.countP f = 0 :=
    fun f hf => List.countP_eq_zero.mpr fun o ho => by simp [hf o (hl o ho)]
  rw [inProgress, inProgress, List.countP_append, List.countP_append,
    h (isEntering n) fun o ho => by cases o <;> simp_all [isPlain, isEntering],
    h (isEntered n) fun o ho => by cases o <;> simp_all [isPlain, isEntered]]
  simp

/-- A state that is being entered is not left. -/
lemma Unbroken.activeIn (h : Unbroken (l' ++ l)) (hl : ∀ o ∈ l', isPlain o = true)
    (hn : inProgress n l) (ha : activeIn n l = true) : activeIn n (l' ++ l) = true := by
  induction l' with
  | nil => exact ha
  | cons o l' ih =>
      have hplain : ∀ o ∈ l', isPlain o = true := fun o ho => hl o (List.mem_cons_of_mem _ ho)
      have hrest := ih (Unbroken.of_append (show Unbroken ([o] ++ (l' ++ l)) from h)) hplain
      cases o with
      | deactivated y =>
          have hne : n ≠ y := by
            rintro rfl
            exact h [] n (l' ++ l) rfl ((inProgress_append hplain).mpr hn)
          simpa [Obs.activeIn, hne] using hrest
      | reset => exact absurd (hl .reset List.mem_cons_self) (by simp [isPlain])
      | activated y => simp [Obs.activeIn, hrest]
      | _ => exact hrest

end Obs

/-- Entry actions run inside an active context, exit actions when nothing inside is active any
more; where a state has both, they alternate and the entry action comes first. Pseudo-states do not
count. -/
def Chart.Nests (c : Chart S T E P) : List (Obs S T) → Prop
  | [] => True
  | .entry s :: l => c.Nests l ∧ ((c.kind s).isPseudo = false →
      (∀ p, c.context s = some p → Obs.activeIn p l = true)
        ∧ ((c.exitAction s).isSome = true → Obs.opened s l = false))
  | .exit s :: l => c.Nests l ∧ ((c.kind s).isPseudo = false →
      (∀ x, c.Below x s → x ≠ s → (c.kind x).isPseudo = false → Obs.activeIn x l = false)
        ∧ ((c.entryAction s).isSome = true → Obs.opened s l = true))
  | _ :: l => c.Nests l

/-- The notifications show whether `x` is active. -/
def World.Tells (x : S) (w : World S T E P) : Prop :=
  w.data.isActive x = Obs.activeIn x w.trace

/-- The states with both actions are active exactly when their entry action was called last. -/
def Chart.Matched (c : Chart S T E P) (w : World S T E P) : Prop :=
  ∀ x p, (c.kind x).isPseudo = false → c.context x = some p → (c.entryAction x).isSome = true →
    (c.exitAction x).isSome = true → Obs.opened x w.trace = w.data.isActive x

/-- The same entries into concurrent states are in progress. -/
def World.Level (w w' : World S T E P) : Prop := ∀ n,
  w'.trace.countP (Obs.isEntering n) + w.trace.countP (Obs.isEntered n)
    = w.trace.countP (Obs.isEntering n) + w'.trace.countP (Obs.isEntered n)

variable {c : Chart S T E P} {w w₁ w' : World S T E P} {s n : S} {o : Obs S T}
variable {l l' : List (Obs S T)}

lemma nests_cons (h : ∀ s, o ≠ .entry s ∧ o ≠ .exit s) : c.Nests (o :: l) ↔ c.Nests l := by
  cases o with
  | entry s => exact absurd rfl (h s).1
  | exit s => exact absurd rfl (h s).2
  | _ => rfl

/-- Only the calls of entry and exit actions matter. -/
lemma nests_append (h : ∀ o ∈ l', ∀ s, o ≠ .entry s ∧ o ≠ .exit s) :
    c.Nests (l' ++ l) ↔ c.Nests l := by
  induction l' with
  | nil => rfl
  | cons o l' ih =>
      rw [List.cons_append, nests_cons (h o List.mem_cons_self)]
      exact ih fun o ho => h o (List.mem_cons_of_mem _ ho)

/-- Only idle observations are added. -/
abbrev World.Idles (w w' : World S T E P) : Prop := w.Adds (fun o => o.isIdle = true) w'

/-! ### The notifications -/

namespace World

variable {x : S}

lemma Tells.of_idles (h : w.Tells x) (ha : w'.data.isActive x = w.data.isActive x)
    (ht : w.Idles w') : w'.Tells x := by
  obtain ⟨l, hl, hidle⟩ := ht
  rw [Tells, ha, hl, Obs.activeIn_append hidle]
  exact h

lemma Tells.activated (h : w.Tells x)
    (ha : w'.data.isActive x = (decide (x = s) || w.data.isActive x))
    (ht : w'.trace = .activated s :: w.trace) : w'.Tells x := by
  rw [Tells, ha, ht, Obs.activeIn, show w.data.isActive x = _ from h]

lemma Tells.log (h : w.Tells x)
    (ho : Obs.activeIn x (o :: w.trace) = Obs.activeIn x w.trace) : (w.log o).Tells x := by
  rw [Tells, World.trace_log, ho]
  exact h

end World

variable (c s w) in
/-- The marks of `State::activate` before the client's actions run. -/
lemma trace_arrive : ∃ l, (c.arrive s w).trace = l ++ .activated s :: w.trace
    ∧ ∀ o ∈ l, o.isIdle = true :=
  adds_scheduleTimeouts (p := fun o => o.isIdle = true) (w := c.activateData s w)
    fun _ _ _ => rfl

namespace World

variable {x : S}

lemma Tells.arrive (h : w.Tells x) : (c.arrive s w).Tells x := by
  obtain ⟨l, hl, hidle⟩ := trace_arrive c w s
  rw [Tells, isActive_arrive, hl, Obs.activeIn_append hidle, Obs.activeIn,
    show w.data.isActive x = _ from h]

/-- Leaving `s` shows in the marks. -/
lemma activeIn_leave (hl : ∀ o ∈ l', o = .deactivated s ∨ ∃ id, o = .invalidated id)
    (hs : .deactivated s ∈ l' ∨ x ≠ s) :
    Obs.activeIn x (l' ++ l) = (!decide (x = s) && Obs.activeIn x l) := by
  induction l' with
  | nil =>
      have hne : x ≠ s := hs.resolve_left (by simp)
      simp [hne]
  | cons o l' ih =>
      have hl' := fun o ho => hl o (List.mem_cons_of_mem _ ho)
      rcases hl o List.mem_cons_self with rfl | ⟨i, rfl⟩
      · by_cases hx : x = s
        · simp [Obs.activeIn, hx]
        · simp [Obs.activeIn, hx, ih hl' (Or.inr hx)]
      · exact ih hl' (hs.imp (fun h => by simpa using h) id)

lemma Tells.leave (h : w.Tells x) (hx : (c.kind x).isHistory = false)
    (hs : w.data.isActive s = true) : (c.leave s w).Tells x := by
  obtain ⟨l, hl, hmarks, hleft⟩ := trace_leave (c := c) (s := s) (w := w)
  rw [Tells, isActive_leave, hl, show w.data.isActive x = _ from h]
  refine (activeIn_leave (fun o ho => (hmarks o ho).imp id fun ⟨id, _, h⟩ => ⟨id, h⟩) ?_).symm
  by_cases hxs : x = s
  · subst hxs
    obtain ⟨d, hd, -⟩ := w.data.exists_of_isActive hs
    exact Or.inl (hleft hx (by simp [hd]))
  · exact Or.inr hxs

lemma Tells.perform (h : w.Tells x) {a : Option (Action S P)} (ho : o.isAction = true)
    (hd : (w.perform o a).data = w.data) : (w.perform o a).Tells x := by
  cases a with
  | none => exact h
  | some f =>
      have hf : (w.perform o (some f)).trace = o :: w.trace := rfl
      rw [Tells, hd, hf, show w.data.isActive x = _ from h]
      cases o <;> first | rfl | simp [Obs.isAction] at ho

end World

/-! ### The record of a run -/

/-- Active states have active contexts, unless these are concurrent as their current states, and
current states are active. Histories do not count. -/
structure Chart.Connected (c : Chart S T E P) (m : Metadata S) : Prop where
  upward : ∀ {x p}, (c.kind x).isHistory = false → m.isActive x = true → c.context x = some p →
    m.isActive p = true
  single : ∀ {x p}, (c.kind x).isHistory = false → m.isActive x = true → c.context x = some p →
    c.kind p ≠ .concurrentState → m.current p = some x
  live : ∀ {p q}, c.kind p ≠ .concurrentState → m.isActive p = true → m.current p = some q →
    m.isActive q = true

/-- Inside `p`, just the states of `l` are active, and states inside concurrent ones among them. -/
structure Chart.Reinstated (c : Chart S T E P) (p : S) (l : List S) (m : Metadata S) : Prop where
  active : ∀ q ∈ l, m.isActive q = true
  only : ∀ {x}, (c.kind x).isHistory = false → c.Below x p → x ≠ p → m.isActive x = true →
    x ∈ l ∨ ∃ q ∈ l, c.kind q = .concurrentState ∧ c.Below x q

/-- The states of `l`, histories apart, are active inside `p`; nothing else is but for states inside
concurrent ones among them, unless a history among them has restored something. -/
structure Chart.Regained (c : Chart S T E P) (p : S) (l : List S) (m : Metadata S) : Prop where
  active : ∀ q ∈ l, (c.kind q).isHistory = false → m.isActive q = true
  only : (∀ q ∈ l, (c.kind q).isHistory = true → m.stateset q = []) →
    ∀ {x}, (c.kind x).isHistory = false → c.Below x p → x ≠ p → m.isActive x = true →
      x ∈ l ∨ ∃ q ∈ l, c.kind q = .concurrentState ∧ c.Below x q

/-- If `h` is a history, it has restored what it has stored. -/
def Chart.Recovers (c : Chart S T E P) (h : S) (m : Metadata S) : Prop :=
  (c.kind h).isHistory = true → ∀ p, c.context h = some p → c.Regained p (m.stateset h) m

/-- What the firing of `t` makes of a configuration: it stays connected; the source was active;
unless `t` is internal, or leads to a history, the target is active now, and nothing inside a state
that had to be left is, and a history has restored what it has stored. -/
structure Chart.Carried (c : Chart S T E P) (t : T) (before after : Metadata S) : Prop where
  connected : c.Connected before
  settled : c.Connected after
  recovers : c.internal t = false → c.Recovers (c.target t) after
  source : before.isActive (c.source t) = true
  target : c.internal t = false → (c.kind (c.target t)).isHistory = false →
    after.isActive (c.target t) = true
  left : c.internal t = false → (c.kind (c.target t)).isHistory = false → ∀ {m d x},
    c.context d = some m → c.Below (c.source t) d → c.Below (c.target t) m →
      ¬ c.Below (c.target t) d →
      (c.kind x).isHistory = false → c.Below x d → after.isActive x = false

/-- The record tells the truth: the notifications agree with the configuration, pseudo-states apart,
the actions are nested and alternate, and firings have done their work. -/
structure Chart.Recorded (c : Chart S T E P) (w : World S T E P) : Prop where
  told : ∀ x, (c.kind x).isPseudo = false → w.Tells x
  nests : c.Nests w.trace
  matched : c.Matched w
  carried : ∀ {t a b}, .fired t a b ∈ w.trace → c.Carried t a b

namespace Chart

/-- The marks of firings that were there before are all there are. -/
lemma Recorded.carried_of_adds (h : c.Recorded w)
    (ht : w.Adds (fun o => ∀ t a b, o ≠ .fired t a b) w') {t : T} {a b : Metadata S}
    (hm : .fired t a b ∈ w'.trace) : c.Carried t a b := by
  obtain ⟨l, hl, hn⟩ := ht
  rw [hl] at hm
  exact h.carried ((List.mem_append.mp hm).resolve_left fun hm => hn _ hm t a b rfl)

lemma Recorded.of_idles (h : c.Recorded w) (ha : ∀ x, w'.data.isActive x = w.data.isActive x)
    (ht : w.Idles w') : c.Recorded w' := by
  refine ⟨fun x hx => (h.told x hx).of_idles (ha x) ht, ?_, ?_, h.carried_of_adds (ht.mono ?_)⟩
  · obtain ⟨l, hl, hidle⟩ := ht
    rw [hl, nests_append]
    · exact h.nests
    · intro o ho s
      have := hidle o ho
      cases o <;> simp_all [Obs.isIdle]
  · obtain ⟨l, hl, hidle⟩ := ht
    intro x p hx hp he he'
    rw [hl, ha, Obs.opened_append]
    · exact h.matched x p hx hp he he'
    · intro o ho
      have := hidle o ho
      cases o <;> simp_all [Obs.isIdle]
  · rintro o ho t a b rfl
    cases ho

lemma Recorded.of_eq (h : c.Recorded w) (ha : ∀ x, w'.data.isActive x = w.data.isActive x)
    (ht : w'.trace = w.trace) : c.Recorded w' :=
  h.of_idles ha (World.Adds.of_eq ht)

lemma Recorded.log_entering (h : c.Recorded w) : c.Recorded (w.log (.entering n)) :=
  ⟨fun x hx => (h.told x hx).log rfl, h.nests, h.matched,
    h.carried_of_adds (World.Adds.of_cons rfl (by simp))⟩

lemma Recorded.log_entered (h : c.Recorded w) : c.Recorded (w.log (.entered n)) :=
  ⟨fun x hx => (h.told x hx).log rfl, h.nests, h.matched,
    h.carried_of_adds (World.Adds.of_cons rfl (by simp))⟩

/-- The end of a firing that has done its work. -/
lemma Recorded.log_fired (h : c.Recorded w) {t : T} {a : Metadata S} (ht : c.Carried t a w.data) :
    c.Recorded (w.log (.fired t a w.data)) := by
  refine ⟨fun x hx => (h.told x hx).log rfl, h.nests, h.matched, fun {t' a' b'} hm => ?_⟩
  rcases List.mem_cons.mp hm with heq | hm
  · cases heq
    exact ht
  · exact h.carried hm

/-- What a pseudo-state does on its entry does not count. -/
lemma Recorded.visit (hc : c.ActionsKeepData) (h : c.Recorded w)
    (hs : (c.kind s).isPseudo = true) : c.Recorded (c.visit s w) := by
  have hvisit : w.Adds (fun o => ∀ t a b, o ≠ .fired t a b) (c.visit s w) :=
    (show w.Adds _ (c.activateData s w) from World.Adds.of_cons rfl (by simp)).trans
      (World.adds_perform (by simp))
  refine ⟨fun x hx => ((h.told x hx).activated (by simp) rfl).perform rfl hc.data_entry, ?_, ?_,
    h.carried_of_adds hvisit⟩
  · rw [Chart.visit]
    cases c.entryAction s with
    | none => exact h.nests
    | some f => exact ⟨h.nests, fun hk => by rw [hs] at hk; cases hk⟩
  · intro x p hx hp he he'
    have hxs : x ≠ s := by
      rintro rfl
      rw [hs] at hx
      cases hx
    have ha : (c.visit s w).data.isActive x = w.data.isActive x := by
      rw [Chart.visit, hc.data_entry]
      simp [hxs]
    rw [ha, ← h.matched x p hx hp he he', Chart.visit]
    cases c.entryAction s with
    | none => rfl
    | some f =>
        show (decide (x = s) || Obs.opened x w.trace) = _
        simp [hxs]

variable (c w s) in
/-- No firing ends when a state is entered. -/
lemma adds_arrive : w.Adds (fun o => ∀ t a b, o ≠ .fired t a b) (c.arrive s w) := by
  obtain ⟨l, hl, hidle⟩ := trace_arrive c w s
  refine ⟨l ++ [.activated s], by rw [hl]; simp, fun o ho => ?_⟩
  rcases List.mem_append.mp ho with ho | ho
  · rintro t a b rfl
    cases hidle _ ho
  · rw [List.mem_singleton.mp ho]
    simp

omit [DecidableEq S] in
lemma isPseudo_of_context {p : S} (h : c.context s = some p) : (c.kind p).isPseudo = false := by
  have := c.context_kind h
  cases hk : c.kind p <;> simp_all [StateKind.isPseudo, StateKind.isContext]

/-- A state is entered inside an active context. -/
lemma Recorded.greet {p : S} (hc : c.ActionsKeepData) (h : c.Recorded w)
    (hs : (c.kind s).isPseudo = false) (hp : c.context s = some p)
    (ha : w.data.isActive p = true) (hi : w.data.isActive s = false) :
    c.Recorded (c.greet s (c.arrive s w)) := by
  have htold : ∀ x, (c.kind x).isPseudo = false → (c.arrive s w).Tells x := fun x hx =>
    (h.told x hx).arrive
  obtain ⟨l, hl, hidle⟩ := trace_arrive c w s
  have hopen : ∀ x, Obs.opened x (c.arrive s w).trace = Obs.opened x w.trace := by
    intro x
    rw [hl, Obs.opened_append, Obs.opened_cons (by simp) (by simp)]
    intro o ho
    have := hidle o ho
    cases o <;> simp_all [Obs.isIdle]
  have hdo : ∀ w : World S T E P, c.Recorded w →
      c.Recorded (w.perform (.doing s) (c.doAction s)) := fun w h =>
    h.of_idles (fun _ => by rw [hc.data_doing]) (World.adds_perform rfl)
  refine hdo _ ⟨fun x hx => (htold x hx).perform rfl hc.data_entry, ?_, ?_,
    h.carried_of_adds ((adds_arrive c w s).trans (World.adds_perform (by simp)))⟩
  · have hnests : c.Nests (c.arrive s w).trace := by
      rw [hl, nests_append, nests_cons (by simp)]
      · exact h.nests
      · intro o ho x
        have := hidle o ho
        cases o <;> simp_all [Obs.isIdle]
    cases he : c.entryAction s with
    | none => exact hnests
    | some f =>
        refine ⟨hnests, fun _ => ⟨fun q hq => ?_, fun hx => ?_⟩⟩
        · obtain rfl := Option.some.inj (hp.symm.trans hq)
          rw [← htold p (isPseudo_of_context hp), isActive_arrive, ha, Bool.or_true]
        · rw [hopen, h.matched s p hs hp (by simp [he]) hx, hi]
  · intro x q hx hq he he'
    rw [hc.data_entry, isActive_arrive, ← h.matched x q hx hq he he', ← hopen]
    cases hes : c.entryAction s with
    | none =>
        have hxs : x ≠ s := by
          rintro rfl
          rw [hes] at he
          cases he
        simp [World.perform, hxs]
    | some f => rfl

/-- A state is left when nothing inside is active. -/
lemma Recorded.depart (hc : c.ActionsKeepData) (h : c.Recorded w) (ha : w.data.isActive s = true)
    (hs : s ≠ c.root)
    (hin : ∀ x, c.Below x s → x ≠ s → (c.kind x).isHistory = false → w.data.isActive x = false) :
    c.Recorded ((c.leave s w).perform (.exit s) (c.exitAction s)) := by
  have htold : ∀ x, (c.kind x).isPseudo = false → (c.leave s w).Tells x := fun x hx =>
    (h.told x hx).leave (StateKind.isHistory_eq_false_of_isPseudo hx) ha
  obtain ⟨l, hl, hmarks, -⟩ := trace_leave (c := c) (s := s) (w := w)
  obtain ⟨p, hp⟩ := context_eq_some_of_ne_root hs
  have hopen : ∀ x, Obs.opened x (c.leave s w).trace = Obs.opened x w.trace := by
    intro x
    rw [hl, Obs.opened_append]
    intro o ho
    rcases hmarks o ho with rfl | ⟨_, _, rfl⟩ <;> simp
  have hleave : w.Adds (fun o => ∀ t a b, o ≠ .fired t a b) (c.leave s w) := by
    refine ⟨l, hl, fun o ho => ?_⟩
    rcases hmarks o ho with rfl | ⟨_, _, rfl⟩ <;> simp
  refine ⟨fun x hx => (htold x hx).perform rfl hc.data_exit, ?_, ?_,
    h.carried_of_adds (hleave.trans (World.adds_perform (by simp)))⟩
  · have hnests : c.Nests (c.leave s w).trace := by
      rw [hl, nests_append]
      · exact h.nests
      · intro o ho y
        rcases hmarks o ho with rfl | ⟨_, _, rfl⟩ <;> simp
    cases he : c.exitAction s with
    | none => exact hnests
    | some f =>
        refine ⟨hnests, fun hk => ⟨fun x hx hxs hkx => ?_, fun hen => ?_⟩⟩
        · have hh := StateKind.isHistory_eq_false_of_isPseudo hkx
          rw [← htold x hkx, isActive_leave, hin x hx hxs hh, Bool.and_false]
        · rw [hopen, h.matched s p hk hp hen (by simp [he]), ha]
  · intro x q hx hq he he'
    rw [hc.data_exit, isActive_leave, ← h.matched x q hx hq he he', ← hopen]
    cases hes : c.exitAction s with
    | none =>
        have hxs : x ≠ s := by
          rintro rfl
          rw [hes] at he'
          cases he'
        simp [World.perform, hxs]
    | some f => rfl

end Chart

/-! ### Entries in progress -/

lemma World.Level.trans (h : w.Level w₁) (h' : w₁.Level w') : w.Level w' := by
  intro n
  have := h n
  have := h' n
  omega

lemma World.Level.inProgress (h : w.Level w') :
    Obs.inProgress n w'.trace ↔ Obs.inProgress n w.trace := by
  have := h n
  rw [Obs.inProgress, Obs.inProgress]
  omega

lemma World.Level.of_adds {p : Obs S T → Prop}
    (hp : ∀ o, p o → ∀ n, o.isEntering n = false ∧ o.isEntered n = false)
    (h : World.Adds p w w') : w.Level w' := by
  obtain ⟨l, hl, hpl⟩ := h
  intro n
  have he : l.countP (Obs.isEntering n) = 0 :=
    List.countP_eq_zero.mpr fun o ho => by simp [hp o (hpl o ho) n]
  have he' : l.countP (Obs.isEntered n) = 0 :=
    List.countP_eq_zero.mpr fun o ho => by simp [hp o (hpl o ho) n]
  rw [hl, List.countP_append, List.countP_append, he, he']
  omega

lemma World.Level.of_plain (h : w.Adds (fun o => o.isPlain = true) w') : w.Level w' :=
  .of_adds (fun o ho n => by cases o <;> simp_all [Obs.isPlain, Obs.isEntering, Obs.isEntered]) h

lemma World.Level.perform {a : Option (Action S P)} (ho : o.isAction = true) :
    w.Level (w.perform o a) :=
  .of_plain (World.adds_perform (by cases o <;> simp_all [Obs.isAction, Obs.isPlain]))

/-- No method leaves an entry open that it has begun. -/
lemma compatible_level : Compatible c Set.univ World.Level where
  null := trivial
  refl _ _ := Nat.add_comm _ _ ▸ rfl
  trans := World.Level.trans
  fire _ _ _ _ _ := .of_plain (World.Adds.of_cons rfl rfl)
  fired _ _ _ := .of_plain (World.Adds.of_cons rfl rfl)
  fallThrough _ _ _ _ := .of_plain (World.Adds.of_cons rfl rfl)
  bracket n w w' h x := by
    have := h x
    simp only [World.trace_log, List.countP_cons, Obs.isEntering, Obs.isEntered,
      Bool.false_eq_true, ↓reduceIte] at this ⊢
    by_cases hn : n = x
    · simp only [hn, decide_true, ↓reduceIte] at this ⊢
      omega
    · simp only [hn, decide_false, Bool.false_eq_true, ↓reduceIte] at this ⊢
      omega
  effect _ _ := .perform rfl
  entry _ _ := .perform rfl
  doing _ _ := .perform rfl
  exit _ _ := .perform rfl
  activateData _ _ _ := .of_plain (World.Adds.of_cons rfl rfl)
  arrive s w _ _ := by
    obtain ⟨l, hl, hidle⟩ := trace_arrive c w s
    refine .of_plain ⟨l ++ [.activated s], by rw [hl]; simp, fun o ho => ?_⟩
    rcases List.mem_append.mp ho with ho | ho
    · exact Obs.isPlain_of_isIdle (hidle o ho)
    · rw [List.mem_singleton.mp ho]
      rfl
  leave s w _ := by
    obtain ⟨l, hl, hmarks, -⟩ := trace_leave (c := c) (s := s) (w := w)
    refine .of_plain ⟨l, hl, fun o ho => ?_⟩
    rcases hmarks o ho with rfl | ⟨_, _, rfl⟩ <;> rfl
  registerRegion _ _ _ _ := .of_plain (World.Adds.of_eq rfl)
  clearStateset _ _ _ := .of_plain (World.Adds.of_eq rfl)
  clearCurrent _ _ _ := .of_plain (World.Adds.of_eq rfl)
  storeHistory _ _ w w' _ _ hs := by
    rcases Chart.returns_storeHistory hs with rfl | ⟨_, _, _, -, -, -, -, rfl⟩
    · exact .of_plain (World.Adds.refl _)
    · exact .of_plain (World.Adds.of_eq rfl)

end CppStatecharts
