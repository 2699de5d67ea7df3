import CppStatecharts.Configuration.Return
import CppStatecharts.Configuration.Waking

/-!
Back into a state through its deep history.

* `Chart.Undisturbed`: since it was left, a state was entered at most up to its pseudo-states;
  `Statechart.stateset_eq_memory`: histories inside then hold what they held after the exit.
* `Chart.Resumes`: the states that were active inside a state are so again; `Chart.Conserves`: the
  exit has made sure of this.
* `Statechart.leads_down_iff`: when the way through a deep history leads back to these states.
* `Resumed.not_leads_down`: an exit that starts too deep.
-/

namespace CppStatecharts

variable {S T E P : Type} [DecidableEq S] {c : Chart S T E P}
variable {w : World S T E P} {m a b : Metadata S} {x y p q g h : S} {t t' : T}
variable {l newer since before : List (Obs S T)} {way : List S}

/-! ### What is remembered -/

/-- Nothing was forgotten, and neither `p` nor a state inside was left, pseudo-states apart. -/
def Chart.Undisturbed (c : Chart S T E P) (p : S) : List (Obs S T) → Prop
  | [] => True
  | .reset :: _ => False
  | .deactivated x :: l => (c.Below x p → (c.kind x).isPseudo = true) ∧ c.Undisturbed p l
  | _ :: l => c.Undisturbed p l

namespace Chart

lemma Undisturbed.memory_append (hs : c.Undisturbed p since) (hy : c.Below y p)
    (hg : c.history y = some g) : c.memory y g (since ++ l) = c.memory y g l := by
  induction since with
  | nil => rfl
  | cons o since ih =>
      cases o with
      | reset => exact hs.elim
      | deactivated x =>
          rw [← ih hs.2, List.cons_append, memory, lastWritten_cons, remembers, if_neg]
          · rfl
          rintro rfl
          obtain ⟨hh, hctx⟩ := history_eq_some_iff.mp hg
          have hk := hs.1 hy
          rw [c.history_context hh hctx] at hk
          cases hk
      | _ => exact ih hs

/-- What the history of a state remembers right after an exit from it. -/
lemma memory_of_exit (hl : c.Recalls p h l) (hb : Obs.begun l = some (t', m, before)) :
    c.memory p h (.deactivated p :: l) = (c.recollection p h t' m).getD (m.stateset h) := by
  cases hrec : c.recollection p h t' m with
  | none => exact memory_of_begun (l := .deactivated p :: l) hl hb hrec
  | some chain =>
      rw [memory, lastWritten_cons, remembers, if_pos rfl, Obs.lastFire_of_begun hb,
        Option.bind_some, hrec]
      rfl

omit [DecidableEq S] in
/-- The states of the way down are current. -/
lemma Chain.mem_spec (hm : c.Pointers m) (hway : Chain m p way) (hq : q ∈ way) :
    ∃ y, c.context q = some y ∧ c.Below y p ∧ m.current y = some q := by
  induction way generalizing p with
  | nil => cases hq
  | cons r way ih =>
      have hr := hm p r hway.1
      rcases List.mem_cons.mp hq with rfl | hq
      · exact ⟨p, hr, Forest.below_refl _, hway.1⟩
      · obtain ⟨y, hy, hyr, hcur⟩ := ih hway.2 hq
        exact ⟨y, hy, Forest.below_trans hyr (Forest.below_of_parent (F := c.forest) hr), hcur⟩

omit [DecidableEq S] in
/-- The way down ends at a state that has no states inside. -/
lemma Chain.eq_singleton (hm : c.Pointers m) (hway : Chain m p (q :: way))
    (hq : (c.kind q).isContext = false) : way = [] := by
  cases way with
  | nil => rfl
  | cons r way =>
      have hk := c.context_kind (hm q r hway.2.1)
      rw [hq] at hk
      cases hk

/-- Where nothing is stored, the way down leads to a final state, if to more than a pseudo-state. -/
lemma Chain.final_of_not_stores (hm : c.Pointers m) (hway : Chain m p way)
    (hst : ¬ HierarchicalState.storesHistory c p h (m.current p) = true)
    (hh : (c.kind h).isHistory = true) (hx : x ∈ way) (hk : (c.kind x).isPseudo = false) :
    c.kind x = .finalState := by
  cases way with
  | nil => cases hx
  | cons q way =>
      simp only [HierarchicalState.storesHistory, hway.1, Bool.and_eq_true, Bool.not_eq_true',
        decide_eq_true_eq, not_and, Bool.not_eq_false] at hst
      have hq : (c.kind q).isPseudo = true ∨ c.kind q = .finalState := by
        by_cases hstart : some q = c.startState p
        · rw [(startState_eq_some hstart.symm).1]
          exact Or.inl rfl
        by_cases hqh : some q = some h
        · obtain rfl := Option.some.inj hqh
          rcases StateKind.eq_of_isHistory hh with hk | hk <;> exact Or.inl (by rw [hk]; rfl)
        · simpa [isFinal] using Or.inr (hst ⟨hstart, hqh⟩)
      obtain rfl : way = [] := hway.eq_singleton hm (by
        rcases hq with hq | hq
        · cases hkq : c.kind q <;> simp_all [StateKind.isPseudo, StateKind.isContext]
        · rw [hq]
          rfl)
      obtain rfl := List.mem_singleton.mp hx
      exact hq.resolve_left (by simp [hk])

omit [DecidableEq S] in
/-- A history that has stored nothing but pseudo-states has stored no history. -/
lemma HistoryChain.isHistory_eq_false {l : List S} (hl : c.HistoryChain h p l)
    (hh : (c.kind h).isHistory = true) (hp : c.context h = some p)
    (hpseudo : ∀ q ∈ l, (c.kind q).isPseudo = true) : ∀ q ∈ l, (c.kind q).isHistory = false := by
  cases l with
  | nil => simp
  | cons r l =>
      obtain rfl : l = [] := by
        cases l with
        | nil => rfl
        | cons r' l =>
            have hr := hpseudo r List.mem_cons_self
            rw [hl.inner r (by simp)] at hr
            cases hr
      intro q hq
      obtain rfl := List.mem_singleton.mp hq
      exact (hl.head_spec hh hp).2

omit [DecidableEq S] in
/-- Where no state is concurrent, a history has restored just the states it has stored, unless one
of these is a history that has stored something itself. -/
lemma Regained.isActive_iff_mem {l : List S} (h : c.Regained p l m)
    (hseq : ∀ {x}, c.Below x p → c.kind x ≠ .concurrentState) (hl : ∀ q ∈ l, c.Below q p)
    (hset : ∀ q ∈ l, (c.kind q).isHistory = true → m.stateset q = []) (hx : c.Below x p)
    (hne : x ≠ p) (hk : (c.kind x).isHistory = false) : m.isActive x = true ↔ x ∈ l := by
  refine ⟨fun ha => (h.only hset hk hx hne ha).resolve_right ?_, fun hx => h.active x hx hk⟩
  rintro ⟨q, hq, hconc, -⟩
  exact hseq (hl q hq) hconc

end Chart

namespace Statechart

section Since

variable (hr : c.Standard) (hw : Unhampered c w)
variable (heq : w.trace = newer ++ .fired t a b :: (since ++ .deactivated p :: l))
variable (hsince : c.Undisturbed p since) (hbegun : Obs.begun l = some (t', m, before))

include hbegun heq in
omit [DecidableEq S] in
lemma mem_exit : .fire t' m ∈ w.trace := by
  obtain ⟨l', hl⟩ := Obs.suffix_of_begun hbegun
  rw [heq, ← hl]
  simp

include hr hw heq

lemma recalls_exit (hg : c.history y = some g) : c.Recalls y g l := by
  have hrec := (remembering_session hr.actions hg hw).recalls
  rw [heq] at hrec
  exact hrec.of_append.2.of_append (l := .deactivated p :: l)

include hsince in
/-- Since `p` was left, no history inside has stored anything. -/
lemma stateset_eq_memory (hy : c.Below y p) (hg : c.history y = some g) :
    b.stateset g = c.memory y g (.deactivated p :: l) :=
  (stateset_of_fired hr.actions hg hw heq).trans (hsince.memory_append hy hg)

include hsince hbegun in
/-- A history inside `p` that was the current state when `p` was left has nothing to restore. -/
lemma stateset_eq_nil (ho : c.Orderly w.trace) (hy : c.Below y p) (hg : c.history y = some g)
    (hcur : m.current y = some g) : b.stateset g = [] := by
  have hrec : c.recollection y g t' m = none := recollection_of_not fun hst => by
    simp [HierarchicalState.storesHistory, hcur] at hst
  have hrecalls : c.Recalls y g (.deactivated p :: l) :=
    show c.Recalls y g l from recalls_exit hr hw heq hg
  rw [stateset_eq_memory hr hw heq hsince hy hg, Chart.memory_of_begun hrecalls hbegun hrec]
  exact blank_session hr hw ho (mem_exit heq hbegun) y g hg hcur

end Since

end Statechart

/-! ### The way back -/

/-- Inside `p`, the states that are active in `m` are active in `b`, and no others, where
pseudo-states do not count, and final states count as inactive in `m`. -/
def Chart.Resumes (c : Chart S T E P) (p : S) (m b : Metadata S) : Prop :=
  ∀ x, c.Below x p → x ≠ p → (c.kind x).isPseudo = false →
    (b.isActive x = true ↔ m.isActive x = true ∧ c.kind x ≠ .finalState)

/-- The metadata `m`, in which the firing of `t'` leaves `p`, makes sure that `h`, the deep history
of `p`, leads back to the states that are active inside `p`, final states apart. If it stores the
way down, no final state may be active there; if `t'` itself leaves the current state, so that this
is all it stores, nothing but a final state may be active inside this; if it stores nothing, it may
hold pseudo-states alone. -/
def Chart.Conserves (c : Chart S T E P) (p h : S) (t' : T) (m : Metadata S) : Prop :=
  if HierarchicalState.storesHistory c p h (m.current p) = true then
    if (m.current p).any fun q => q ∈ c.deactivates t' then
      ∀ x, c.Below x p → x ≠ p → m.current p ≠ some x → (c.kind x).isPseudo = false →
        m.isActive x = true → c.kind x = .finalState
    else ∀ x, c.Below x p → x ≠ p → m.isActive x = true → c.kind x ≠ .finalState
  else ∀ x ∈ m.stateset h, (c.kind x).isPseudo = true

namespace Chart

variable (hback : ∀ x, c.Below x p → x ≠ p → (c.kind x).isHistory = false →
  (b.isActive x = true ↔ x ∈ b.stateset h))
variable (hactive : ∀ x, c.Below x p → x ≠ p → (c.kind x).isHistory = false →
  (m.isActive x = true ↔ x ∈ way))

include hback hactive

omit [DecidableEq S] in
/-- The whole way down is restored. -/
lemma leads_down_whole (hset : b.stateset h = way) :
    c.Resumes p m b ↔ ∀ x, c.Below x p → x ≠ p → m.isActive x = true → c.kind x ≠ .finalState := by
  constructor
  · intro hall x hx hne ha hfin
    have hkx : (c.kind x).isPseudo = false := by rw [hfin]; rfl
    have hh := StateKind.isHistory_eq_false_of_isPseudo hkx
    have hb : b.isActive x = true := by rwa [hback x hx hne hh, hset, ← hactive x hx hne hh]
    exact ((hall x hx hne hkx).mp hb).2 hfin
  · intro hno x hx hne hkx
    have hh := StateKind.isHistory_eq_false_of_isPseudo hkx
    rw [hback x hx hne hh, hset, ← hactive x hx hne hh]
    exact ⟨fun ha => ⟨ha, hno x hx hne ha⟩, And.left⟩

omit [DecidableEq S] in
/-- Of the way down, just the current state is restored. -/
lemma leads_down_current (hset : b.stateset h = [q]) (hq : q ∈ way)
    (hfin : c.kind q ≠ .finalState) :
    c.Resumes p m b ↔ ∀ x, c.Below x p → x ≠ p → some q ≠ some x → (c.kind x).isPseudo = false →
      m.isActive x = true → c.kind x = .finalState := by
  have hone : ∀ x, c.Below x p → x ≠ p → (c.kind x).isPseudo = false →
      (b.isActive x = true ↔ x = q) := fun x hx hne hkx => by
    rw [hback x hx hne (StateKind.isHistory_eq_false_of_isPseudo hkx), hset, List.mem_singleton]
  constructor
  · intro hall x hx hne hqx hkx ha
    by_contra hxf
    exact hqx (congrArg some ((hone x hx hne hkx).mp ((hall x hx hne hkx).mpr ⟨ha, hxf⟩)).symm)
  · intro hno x hx hne hkx
    rw [hone x hx hne hkx]
    constructor
    · rintro rfl
      exact ⟨(hactive x hx hne (StateKind.isHistory_eq_false_of_isPseudo hkx)).mpr hq, hfin⟩
    · rintro ⟨ha, hxf⟩
      by_contra hxq
      exact hxf (hno x hx hne (fun h => hxq (Option.some.inj h).symm) hkx ha)

omit [DecidableEq S] hback hactive in
/-- A state that is left with nothing but pseudo-states and final states active. -/
lemma leads_down_none
    (hactive : ∀ q ∈ b.stateset h, (c.kind q).isPseudo = false → b.isActive q = true)
    (hback : (∀ q ∈ b.stateset h, (c.kind q).isPseudo = true) →
      ∀ x, c.Below x p → x ≠ p → (c.kind x).isPseudo = false → b.isActive x = false)
    (hbelow : ∀ q ∈ b.stateset h, c.Below q p ∧ q ≠ p)
    (hnone : ∀ x, c.Below x p → x ≠ p → (c.kind x).isPseudo = false → m.isActive x = true →
      c.kind x = .finalState) :
    c.Resumes p m b ↔ ∀ x ∈ b.stateset h, (c.kind x).isPseudo = true := by
  constructor
  · intro hall q hq
    by_contra hk
    rw [Bool.not_eq_true] at hk
    obtain ⟨hqp, hne⟩ := hbelow q hq
    obtain ⟨ha, hfin⟩ := (hall q hqp hne hk).mp (hactive q hq hk)
    exact hfin (hnone q hqp hne hk ha)
  · intro hpseudo x hx hne hk
    rw [hback hpseudo x hx hne hk]
    simpa using hnone x hx hne hk

end Chart

namespace Statechart

/-- **Back through a deep history.** Let no state inside `p` be concurrent, and let `h`, the deep
history of `p`, have been entered before. In every orderly session, when `p` was left in the firing
of `t'`, with the metadata `m` before, and is entered again through `h`: just the states inside `p`
that were active in `m` are active again if and only if `m` made sure of this. -/
theorem leads_down_iff (newer since : List (Obs S T)) (hr : c.Standard)
    (hph : c.history p = some h)
    (hk : c.kind h = .pseudoState .deepHistory)
    (hseq : ∀ {x}, c.Below x p → c.kind x ≠ .concurrentState) (hw : Unhampered c w)
    (ho : c.Orderly w.trace)
    (heq : w.trace = newer ++ .fired t a b :: (since ++ .deactivated p :: l))
    (ht : c.target t = h) (hint : c.internal t = false) (hsince : c.Undisturbed p since)
    (hbegun : Obs.begun l = some (t', m, before)) (hd : m.hasData h = true) :
    c.Resumes p m b ↔ c.Conserves p h t' m := by
  obtain ⟨hh, hctx⟩ := Chart.history_eq_some_iff.mp hph
  -- the firing in which `p` was left
  have hmem : .fire t' m ∈ w.trace := mem_exit heq hbegun
  have hrec := (remembering_session hr.actions hph hw).recalls
  have hsound := hrec.sound hmem
  have hpointers := hsound.links.pointers
  obtain ⟨m', hended⟩ := ended_session hw hmem
  have hm := ((settled_session hr hw ho).1.legal.carried hended).connected
  obtain ⟨way, hway⟩ := CppStatecharts.exists_chain hpointers p
  have hactive : ∀ x, c.Below x p → x ≠ p → (c.kind x).isHistory = false →
      (m.isActive x = true ↔ x ∈ way) := fun x hx hne hkx =>
    CppStatecharts.isActive_iff_mem hm hsound hseq hway hx hne hkx
  -- what the history holds in the end, and what it has restored
  have hset : b.stateset h = (c.recollection p h t' m).getD (m.stateset h) :=
    (stateset_eq_memory hr hw heq hsince (Forest.below_refl p) hph).trans
      (Chart.memory_of_exit (recalls_exit hr hw heq hph) hbegun)
  have hfired : Obs.fired t a b ∈ w.trace := by simp [heq]
  have hreg := regained_of_fired hr hph hw ho hfired ht hint
  have hchain := (hrec.links hfired).histories h p hh hctx
  have hback : (∀ q ∈ b.stateset h, q ∈ way) → ∀ x, c.Below x p → x ≠ p →
      (c.kind x).isHistory = false → (b.isActive x = true ↔ x ∈ b.stateset h) := by
    intro hsub x hx hne hkx
    refine hreg.isActive_iff_mem hseq (fun q hq => (hchain.below hctx q hq).1)
      (fun q hq hkq => ?_) hx hne hkx
    obtain ⟨y, hy, hyp, hcur⟩ := hway.mem_spec hpointers (hsub q hq)
    exact stateset_eq_nil hr hw heq hsince hbegun ho hyp
      (Chart.history_eq_some_iff.mpr ⟨hkq, hy⟩) hcur
  unfold Chart.Conserves
  split
  case isTrue hst =>
    obtain ⟨chain, hstored⟩ := exists_recollection t' hpointers hh hd hst
    obtain ⟨hdeep, hshallow⟩ := recollection_cases hpointers hph hseq hway hd hst hstored
    rw [hstored, Option.getD_some] at hset
    split
    case isTrue hleft =>
      -- the current state is left first, and alone stored
      cases way with
      | nil => simp [show m.current p = none from hway] at hleft
      | cons q way =>
          have hcur : m.current p = some q := hway.1
          have hqt : q ∈ c.deactivates t' := by simpa [hcur] using hleft
          obtain rfl := hshallow fun hdeep => hdeep.2 q hcur hqt
          have hfin : c.kind q ≠ .finalState := fun hfin => by
            simp [HierarchicalState.storesHistory, hcur, Chart.isFinal, hfin] at hst
          rw [hcur]
          refine Chart.leads_down_current (hback fun y hy => ?_) hactive hset
            List.mem_cons_self hfin
          rw [hset] at hy
          exact List.mem_of_mem_take hy
    case isFalse hstay =>
      obtain rfl := hdeep ⟨hk, fun q hq hqt => hstay (by simp [hq, hqt])⟩
      exact Chart.leads_down_whole (hback fun q hq => hset ▸ hq) hactive hset
  case isFalse hst =>
    -- nothing is stored, and the history restores what it has held before
    rw [recollection_of_not fun h => hst h.2, Option.getD_none] at hset
    rw [← hset]
    refine Chart.leads_down_none (fun q hq hkq => hreg.active q hq
      (StateKind.isHistory_eq_false_of_isPseudo hkq)) (fun hpseudo x hx hne hkx => ?_)
      (fun q hq => ⟨(hchain.below hctx q hq).1, (hchain.below hctx q hq).2.1⟩)
      fun x hx hne hkx ha => ?_
    · have hplain := hchain.isHistory_eq_false hh hctx hpseudo
      rw [Bool.eq_false_iff, Ne, hreg.isActive_iff_mem hseq
        (fun q hq => (hchain.below hctx q hq).1)
        (fun q hq hkq => absurd hkq (by simp [hplain q hq])) hx hne
        (StateKind.isHistory_eq_false_of_isPseudo hkx)]
      intro hmem
      rw [hpseudo x hmem] at hkx
      cases hkx
    · exact hway.final_of_not_stores hpointers hst hh ((hactive x hx hne
        (StateKind.isHistory_eq_false_of_isPseudo hkx)).mp ha) hkx

end Statechart

namespace Resumed

set_option maxRecDepth 8000 in
/-- **Truncated.** `box` is left at `leaf` by a transition that starts there; the way back through
the deep history finds `inner`, but not `leaf`. -/
theorem not_leads_down : chart.Regular ∧ (∀ x, chart.kind x ≠ .concurrentState)
    ∧ ∃ w : World St Tr Event Unit, Statechart.Session chart (fun _ _ => False) w
      ∧ ∃ newer a b since l m before,
        w.trace = newer ++ .fired .resume a b :: (since ++ .deactivated .box :: l)
        ∧ chart.Undisturbed .box since ∧ Obs.begun l = some (.slip, m, before)
        ∧ m.hasData .past = true ∧ m.isActive .leaf = true ∧ b.isActive .leaf = false := by
  have hw : Statechart.Session chart (fun _ _ => False) (_ : World St Tr Event Unit) :=
    .call (.dispatch (some (.event "resume")) ())
      (.call (.dispatch (some (.event "slip")) ()) (.call (.start ()) (.fresh ()) ⟨20, rfl⟩)
        ⟨20, rfl⟩) ⟨20, rfl⟩
  exact ⟨regular, by decide, _, hw, [_, _, _, _, _, _], _, _,
    [.activated .inner, .activated .past, .activated .box, .deactivated .away, .fire .resume _,
      .fired .slip _ _, .activated .away], _, _, _, rfl,
    ⟨fun h => absurd h (by decide), trivial⟩, rfl, rfl, rfl, rfl⟩

set_option maxRecDepth 8000 in
/-- A transition that starts at `box` leaves the whole way down to the history. -/
theorem leads_down_leave : ∃ w : World St Tr Event Unit, Statechart.Unhampered chart w
    ∧ ∃ a b older, w.trace = .fired .resume a b :: older ∧ b.isActive .leaf = true := by
  have hw : Statechart.Unhampered chart (_ : World St Tr Event Unit) :=
    .call (.dispatch (some (.event "resume")) ())
      (.call (.dispatch (some (.event "leave")) ()) (.call (.start ()) (.fresh ()) ⟨20, rfl⟩)
        ⟨20, rfl⟩) ⟨20, rfl⟩
  have h := (Statechart.leads_down_iff (p := .box) (h := .past) []
    [.activated .leaf, .activated .inner, .activated .past, .activated .box, .deactivated .away,
      .fire .resume _, .fired .leave _ _, .activated .away]
    regular.standard rfl rfl (fun {x} _ => by cases x <;> decide) hw (regular.orderly (by decide))
    rfl rfl rfl ⟨fun h => absurd h (by decide), trivial⟩ rfl rfl).mpr
      (by
        rw [Chart.Conserves, if_pos (by rfl), if_neg (by decide)]
        intro x
        cases x <;> decide)
  exact ⟨_, hw, _, _, _, rfl, (h .leaf (by decide) (by decide) rfl).mpr ⟨rfl, by decide⟩⟩

end Resumed

end CppStatecharts
