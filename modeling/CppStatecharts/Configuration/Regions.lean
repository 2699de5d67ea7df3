import CppStatecharts.Configuration.Runs
import CppStatecharts.Semantics.Locality
import CppStatecharts.Semantics.Paths
import CppStatecharts.Semantics.Simulation
import CppStatecharts.Timers.Frame

/-!
The regions of a concurrent state do not see each other.

* `Chart.Enclosed n`: no transition that begins in a region of `n` ends outside of it.
* `Chart.View`: two worlds that agree on some states, and have kept the records of others;
  `similarOn_view` makes it a simulation.
* `Chart.Local`: a computation that sees and changes one region of `n` only; two such computations
  commute (`Local.swap`), and so do whole runs of them (`Each.perm`, `Each.alone`).
* `Chart.permuteRegions`, `methods_permuteRegions`: the chart with its regions in another order.
* `ConcurrentState.dispatch_indifferent`: a dispatch does not depend on the order of the regions.
* `Meddling`: clients that break this through the metadata.
-/

namespace CppStatecharts

open Metadata

variable {S T E P : Type} [DecidableEq S] {c : Chart S T E P}

/-! ### What is asked of the chart and of its client -/

/-- The action leaves the parameter alone. -/
def Action.KeepsParam (f : Action S P) : Prop := ∀ m p, (f m p).2 = p

/-- Guards and the comparison of events look at the parameter only; actions change neither the
parameter nor the metadata. -/
structure Chart.Parametric (c : Chart S T E P) : Prop where
  guard : ∀ {t g}, c.guard t = some g → ∀ m m' p, g m p = g m' p
  equals : ∀ ev e m m' p, c.equals ev e m p = c.equals ev e m' p
  keepsParam : c.EveryAction Action.KeepsParam
  keepsData : c.ActionsKeepData

namespace Chart.Parametric

variable {w x : World S T E P} {t : T} {e : Option E}

omit [DecidableEq S] in
lemma guardHolds (hc : c.Parametric) (h : w.param = x.param) :
    Transition.guardHolds c t w = Transition.guardHolds c t x := by
  unfold Transition.guardHolds
  cases hg : c.guard t with
  | none => rfl
  | some g => simp only [hc.guard hg w.data x.data, h]

omit [DecidableEq S] in
lemma triggered (hc : c.Parametric) (h : w.param = x.param) :
    Transition.triggered c t e w = Transition.triggered c t e x := by
  unfold Transition.triggered
  cases c.event t with
  | none => rfl
  | some ev => simp only [hc.equals ev e w.data x.data, h]

end Chart.Parametric

/-- No transition that begins in a region of `n` ends outside of it. -/
def Chart.Enclosed (c : Chart S T E P) (n : S) : Prop := ∀ t ∈ c.ownedTransitions,
  ∀ r ∈ c.regions n, c.Below (c.source t) r → c.Below (c.target t) r

/-! ### Views -/

/-- Two worlds with the parameter `a` that agree on the states of `A`; since `m` and `m'`, they have
changed records of states of `V` only, apart from the current state of `n`. -/
structure Chart.View (c : Chart S T E P) (n : S) (A V : S → Prop) (a : P) (m m' : Metadata S)
    (w x : World S T E P) : Prop where
  near : ∀ y, A y → SameAt n y w.data x.data
  left : ∀ y, ¬ V y → SameAt n y m w.data
  right : ∀ y, ¬ V y → SameAt n y m' x.data
  params : w.param = a ∧ x.param = a
  links : c.Links w.data ∧ c.Links x.data

namespace Chart.View

variable {n : S} {A V : S → Prop} {a : P} {m m' : Metadata S} {w x w' x' : World S T E P}

omit [DecidableEq S] in
/-- The same change on both sides. -/
lemma change (h : c.View n A V a m m' w x)
    (hnear : ∀ y, SameAt n y w.data x.data → SameAt n y w'.data x'.data)
    (hframe : ∀ y, ¬ V y → SameAt n y w.data w'.data ∧ SameAt n y x.data x'.data)
    (hparam : w'.param = w.param ∧ x'.param = x.param)
    (hlinks : c.Links w'.data ∧ c.Links x'.data) : c.View n A V a m m' w' x' where
  near y hy := hnear y (h.near y hy)
  left y hy := (h.left y hy).trans (hframe y hy).1
  right y hy := (h.right y hy).trans (hframe y hy).2
  params := ⟨hparam.1.trans h.params.1, hparam.2.trans h.params.2⟩
  links := hlinks

omit [DecidableEq S] in
lemma param (h : c.View n A V a m m' w x) : w.param = x.param := h.params.1.trans h.params.2.symm

omit [DecidableEq S] in
/-- A change that does not touch the metadata. -/
lemma still (h : c.View n A V a m m' w x) (hw : w'.data = w.data) (hx : x'.data = x.data)
    (hparam : w'.param = w.param ∧ x'.param = x.param) : c.View n A V a m m' w' x' :=
  h.change (fun y hy => by rwa [hw, hx]) (fun y _ => by rw [hw, hx]; exact ⟨.refl _, .refl _⟩)
    hparam (by rw [hw, hx]; exact h.links)

end Chart.View

lemma Chart.Closed.below {V : S → Prop} (hV : c.Closed V) {p s : S}
    (hb : c.Below s p) (hp : V p) : V s := by
  induction hb using Relation.ReflTransGen.head_induction_on with
  | refl => exact hp
  | head hs _ ih => exact hV.child hs ih

section Similar

variable {n : S} {A V : S → Prop} {a : P} {m m' : Metadata S}
variable {w x : World S T E P}

omit [DecidableEq S] in
lemma param_perform {f : Option (Action S P)} {o : Obs S T} (hf : ∀ g, f = some g → g.KeepsParam) :
    (w.perform o f).param = w.param := by
  cases f with
  | none => rfl
  | some g => exact hf g rfl _ _

lemma param_arrive {s : S} : (c.arrive s w).param = w.param := frame_scheduleTimeouts.1

lemma param_leave {s : S} : (c.leave s w).param = w.param := by
  unfold Chart.leave Chart.deactivateData
  split
  · exact frame_cancelTimeouts.2.1
  · simp only
    split <;> exact frame_cancelTimeouts.2.1

/-- **Views are simulated.** -/
lemma similarOn_view (hc : c.Parametric) (hV : c.Closed V) (hVA : ∀ y, V y → A y)
    (hn : c.kind n = .concurrentState) (hout : ∀ s p, V s → c.context s = some p → V p ∨ p = n)
    (hjoin : ∀ j, V j → ∀ t ∈ c.incoming j, ∀ s ∈ c.deactivates t, A s) :
    c.SimilarOn V (c.View n A V a m m') :=
  have hlinks := compatible_links hc.keepsData
  have hne : ∀ {s y}, V s → ¬ V y → y ≠ s := fun hs hy h => hy (h ▸ hs)
  have hcontext : ∀ {s y}, V s → c.context s = some y → ¬ V y → y = n := fun hs hp hy =>
    (hout _ _ hs hp).resolve_left hy
  {
  toClosed := hV
  isActive s hs h := (h.near s (hVA s hs)).isActive
  current s hs hk h := (h.near s (hVA s hs)).current fun hsn => hk (hsn ▸ hn)
  current_mem hs h hq := hV.child (h.links.1.pointers _ _ hq) hs
  stateset s hs h := (h.near s (hVA s hs)).stateset
  stateset_mem {w x h q} hh hk hB hq := by
    have hroot : h ≠ c.root := by
      rintro rfl
      rw [(c.kind_statechart _).mpr rfl] at hk
      cases hk
    obtain ⟨p, hp⟩ := Chart.context_eq_some_of_ne_root hroot
    exact hV.below ((hB.links.1.histories h p hk hp).below hp q hq).1 (hV.context hk hh hp)
  isSome s hs h := (h.near s (hVA s hs)).hasData
  guardHolds t _ h := hc.guardHolds h.param
  triggered t e _ h := hc.triggered h.param
  joinReady j hj h := by
    rw [Bool.eq_iff_iff]
    simp only [PseudoState.joinReady, List.all_eq_true]
    refine forall₂_congr fun t ht => ?_
    cases hl : c.deactivates t with
    | nil => rfl
    | cons s l =>
        have hs := hjoin j hj t ht s (by rw [hl]; exact List.mem_cons_self)
        simp only [(h.near s hs).isActive, hc.guardHolds h.param]
  fire t _ h := h.still rfl rfl ⟨rfl, rfl⟩
  fired t _ _ h := h.still rfl rfl ⟨rfl, rfl⟩
  fallThrough s b _ h := h.still rfl rfl ⟨rfl, rfl⟩
  entering n _ h := h.still rfl rfl ⟨rfl, rfl⟩
  entered n _ h := h.still rfl rfl ⟨rfl, rfl⟩
  effect t _ h := h.still hc.keepsData.data_effect hc.keepsData.data_effect
    ⟨param_perform fun _ => hc.keepsParam.effect, param_perform fun _ => hc.keepsParam.effect⟩
  entry s _ h := h.still hc.keepsData.data_entry hc.keepsData.data_entry
    ⟨param_perform fun _ => hc.keepsParam.entry, param_perform fun _ => hc.keepsParam.entry⟩
  doing s _ h := h.still hc.keepsData.data_doing hc.keepsData.data_doing
    ⟨param_perform fun _ => hc.keepsParam.doing, param_perform fun _ => hc.keepsParam.doing⟩
  exit s _ h := h.still hc.keepsData.data_exit hc.keepsData.data_exit
    ⟨param_perform fun _ => hc.keepsParam.exit, param_perform fun _ => hc.keepsParam.exit⟩
  activateData s hs hk h := h.change (fun _ hy => hy.activateData s)
    (fun y hy => ⟨sameAt_activateData (hne hs hy) fun hp => hcontext hs hp hy,
      sameAt_activateData (hne hs hy) fun hp => hcontext hs hp hy⟩) ⟨rfl, rfl⟩
    ⟨hlinks.activateData s _ hk h.links.1, hlinks.activateData s _ hk h.links.2⟩
  arrive {w x} s hs hk hi h := by
    have hix : x.data.isActive s = false := (h.near s (hVA s hs)).isActive ▸ hi
    exact h.change (fun _ hy => hy.arrive s)
      (fun y hy => ⟨sameAt_arrive (hne hs hy) fun hp => hcontext hs hp hy,
        sameAt_arrive (hne hs hy) fun hp => hcontext hs hp hy⟩) ⟨param_arrive, param_arrive⟩
      ⟨hlinks.arrive s _ hk hi h.links.1, hlinks.arrive s _ hk hix h.links.2⟩
  leave {w x} s hs ha h := by
    have hax : x.data.isActive s = true := (h.near s (hVA s hs)).isActive ▸ ha
    exact h.change (fun _ hy => hy.leave s)
      (fun y hy => ⟨sameAt_leave (hne hs hy), sameAt_leave (hne hs hy)⟩) ⟨param_leave, param_leave⟩
      ⟨hlinks.leave s _ ha h.links.1, hlinks.leave s _ hax h.links.2⟩
  registerRegion q r hq _ hk h := h.change (fun _ hy => hy.registerRegion q r)
    (fun y hy => ⟨sameAt_registerRegion (hne hq hy) r, sameAt_registerRegion (hne hq hy) r⟩)
    ⟨rfl, rfl⟩
    ⟨hlinks.registerRegion q r _ hk h.links.1, hlinks.registerRegion q r _ hk h.links.2⟩
  clearStateset q hq hk h := h.change (fun _ hy => hy.clearStateset q)
    (fun y hy => ⟨sameAt_clearStateset (hne hq hy), sameAt_clearStateset (hne hq hy)⟩) ⟨rfl, rfl⟩
    ⟨hlinks.clearStateset q _ hk h.links.1, hlinks.clearStateset q _ hk h.links.2⟩
  clearCurrent s hs hk h := h.change (fun _ hy => hy.clearCurrent s)
    (fun y hy => ⟨sameAt_clearCurrent (hne hs hy), sameAt_clearCurrent (hne hs hy)⟩) ⟨rfl, rfl⟩
    ⟨hlinks.clearCurrent s _ hk h.links.1, hlinks.clearCurrent s _ hk h.links.2⟩
  storeHistory s q l hs hq hst h hw hx := by
    obtain ⟨hqk, hqs⟩ := Chart.history_eq_some_iff.mp hq
    have hqV := hV.child hqs hs
    have hsk : s ≠ n := fun hsn => by
      have := c.history_context hqk hqs
      rw [hsn, hn] at this
      cases this
    have hstx := (h.near s (hVA s hs)).current hsk ▸ hst
    exact h.change (fun _ hy => hy.storeChain q l)
      (fun y hy => ⟨sameAt_storeChain (hne hqV hy) l, sameAt_storeChain (hne hqV hy) l⟩) ⟨rfl, rfl⟩
      ⟨h.links.1.storeHistory hq hst hw, h.links.2.storeHistory hq hstx hx⟩ }

end Similar

/-! ### One region -/

namespace Chart

variable {n r r' : S} {a : P} {m m' : Metadata S} {w x w' x' : World S T E P} {y : S}

/-- Not a state of a region of `n` other than `r`. -/
def Apart (c : Chart S T E P) (n r y : S) : Prop :=
  ∀ r' ∈ c.regions n, r' ≠ r → ¬ c.Below y r'

/-- Two worlds with the parameter `a` that look alike from the region `r` of `n`; since `m` and
`m'`, only states of this region have changed. -/
def ViewFrom (c : Chart S T E P) (n r : S) (a : P) (m m' : Metadata S) :
    World S T E P → World S T E P → Prop :=
  c.View n (c.Apart n r) (c.Below · r) a m m'

/-- Two worlds with the parameter `a` that look alike. -/
def Same (c : Chart S T E P) (n : S) (a : P) : World S T E P → World S T E P → Prop :=
  c.View n (fun _ => True) (fun _ => True) a .reset .reset

/-- A computation that sees and changes no region of `n` but `r`. -/
def Local (c : Chart S T E P) (n r : S) {α : Type} (f : Comp (World S T E P) α) : Prop :=
  ∀ a m m', Simulates (c.ViewFrom n r a m m') f f

/-- The states of different regions are different. -/
lemma apart_of_below (hr : r ∈ c.regions n) (hy : c.Below y r) : c.Apart n r y :=
  fun _ hr' hne hy' => hne (Forest.eq_of_below_children (F := c.forest) (mem_regions.mp hr').2
    (mem_regions.mp hr).2 hy' hy)

lemma not_below_of_ne (hr : r ∈ c.regions n) (hr' : r' ∈ c.regions n) (hne : r ≠ r')
    (hy : c.Below y r) : ¬ c.Below y r' := apart_of_below hr hy r' hr' hne.symm

lemma apart_self : c.Apart n r n := fun _ hr' _ =>
  Forest.not_below_of_parent (F := c.forest) (mem_regions.mp hr').2

/-- The methods do not leave a region that no transition leaves. -/
lemma Enclosed.closed (h : c.Enclosed n) (hr : r ∈ c.regions n) : c.Closed (c.Below · r) where
  child hp hb := Forest.below_trans (Forest.below_of_parent (F := c.forest) hp) hb
  context {q p} hk hb hp := by
    refine Forest.below_parent hb (fun hq => ?_) hp
    rw [hq, (mem_regions.mp hr).1] at hk
    cases hk
  within {t} ht hs := by
    have hroot : r ≠ c.root := ne_root_of_context (mem_regions.mp hr).2
    have hin := below_of_mem_calculateStateSet hroot hs (h t ht r hr hs)
    refine ⟨hs, fun y hy => ?_, fun y hy => ?_⟩
    · unfold deactivates at hy
      split at hy
      · cases hy
      · exact hin.1 y hy
    · unfold activates at hy
      split at hy
      · cases hy
      · exact hin.2 y hy

/-- **A region is on its own.** -/
lemma similarOn_viewFrom (hc : c.Parametric) (hk : c.kind n = .concurrentState)
    (h : c.Enclosed n) (hr : r ∈ c.regions n) :
    c.SimilarOn (c.Below · r) (c.ViewFrom n r a m m') := by
  refine similarOn_view hc (h.closed hr) (fun y => apart_of_below hr) hk (fun s p hs hp => ?_)
    fun j hj t ht s hs r' hr' hne hsr' => ?_
  · by_cases hsr : s = r
    · subst hsr
      exact Or.inr (Option.some.inj (hp.symm.trans (mem_regions.mp hr).2))
    · exact Or.inl (Forest.below_parent hs hsr hp)
  · obtain ⟨howned, htarget⟩ := mem_incoming.mp ht
    have hsource := Forest.below_trans (below_of_mem_deactivates hs) hsr'
    exact not_below_of_ne hr' hr hne (h t howned r' hr' hsource) (htarget ▸ hj)

lemma similarOn_same (hc : c.Parametric) (hk : c.kind n = .concurrentState) :
    c.SimilarOn (fun _ => True) (c.Same n a) :=
  similarOn_view hc ⟨fun _ _ => trivial, fun _ _ _ => trivial, fun _ _ =>
    ⟨trivial, fun _ _ => trivial, fun _ _ => trivial⟩⟩ (fun _ _ => trivial) hk
    (fun _ _ _ _ => Or.inl trivial) fun _ _ _ _ _ _ => trivial

/-! ### Two regions -/

namespace Same

omit [DecidableEq S] in
lemma sameAt (h : c.Same n a w x) (y : S) : SameAt n y w.data x.data := h.near y trivial

omit [DecidableEq S] in
lemma of_sameAt (h : ∀ y, SameAt n y w.data x.data) (hp : w.param = a ∧ x.param = a)
    (hl : c.Links w.data ∧ c.Links x.data) : c.Same n a w x :=
  ⟨fun y _ => h y, fun _ hy => absurd trivial hy, fun _ hy => absurd trivial hy, hp, hl⟩

omit [DecidableEq S] in
lemma left (h : c.Same n a w x) : c.Same n a w w :=
  of_sameAt (fun _ => .refl _) ⟨h.params.1, h.params.1⟩ ⟨h.links.1, h.links.1⟩

omit [DecidableEq S] in
lemma trans (h : c.Same n a w x) (h' : c.Same n a x x') : c.Same n a w x' :=
  of_sameAt (fun y => (h.sameAt y).trans (h'.sameAt y)) ⟨h.params.1, h'.params.2⟩
    ⟨h.links.1, h'.links.2⟩

/-- Alike worlds look alike from a region. -/
lemma viewFrom (h : c.Same n a w x) (r : S) : c.ViewFrom n r a w.data x.data w x :=
  ⟨fun y _ => h.sameAt y, fun _ _ => .refl _, fun _ _ => .refl _, h.params, h.links⟩

end Same

namespace Local

variable {α β : Type} {f : Comp (World S T E P) α} {g : Comp (World S T E P) β}
variable {w₁ w₂ : World S T E P} {i : α} {j : β}

lemma returns {d : Metadata S} (hf : c.Local n r f) (hB : c.ViewFrom n r a m d w x)
    (h : Returns f w i w') : ∃ x', Returns f x i x' ∧ c.ViewFrom n r a m d w' x' :=
  hf a m d w x i w' hB h

/-- Outside of the region, nothing changes. -/
lemma frame (hf : c.Local n r f) (hl : c.Links w.data) (h : Returns f w i w') :
    (∀ y, ¬ c.Below y r → SameAt n y w.data w'.data) ∧ w'.param = w.param ∧ c.Links w'.data := by
  obtain ⟨x', -, hB⟩ := hf.returns (a := w.param) (m := w.data) (d := w.data)
    ⟨fun _ _ => .refl _, fun _ _ => .refl _, fun _ _ => .refl _, ⟨rfl, rfl⟩, hl, hl⟩ h
  exact ⟨hB.left, hB.params.1, hB.links.1⟩

/-- Alike worlds stay alike. -/
lemma simulates (hr : r ∈ c.regions n) (hf : c.Local n r f) : Simulates (c.Same n a) f f := by
  intro w x i w' hB h
  obtain ⟨x', hx, hB'⟩ := hf.returns (hB.viewFrom r) h
  refine ⟨x', hx, .of_sameAt (fun y => ?_) hB'.params hB'.links⟩
  by_cases hy : c.Below y r
  · exact hB'.near y (apart_of_below hr hy)
  · exact (hB'.left y hy).symm.trans ((hB.sameAt y).trans (hB'.right y hy))

/-- **Two regions commute.** -/
lemma swap (hr : r ∈ c.regions n) (hr' : r' ∈ c.regions n) (hne : r ≠ r') (hf : c.Local n r f)
    (hg : c.Local n r' g) (hB : c.Same n a w x) (h₁ : Returns f w i w₁) (h₂ : Returns g w₁ j w₂) :
    ∃ x₁ x₂, Returns g x j x₁ ∧ Returns f x₁ i x₂ ∧ c.Same n a w₂ x₂ := by
  obtain ⟨hframe, hparam, hlinks⟩ := hf.frame hB.links.1 h₁
  -- `g` does in `x` what it did in `w₁`, from which `r` alone tells `w` apart
  obtain ⟨x₁, hx₁, hB₁⟩ := hg.returns (a := a) (m := w₁.data) (d := x.data) (x := x)
    ⟨fun y hy => (hframe y (hy r hr hne)).symm.trans (hB.sameAt y), fun _ _ => .refl _,
      fun _ _ => .refl _, ⟨hparam.trans hB.params.1, hB.params.2⟩, hlinks, hB.links.2⟩ h₂
  -- `f` does in `x₁` what it did in `w`
  obtain ⟨x₂, hx₂, hB₂⟩ := hf.returns (a := a) (m := w.data) (d := x₁.data) (x := x₁)
    ⟨fun y hy => (hB.sameAt y).trans (hB₁.right y (hy r' hr' hne.symm)), fun _ _ => .refl _,
      fun _ _ => .refl _, ⟨hB.params.1, hB₁.params.2⟩, hB.links.1, hB₁.links.2⟩ h₁
  refine ⟨x₁, x₂, hx₁, hx₂, .of_sameAt (fun y => ?_) ⟨hB₁.params.1, hB₂.params.2⟩
    ⟨hB₁.links.1, hB₂.links.2⟩⟩
  by_cases hyr : c.Below y r
  · have hyr' := not_below_of_ne hr hr' hne hyr
    exact (hB₁.left y hyr').symm.trans (hB₂.near y (apart_of_below hr hyr))
  · refine SameAt.trans ?_ (hB₂.right y hyr)
    by_cases hyr' : c.Below y r'
    · exact hB₁.near y (apart_of_below hr' hyr')
    · exact (hB₁.left y hyr').symm.trans <| (hframe y hyr).symm.trans <|
        (hB.sameAt y).trans (hB₁.right y hyr')

end Local

/-! ### All regions -/

omit [DecidableEq S] in
/-- One simulation after another. -/
lemma Same.simulates_trans {α : Type} {f g h : Comp (World S T E P) α}
    (hfg : Simulates (c.Same n a) f g) (hgh : Simulates (c.Same n a) g h) :
    Simulates (c.Same n a) f h := by
  intro w x i w' hB hf
  obtain ⟨w'', hw'', hB'⟩ := hfg w w i w' hB.left hf
  obtain ⟨x', hx', hB''⟩ := hgh w x i w'' hB hw''
  exact ⟨x', hx', hB'.trans hB''⟩

/-- A run of `f` for one state after another, with the results. -/
inductive Each {α : Type} (f : S → Comp (World S T E P) α) :
    World S T E P → List (S × α) → World S T E P → Prop where
  | nil (w : World S T E P) : Each f w [] w
  | cons {w w₁ w' : World S T E P} {r : S} {i : α} {l : List (S × α)}
      (h : Returns (f r) w i w₁) (hl : Each f w₁ l w') : Each f w ((r, i) :: l) w'

omit [DecidableEq S] in
lemma returns_forM_iff {f : S → Comp (World S T E P) PUnit} {l : List S} {u : PUnit} :
    Returns (l.forM f) w u w' ↔ ∃ is, is.map Prod.fst = l ∧ Each f w is w' := by
  induction l generalizing w with
  | nil =>
      constructor
      · intro h
        obtain rfl := (returns_pure.mp h).2
        exact ⟨[], rfl, .nil _⟩
      · rintro ⟨is, his, h⟩
        obtain rfl := List.map_eq_nil_iff.mp his
        cases h
        exact returns_pure.mpr ⟨rfl, rfl⟩
  | cons r l ih =>
      constructor
      · intro h
        obtain ⟨w₁, h₁, h⟩ := returns_forM_cons.mp h
        obtain ⟨is, his, h⟩ := ih.mp h
        exact ⟨(r, ⟨⟩) :: is, by simp [his], .cons h₁ h⟩
      · rintro ⟨is, his, h⟩
        cases h with
        | nil => cases his
        | cons h₁ h =>
            rw [List.map_cons, List.cons.injEq] at his
            obtain ⟨rfl, htail⟩ := his
            exact returns_forM_cons.mpr ⟨_, h₁, ih.mpr ⟨_, htail, h⟩⟩

omit [DecidableEq S] in
lemma returns_dispatchRegions_iff {v : Methods S T E P} {e : Option E} {l : List S} {b : Bool} :
    Returns (ConcurrentState.dispatchRegions v n e l) w b w' ↔ ∃ is, is.map Prod.fst = l
      ∧ Each (ConcurrentState.dispatchRegion v n e) w is w' ∧ b = is.any Prod.snd := by
  induction l generalizing w b with
  | nil =>
      constructor
      · intro h
        obtain ⟨rfl, rfl⟩ := returns_pure.mp h
        exact ⟨[], rfl, .nil _, rfl⟩
      · rintro ⟨is, his, h, rfl⟩
        obtain rfl := List.map_eq_nil_iff.mp his
        cases h
        exact returns_pure.mpr ⟨rfl, rfl⟩
  | cons r l ih =>
      constructor
      · intro h
        obtain ⟨i, w₁, j, h₁, h₂, rfl⟩ := ConcurrentState.returns_dispatchRegions_cons.mp h
        obtain ⟨is, his, hl, rfl⟩ := ih.mp h₂
        exact ⟨(r, i) :: is, by simp [his], .cons h₁ hl, rfl⟩
      · rintro ⟨is, his, h, rfl⟩
        cases h with
        | nil => cases his
        | cons h₁ h =>
            rw [List.map_cons, List.cons.injEq] at his
            obtain ⟨rfl, htail⟩ := his
            exact ConcurrentState.returns_dispatchRegions_cons.mpr
              ⟨_, _, _, h₁, ih.mpr ⟨_, htail, h, rfl⟩, rfl⟩

namespace Each

variable {α : Type} {f : S → Comp (World S T E P) α} {l l' : List S} {is : List (S × α)}
variable (hf : ∀ r ∈ c.regions n, c.Local n r (f r))

include hf

/-- Alike worlds stay alike. -/
lemma same (hl : ∀ i ∈ is, i.1 ∈ c.regions n) (hB : c.Same n a w x) (h : Each f w is w') :
    ∃ x', Each f x is x' ∧ c.Same n a w' x' := by
  induction h generalizing x with
  | nil => exact ⟨x, .nil x, hB⟩
  | cons h _ ih =>
      have hr := hl _ List.mem_cons_self
      obtain ⟨x₁, hx₁, hB₁⟩ := (hf _ hr).simulates hr _ _ _ _ hB h
      obtain ⟨x', hx', hB'⟩ := ih (fun j hj => hl j (List.mem_cons_of_mem _ hj)) hB₁
      exact ⟨x', .cons hx₁ hx', hB'⟩

/-- **The order does not matter.** -/
lemma perm (hp : l.Perm l') (hl : ∀ r ∈ l, r ∈ c.regions n) (hd : l.Nodup)
    (his : is.map Prod.fst = l) (hB : c.Same n a w x) (h : Each f w is w') :
    ∃ is' x', is'.map Prod.fst = l' ∧ is.Perm is' ∧ Each f x is' x' ∧ c.Same n a w' x' := by
  induction hp generalizing w x w' is with
  | nil =>
      obtain ⟨x', hx', hB'⟩ := h.same hf (fun i hi => hl _ (his ▸ List.mem_map_of_mem hi)) hB
      exact ⟨is, x', his, .refl _, hx', hB'⟩
  | cons r _ ih =>
      have hr := hl r List.mem_cons_self
      cases h with
      | nil => cases his
      | cons h₁ h =>
          rw [List.map_cons, List.cons.injEq] at his
          obtain ⟨rfl, htail⟩ := his
          obtain ⟨x₁, hx₁, hB₁⟩ := (hf _ hr).simulates hr _ _ _ _ hB h₁
          obtain ⟨is', x', his', hperm, hx', hB'⟩ :=
            ih (fun q hq => hl q (List.mem_cons_of_mem _ hq)) hd.of_cons htail hB₁ h
          exact ⟨_ :: is', x', by simp [his'], hperm.cons _, .cons hx₁ hx', hB'⟩
  | swap r r' l =>
      have hr := hl r (by simp)
      have hr' := hl r' (by simp)
      have hne : r' ≠ r := fun heq => (List.nodup_cons.mp hd).1 (heq ▸ List.mem_cons_self)
      cases h with
      | nil => cases his
      | cons h₁ h =>
          rw [List.map_cons, List.cons.injEq] at his
          obtain ⟨rfl, hrest⟩ := his
          cases h with
          | nil => cases hrest
          | cons h₂ h =>
              rw [List.map_cons, List.cons.injEq] at hrest
              obtain ⟨rfl, htail⟩ := hrest
              obtain ⟨x₁, x₂, hx₁, hx₂, hB₂⟩ := (hf _ hr').swap hr' hr hne (hf _ hr) hB h₁ h₂
              obtain ⟨x', hx', hB'⟩ := h.same hf
                (fun i hi => hl _ (by simp [← htail, List.mem_map_of_mem hi])) hB₂
              exact ⟨_, x', by simp [htail], .swap _ _ _, .cons hx₁ (.cons hx₂ hx'), hB'⟩
  | trans hp _ ih ih' =>
      obtain ⟨is₁, w₁, his₁, hperm, h₁, hB₁⟩ := ih hl hd his hB.left h
      obtain ⟨is', x', his', hperm', hx', hB'⟩ := ih' (fun q hq => hl q (hp.mem_iff.mpr hq))
        (hp.nodup_iff.mp hd) his₁ hB h₁
      exact ⟨is', x', his', hperm.trans hperm', hx', hB₁.trans hB'⟩

/-- **Each region on its own.** What the run makes of a region is what `f` alone makes of it; the
states of no region are left alone. -/
lemma alone (hl : ∀ i ∈ is, i.1 ∈ c.regions n) (hd : (is.map Prod.fst).Nodup)
    (hlinks : c.Links w.data) (h : Each f w is w') :
    (∀ y, (∀ i ∈ is, ¬ c.Below y i.1) → SameAt n y w.data w'.data)
      ∧ ∀ i ∈ is, ∃ x', Returns (f i.1) w i.2 x'
        ∧ ∀ y, c.Below y i.1 → SameAt n y x'.data w'.data := by
  induction h with
  | nil => exact ⟨fun _ _ => .refl _, by simp⟩
  | @cons w w₁ w' r i l h₁ h ih =>
      have hr := hl _ List.mem_cons_self
      have hin : ∀ j ∈ l, j.1 ∈ c.regions n := fun j hj => hl j (List.mem_cons_of_mem _ hj)
      obtain ⟨hframe, hparam, hlinks₁⟩ := (hf r hr).frame hlinks h₁
      obtain ⟨hrest, halone⟩ := ih hin hd.of_cons hlinks₁
      have hne : ∀ j ∈ l, j.1 ≠ r := fun j hj heq =>
        (List.nodup_cons.mp hd).1 (List.mem_map.mpr ⟨j, hj, heq⟩)
      refine ⟨fun y hy => ?_, fun j hj => ?_⟩
      · exact (hframe y (hy _ List.mem_cons_self)).trans
          (hrest y fun j hj => hy j (List.mem_cons_of_mem _ hj))
      · rcases List.mem_cons.mp hj with rfl | hj
        · exact ⟨w₁, h₁, fun y hy => hrest y fun j hj =>
            not_below_of_ne hr (hin j hj) (hne j hj).symm hy⟩
        · obtain ⟨x', hx', hsame⟩ := halone j hj
          have hjr := hin j hj
          obtain ⟨x, hx, hB⟩ := (hf j.1 hjr).returns (a := w.param) (m := w₁.data) (d := w.data)
            (x := w) ⟨fun y hy => (hframe y (hy r hr (hne j hj).symm)).symm, fun _ _ => .refl _,
              fun _ _ => .refl _, ⟨hparam, rfl⟩, hlinks₁, hlinks⟩ hx'
          exact ⟨x, hx, fun y hy => (hB.near y (apart_of_below hjr hy)).symm.trans (hsame y hy)⟩

end Each

section Perm

variable {l l' : List S} (hp : l.Perm l') (hl : ∀ r ∈ l, r ∈ c.regions n) (hd : l.Nodup)

include hp hl hd

lemma simulates_forM_perm {f : S → Comp (World S T E P) PUnit}
    (hf : ∀ r ∈ c.regions n, c.Local n r (f r)) :
    Simulates (c.Same n a) (l.forM f) (l'.forM f) := by
  intro w x u w' hB h
  obtain ⟨is, his, hrun⟩ := returns_forM_iff.mp h
  obtain ⟨is', x', his', -, hx', hB'⟩ := hrun.perm hf hp hl hd his hB
  exact ⟨x', returns_forM_iff.mpr ⟨is', his', hx'⟩, hB'⟩

lemma simulates_dispatchRegions_perm {v : Methods S T E P} {e : Option E}
    (hf : ∀ r ∈ c.regions n, c.Local n r (ConcurrentState.dispatchRegion v n e r)) :
    Simulates (c.Same n a) (ConcurrentState.dispatchRegions v n e l)
      (ConcurrentState.dispatchRegions v n e l') := by
  intro w x b w' hB h
  obtain ⟨is, his, hrun, rfl⟩ := returns_dispatchRegions_iff.mp h
  obtain ⟨is', x', his', hperm, hx', hB'⟩ := hrun.perm hf hp hl hd his hB
  exact ⟨x', returns_dispatchRegions_iff.mpr ⟨is', his', hx', hperm.any_eq⟩, hB'⟩

end Perm

section Methods

variable (hc : c.Parametric) (hk : c.kind n = .concurrentState) (h : c.Enclosed n)
variable (hr : r ∈ c.regions n) (k : ℕ)

include hc hk h hr

lemma local_dispatchRegion (e : Option E) :
    c.Local n r (ConcurrentState.dispatchRegion (c.methods k) n e r) := fun _ _ _ =>
  SimilarOn.dispatchRegion ((similarOn_viewFrom hc hk h hr).methods k)
    (fun _ _ hB => (hB.near n apart_self).isActive) (Forest.below_refl _) e

lemma local_enterRegion :
    c.Local n r (ConcurrentState.enterRegion (c.methods k) n r) := fun _ _ _ =>
  SimilarOn.enterRegion ((similarOn_viewFrom hc hk h hr).methods k)
    (fun _ _ hB => (hB.near n apart_self).stateset) (Forest.below_refl _)

lemma local_deactivate : c.Local n r ((c.methods k).deactivate r) := fun _ _ _ =>
  ((similarOn_viewFrom hc hk h hr).methods k).deactivate r (Forest.below_refl _)

end Methods

/-! ### Another order -/

/-- The chart with the regions of `n` created in another order. -/
def permuteRegions (c : Chart S T E P) (n : S) (l : List S) (hl : l.Perm (c.regions n)) :
    Chart S T E P :=
  { c with
    ownedStates := l ++ c.ownedStates.filter fun s => s ∉ c.regions n
    mem_ownedStates := fun s => by
      rw [List.mem_append, hl.mem_iff, List.mem_filter, ← c.mem_ownedStates]
      by_cases hs : s ∈ c.regions n
      · simp [hs, (List.mem_filter.mp hs).1]
      · simp [hs]
    nodup_ownedStates := by
      refine List.nodup_append.mpr ⟨hl.nodup_iff.mpr nodup_regions, c.nodup_ownedStates.filter _,
        fun s hs q hq hsq => ?_⟩
      subst hsq
      exact (by simpa using (List.mem_filter.mp hq).2 : s ∉ c.regions n) (hl.mem_iff.mp hs) }

section Permute

variable {l : List S} (hl : l.Perm (c.regions n)) {v : Methods S T E P} {q s : S} {t : T}
variable {e : Option E}

@[simp] lemma kind_permuteRegions : (c.permuteRegions n l hl).kind = c.kind := rfl

@[simp] lemma context_permuteRegions : (c.permuteRegions n l hl).context = c.context := rfl

/-- A registry that does not hold regions of `n` is the same. -/
lemma filter_permuteRegions {p : S → Bool} (hp : ∀ s ∈ c.regions n, p s = false) :
    (c.permuteRegions n l hl).ownedStates.filter p = c.ownedStates.filter p := by
  change (l ++ c.ownedStates.filter fun s => s ∉ c.regions n).filter p = _
  rw [List.filter_append, List.filter_eq_nil_iff.mpr fun s hs => by
    rw [hp s (hl.mem_iff.mp hs)]; decide, List.nil_append, List.filter_filter]
  refine List.filter_congr fun s _ => ?_
  by_cases hs : s ∈ c.regions n
  · simp [hs, hp s hs]
  · simp [hs]

lemma startState_permuteRegions : (c.permuteRegions n l hl).startState s = c.startState s := by
  rw [startState, startState, ← List.head?_filter, ← List.head?_filter]
  refine congrArg List.head? (filter_permuteRegions hl fun r hr => ?_)
  simp [(mem_regions.mp hr).1]

lemma history_permuteRegions : (c.permuteRegions n l hl).history s = c.history s := by
  rw [history, history, ← List.head?_filter, ← List.head?_filter]
  refine congrArg List.head? (filter_permuteRegions hl fun r hr => ?_)
  simp [(mem_regions.mp hr).1, StateKind.isHistory]

lemma regions_permuteRegions_of_ne (hq : q ≠ n) :
    (c.permuteRegions n l hl).regions q = c.regions q :=
  filter_permuteRegions hl fun r hr => by simp [(mem_regions.mp hr).2, hq.symm]

lemma regions_permuteRegions : (c.permuteRegions n l hl).regions n = l := by
  change (l ++ c.ownedStates.filter fun s => s ∉ c.regions n).filter _ = l
  rw [List.filter_append, List.filter_eq_self.mpr fun s hs => by
    exact decide_eq_true ((mem_regions (c := c)).mp (hl.mem_iff.mp hs)), List.filter_filter,
    List.filter_eq_nil_iff.mpr fun s hs => ?_, List.append_nil]
  simp only [Bool.and_eq_true, decide_eq_true_eq, not_and]
  exact fun h₁ h₂ => h₂ (mem_regions.mpr h₁)

lemma chainBound_permuteRegions : (c.permuteRegions n l hl).chainBound = c.chainBound := by
  have hperm : (c.permuteRegions n l hl).ownedStates.Perm c.ownedStates := by
    refine (List.perm_ext_iff_of_nodup (c.permuteRegions n l hl).nodup_ownedStates
      c.nodup_ownedStates).mpr fun s => ?_
    rw [(c.permuteRegions n l hl).mem_ownedStates, c.mem_ownedStates]
    rfl
  unfold chainBound maxDepth
  rw [hperm.length_eq]
  congr 1
  exact (hperm.map _).foldr_eq _

lemma calculateHistoryChain_permuteRegions (m : Metadata S) (type : PseudoStateType) :
    ∀ (k : ℕ) (q : Option S), (c.permuteRegions n l hl).calculateHistoryChain m type k q
      = c.calculateHistoryChain m type k q
  | 0, none | 0, some _ | _ + 1, none => rfl
  | k + 1, some s => by
      simp only [calculateHistoryChain, kind_permuteRegions,
        calculateHistoryChain_permuteRegions m type k]

lemma storeHistory_permuteRegions :
    (c.permuteRegions n l hl).storeHistory s = c.storeHistory s := by
  unfold storeHistory
  simp only [chainBound_permuteRegions, calculateHistoryChain_permuteRegions]
  rfl

lemma path_permuteRegions : (c.permuteRegions n l hl).path s = c.path s := by
  have hwalk : ∀ (k : ℕ) (s : S) (acc : List S),
      (c.permuteRegions n l hl).walk k s acc = c.walk k s acc := by
    intro k
    induction k with
    | zero => exact fun _ _ => rfl
    | succ k ih =>
        intro s acc
        simp only [walk, kind_permuteRegions, context_permuteRegions, ih]
  exact hwalk _ s []

lemma deactivates_permuteRegions : (c.permuteRegions n l hl).deactivates t = c.deactivates t := by
  unfold deactivates calculateStateSet
  simp only [path_permuteRegions]
  rfl

lemma activates_permuteRegions : (c.permuteRegions n l hl).activates t = c.activates t := by
  unfold activates calculateStateSet
  simp only [path_permuteRegions]
  rfl

/-! ### The methods of both charts -/

lemma allowed_permuteRegions :
    Transition.allowed (c.permuteRegions n l hl) v t = Transition.allowed c v t := by
  unfold Transition.allowed
  rw [activates_permuteRegions]
  rfl

lemma execute_permuteRegions :
    Transition.execute (c.permuteRegions n l hl) v t e = Transition.execute c v t e := by
  have hactivate : ∀ l' : List S, Transition.activateAll (c.permuteRegions n l hl) v l'
      = Transition.activateAll c v l' := by
    intro l'
    induction l' with
    | nil => rfl
    | cons s l' ih =>
        cases l' with
        | nil => rfl
        | cons r l' =>
            unfold Transition.activateAll
            rw [ih]
            rfl
  have hfire : Transition.fire (c.permuteRegions n l hl) v t = Transition.fire c v t := by
    unfold Transition.fire
    rw [deactivates_permuteRegions, activates_permuteRegions, hactivate]
    rfl
  unfold Transition.execute
  rw [allowed_permuteRegions, hfire]
  rfl

lemma state_dispatch_permuteRegions :
    State.dispatch (c.permuteRegions n l hl) v s e = State.dispatch c v s e := by
  unfold State.dispatch
  simp only [execute_permuteRegions]
  rfl

lemma deactivate_permuteRegions : HierarchicalState.deactivate (c.permuteRegions n l hl) v s
    = HierarchicalState.deactivate c v s := by
  have hsave : HierarchicalState.saveHistory (c.permuteRegions n l hl) s
      = HierarchicalState.saveHistory c s := by
    funext cur
    unfold HierarchicalState.saveHistory HierarchicalState.storesHistory
    simp only [history_permuteRegions, startState_permuteRegions, storeHistory_permuteRegions]
    rfl
  unfold HierarchicalState.deactivate
  rw [hsave]
  rfl

lemma dispatch_permuteRegions : HierarchicalState.dispatch (c.permuteRegions n l hl) v s e
    = HierarchicalState.dispatch c v s e := by
  have hstart : HierarchicalState.enterStart (c.permuteRegions n l hl) v s
      = HierarchicalState.enterStart c v s := by
    unfold HierarchicalState.enterStart
    rw [startState_permuteRegions]
    rfl
  have htry : ∀ fin, HierarchicalState.tryTransition (c.permuteRegions n l hl) v fin e
      = HierarchicalState.tryTransition c v fin e := by
    intro fin
    funext t
    unfold HierarchicalState.tryTransition
    simp only [execute_permuteRegions]
    rfl
  unfold HierarchicalState.dispatch
  simp only [hstart, htry]
  rfl

lemma finished_permuteRegions :
    ConcurrentState.finished (c.permuteRegions n l hl) q = ConcurrentState.finished c q := by
  funext w
  unfold ConcurrentState.finished
  by_cases hq : q = n
  · subst hq
    rw [regions_permuteRegions]
    exact hl.all_eq
  · rw [regions_permuteRegions_of_ne hl hq]
    rfl

lemma concurrent_tryTransition_permuteRegions :
    ConcurrentState.tryTransition (c.permuteRegions n l hl) v q e
      = ConcurrentState.tryTransition c v q e := by
  funext t
  unfold ConcurrentState.tryTransition
  rw [finished_permuteRegions, execute_permuteRegions]
  rfl

lemma pseudo_lookup_permuteRegions :
    PseudoState.lookup (c.permuteRegions n l hl) v s = PseudoState.lookup c v s := by
  have hready : PseudoState.joinReady (c.permuteRegions n l hl) s = PseudoState.joinReady c s := by
    funext w
    unfold PseudoState.joinReady
    simp only [deactivates_permuteRegions]
    rfl
  have hallowed : Transition.allowed (c.permuteRegions n l hl) v = Transition.allowed c v :=
    funext fun _ => allowed_permuteRegions hl
  unfold PseudoState.lookup
  rw [hready, hallowed]
  rfl

lemma pseudo_activate_permuteRegions :
    PseudoState.activate (c.permuteRegions n l hl) v s = PseudoState.activate c v s := by
  unfold PseudoState.activate
  simp only [activates_permuteRegions]
  rfl

lemma pseudo_dispatch_permuteRegions :
    PseudoState.dispatch (c.permuteRegions n l hl) v s e = PseudoState.dispatch c v s e := by
  unfold PseudoState.dispatch
  simp only [execute_permuteRegions, state_dispatch_permuteRegions]
  rfl

/-- Any state but `n` has the same methods. -/
lemma step_permuteRegions (hs : s ≠ n) :
    ((c.permuteRegions n l hl).step v).activate s = (c.step v).activate s
      ∧ ((c.permuteRegions n l hl).step v).deactivate s = (c.step v).deactivate s
      ∧ ((c.permuteRegions n l hl).step v).dispatch s e = (c.step v).dispatch s e := by
  have hregions := regions_permuteRegions_of_ne hl hs
  cases hk : c.kind s <;> simp only [step, kind_permuteRegions, hk]
  case hierarchicalState =>
    exact ⟨rfl, deactivate_permuteRegions hl, dispatch_permuteRegions hl⟩
  case pseudoState =>
    exact ⟨pseudo_activate_permuteRegions hl, rfl, pseudo_dispatch_permuteRegions hl⟩
  case concurrentState =>
    refine ⟨?_, ?_, ?_⟩
    · unfold ConcurrentState.activate ConcurrentState.enterRegions
      rw [hregions]
      rfl
    · unfold ConcurrentState.deactivate
      rw [hregions]
      rfl
    · unfold ConcurrentState.dispatch
      rw [hregions, concurrent_tryTransition_permuteRegions]
      rfl
  all_goals exact ⟨rfl, rfl, state_dispatch_permuteRegions hl⟩

section Regions

variable (hc : c.Parametric) (hk : c.kind n = .concurrentState) (h : c.Enclosed n) {k : ℕ}
variable {v' : Methods S T E P} (hv : (c.methods k).SimulateOn (fun _ => True) (c.Same n a) v')

include hc hk h hv

lemma concurrent_activate_permuteRegions :
    Simulates (c.Same n a) (ConcurrentState.activate c (c.methods k) n)
      (ConcurrentState.activate (c.permuteRegions n l hl) v' n) := by
  have hsim : c.SimilarOn (fun _ => True) (c.Same n a) := similarOn_same hc hk
  have hloop := Same.simulates_trans
    (simulates_forM_perm (a := a) hl.symm (fun _ hr => hr) nodup_regions
      fun r hr => local_enterRegion hc hk h hr k)
    (simulates_forM fun r _ => SimilarOn.enterRegion hv
      (fun _ _ hB => (hB.sameAt n).stateset) trivial)
  have henter : Simulates (c.Same n a) (ConcurrentState.enterRegions c (c.methods k) n)
      (ConcurrentState.enterRegions (c.permuteRegions n l hl) v' n) := by
    unfold ConcurrentState.enterRegions
    rw [regions_permuteRegions]
    refine simulates_bind (simulates_peek fun w x => hsim.isSome n trivial) fun b =>
      simulates_ite ?_ (simulates_pure _)
    exact simulates_bind (simulates_modify fun _ _ => hsim.entering n trivial) fun _ =>
      simulates_bind hloop fun _ => simulates_modify fun _ _ => hsim.entered n trivial
  refine simulates_bind (hsim.state_activate trivial (by rw [hk]; rfl)) fun b =>
    simulates_ite ?_ (simulates_pure _)
  exact simulates_bind henter fun _ => simulates_pure _

lemma concurrent_deactivate_permuteRegions :
    Simulates (c.Same n a) (ConcurrentState.deactivate c (c.methods k) n)
      (ConcurrentState.deactivate (c.permuteRegions n l hl) v' n) := by
  have hsim : c.SimilarOn (fun _ => True) (c.Same n a) := similarOn_same hc hk
  have hloop := Same.simulates_trans
    (simulates_forM_perm (a := a) hl.symm (fun _ hr => hr) nodup_regions
      fun r hr => local_deactivate hc hk h hr k)
    (simulates_forM fun r _ => hv.deactivate r trivial)
  unfold ConcurrentState.deactivate
  rw [regions_permuteRegions]
  exact simulates_bind (simulates_modify fun _ _ => hsim.clearStateset n trivial hk) fun _ =>
    simulates_bind hloop fun _ => hsim.state_deactivate trivial

lemma concurrent_dispatch_permuteRegions (e : Option E) :
    Simulates (c.Same n a) (ConcurrentState.dispatch c (c.methods k) n e)
      (ConcurrentState.dispatch (c.permuteRegions n l hl) v' n e) := by
  have hsim : c.SimilarOn (fun _ => True) (c.Same n a) := similarOn_same hc hk
  have hloop := Same.simulates_trans
    (simulates_dispatchRegions_perm (a := a) hl.symm (fun _ hr => hr) nodup_regions
      fun r hr => local_dispatchRegion hc hk h hr k e)
    (SimilarOn.dispatchRegions hv (fun _ _ hB => (hB.sameAt n).isActive) e fun _ _ => trivial)
  unfold ConcurrentState.dispatch
  rw [regions_permuteRegions, concurrent_tryTransition_permuteRegions]
  exact simulates_bind hloop fun _ => simulates_ite (simulates_pure _) <|
    simulates_anyM fun _ ht => hsim.concurrent_tryTransition hv trivial (hsim.own trivial ht) e

end Regions

/-- **The order of the regions does not matter.** Every method does the same in both charts. -/
theorem methods_permuteRegions (hc : c.Parametric) (hk : c.kind n = .concurrentState)
    (h : c.Enclosed n) : ∀ k : ℕ, (c.methods k).SimulateOn (fun _ => True) (c.Same n a)
      ((c.permuteRegions n l hl).methods k)
  | 0 => SimilarOn.simulateOn_failure
  | k + 1 => by
      have hv := methods_permuteRegions hc hk h k
      have hsim : c.SimilarOn (fun _ => True) (c.Same n a) := similarOn_same hc hk
      simp only [methods]
      refine ⟨fun j _ => ?_, fun s _ => ?_, fun s _ => ?_, fun s e _ => ?_⟩
      · have hlookup := pseudo_lookup_permuteRegions (s := j) hl
          (v := (c.permuteRegions n l hl).methods k)
        simp only [step]
        rw [hlookup]
        exact hsim.pseudo_lookup hv trivial
      · by_cases hs : s = n
        · simp only [step, kind_permuteRegions, hs, hk]
          exact concurrent_activate_permuteRegions hl hc hk h hv
        · rw [(step_permuteRegions hl (e := none) hs).1]
          exact hsim.step_activate hv trivial
      · by_cases hs : s = n
        · simp only [step, kind_permuteRegions, hs, hk]
          exact concurrent_deactivate_permuteRegions hl hc hk h hv
        · rw [(step_permuteRegions hl (e := none) hs).2.1]
          exact hsim.step_deactivate hv trivial
      · by_cases hs : s = n
        · simp only [step, kind_permuteRegions, hs, hk]
          exact concurrent_dispatch_permuteRegions hl hc hk h hv e
        · rw [(step_permuteRegions hl hs).2.2]
          exact hsim.step_dispatch hv trivial e

end Permute

end Chart

/-! ### The result -/

/-- The order of the regions of `n` makes no difference to a dispatch of `e` from `w`: with the
regions in any other order, it gives the same answer, the same active states, and the same current
states inside the regions. Unless a transition of `n` fires, it makes of each region what a dispatch
to that region alone makes of it. -/
def ConcurrentState.Indifferent (c : Chart S T E P) (n : S) (e : Option E) (w : World S T E P) :
    Prop := ∀ b w', Returned (fun k => (c.methods k).dispatch n e) w b w' →
  (∀ l (hl : l.Perm (c.regions n)), ∃ x',
    Returned (fun k => ((c.permuteRegions n l hl).methods k).dispatch n e) w b x'
    ∧ (∀ y, x'.data.isActive y = w'.data.isActive y)
    ∧ ∀ r ∈ c.regions n, ∀ y, c.Below y r → x'.data.current y = w'.data.current y)
  ∧ ((∀ t m, c.source t = n → Obs.fire t m ∉ w.since w') → ∀ r ∈ c.regions n, ∃ i x',
    Returned (fun k => (c.methods k).dispatch r e) w i x'
    ∧ ∀ y, c.Below y r → x'.data.isActive y = w'.data.isActive y
      ∧ x'.data.current y = w'.data.current y)

variable {n : S} {e : Option E} {w w' : World S T E P} {k : ℕ} {b : Bool} {t : T}

/-- A transition that fires leaves its mark. -/
lemma Transition.fire_mem_since (h : Returns (Transition.execute c (c.methods k) t e) w true w') :
    Obs.fire t w.data ∈ w.since w' := by
  rcases (Transition.returns_execute (pure_methods c k)).mp h with ⟨-, -, -, hf⟩ | ⟨hb, -⟩
  · have hext : (w.log (.fire t w.data)).Extends w' :=
      (compatible_extends c).after_fire ((compatible_extends c).methods k) hf
    rw [World.since_trans (World.extends_log w (.fire t w.data)) hext, World.since_log]
    exact List.mem_append_right _ List.mem_cons_self
  · cases hb

/-- A dispatch to `n` in which no transition of `n` fires is one to each of its regions. -/
lemma ConcurrentState.returns_dispatchRegions_of_quiet (hp : (c.methods k).Pure)
    (h : Returns (ConcurrentState.dispatch c (c.methods k) n e) w b w')
    (hquiet : ∀ t m, c.source t = n → Obs.fire t m ∉ w.since w') :
    ∃ b₁, Returns (ConcurrentState.dispatchRegions (c.methods k) n e (c.regions n)) w b₁ w' := by
  rcases ConcurrentState.returns_dispatch.mp h with ⟨h₁, -⟩ | ⟨w₁, h₁, h₂⟩
  · exact ⟨true, h₁⟩
  · have hext : Offers c e World.Extends (c.methods k) :=
      (compatible_extends c).offers hp ((compatible_extends c).methods k) trivial
    have hx₁ : w.Extends w₁ := hext.dispatchRegions n _ _ _ _ h₁
    have hstep : ∀ t ∈ c.transitions n, ∀ w w',
        Returns (ConcurrentState.tryTransition c (c.methods k) n e t) w false w' → w' = w := by
      intro t _ w w' ht
      rcases ConcurrentState.returns_tryTransition.mp ht with ⟨-, -, hw⟩ | ⟨-, -, ht⟩
      · exact hw
      · exact Transition.eq_of_execute_false ht
    rcases anyM_eq_or_mem hstep h₂ with rfl | ⟨t, ht, hx⟩
    · exact ⟨false, h₁⟩
    · -- a transition of `n` has fired
      rcases ConcurrentState.returns_tryTransition.mp hx with ⟨-, hb, -⟩ | ⟨-, -, hx⟩
      · cases hb
      · have hmem := List.mem_append_left (w.since w₁) (Transition.fire_mem_since hx)
        rw [← World.since_trans hx₁ (hext.execute t _ _ _ hx)] at hmem
        exact absurd hmem (hquiet t _ (Chart.mem_transitions.mp ht).2)

/-- The regions of an inactive state are inactive. -/
lemma Chart.LegalConfiguration.isActive_region {m : Metadata S} {r : S}
    (h : c.LegalConfiguration m) (hn : m.isActive n = false) (hr : r ∈ c.regions n) :
    m.isActive r = false := by
  obtain ⟨hk, hp⟩ := Chart.mem_regions.mp hr
  by_contra ha
  have := h.upward (x := r) (by rw [hk]; rfl) (by simpa using ha) hp
  rw [hn] at this
  cases this

/-- An inactive state ignores a dispatch. -/
lemma HierarchicalState.returned_dispatch_inactive {r : S} (hk : c.kind r = .hierarchicalState)
    (hi : w.data.isActive r = false) (e : Option E) :
    Returned (fun k => (c.methods k).dispatch r e) w false w := by
  refine ⟨1, ?_⟩
  simp only [Chart.methods, Chart.step, hk]
  exact HierarchicalState.returns_dispatch.mpr (Or.inl ⟨hi, rfl, rfl⟩)

/-- **The order of the regions does not matter.** When no transition leads out of a region of `n`,
guards and comparisons look at the parameter only, and actions leave the metadata and the parameter
alone, a dispatch to `n` in a legal configuration does not depend on the order of the regions of
`n`, and makes of each region what a dispatch to it alone does. -/
theorem ConcurrentState.dispatch_indifferent (hc : c.Parametric)
    (hk : c.kind n = .concurrentState) (h : c.Enclosed n) (hlegal : c.LegalConfiguration w.data)
    (hlinks : c.Links w.data) (e : Option E) : ConcurrentState.Indifferent c n e w := by
  rintro b w' ⟨k, hd⟩
  have hne : ∀ {r y}, r ∈ c.regions n → c.Below y r → y ≠ n := fun hr hy hyn =>
    Forest.not_below_of_parent (F := c.forest) (Chart.mem_regions.mp hr).2 (hyn ▸ hy)
  have hself : c.Same n w.param w w :=
    .of_sameAt (fun _ => .refl _) ⟨rfl, rfl⟩ ⟨hlinks, hlinks⟩
  refine ⟨fun l hl => ?_, fun hquiet r hr => ?_⟩
  · obtain ⟨x', hx', hB⟩ := (Chart.methods_permuteRegions hl hc hk h k).dispatch n e trivial
      w w b w' hself hd
    exact ⟨x', ⟨k, hx'⟩, fun y => (hB.sameAt y).isActive.symm, fun r hr y hy =>
      ((hB.sameAt y).current (hne hr hy)).symm⟩
  · cases k with
    | zero => exact (returns_failure.mp hd).elim
    | succ k =>
        simp only [Chart.methods, Chart.step, hk] at hd
        obtain ⟨b₁, hd⟩ :=
          ConcurrentState.returns_dispatchRegions_of_quiet (pure_methods c k) hd hquiet
        obtain ⟨is, his, hrun, -⟩ := Chart.returns_dispatchRegions_iff.mp hd
        obtain ⟨i, hi, rfl⟩ := List.mem_map.mp (his ▸ hr)
        obtain ⟨-, halone⟩ := hrun.alone
          (fun r hr => Chart.local_dispatchRegion hc hk h hr k e)
          (fun j hj => his ▸ List.mem_map_of_mem hj) (his ▸ Chart.nodup_regions) hlinks
        obtain ⟨x', hx', hsame⟩ := halone i hi
        obtain ⟨j, hj⟩ : ∃ j, Returned (fun k => (c.methods k).dispatch i.1 e) w j x' := by
          rcases ConcurrentState.returns_dispatchRegion.mp hx' with ⟨hn, -, rfl⟩ | ⟨-, hx'⟩
          · exact ⟨false, HierarchicalState.returned_dispatch_inactive
              (Chart.mem_regions.mp hr).1 (hlegal.isActive_region hn hr) e⟩
          · exact ⟨i.2, k, hx'⟩
        exact ⟨j, x', hj, fun y hy => ⟨(hsame y hy).isActive, (hsame y hy).current (hne hr hy)⟩⟩

namespace Meddling

/-- A concurrent state `n` with the regions `r1` and `r2`, both with two states. -/
inductive St where
  | chart | n | r1 | x1 | y1 | r2 | x2 | y2
  deriving DecidableEq

instance : Fintype St := ⟨{.chart, .n, .r1, .x1, .y1, .r2, .x2, .y2}, fun x => by
  cases x <;> decide⟩

inductive Tr where
  | move1 | move2
  deriving DecidableEq

instance : Fintype Tr := ⟨{.move1, .move2}, fun t => by cases t <;> decide⟩

/-- What the client may do with the metadata. -/
inductive Client where
  | calm | writes | reads
  deriving DecidableEq

/-- Makes `r2` forget its current state. -/
def forget : Action St Unit := fun m p => (m.modify .r2 fun d => { d with currentState := none }, p)

/-- The same event moves both regions. The effect of the first transition may touch `r2`; the
comparison of events may look at `x1`. -/
def chart (client : Client) : Chart St Tr Event Unit where
  name := "meddling"
  root := .chart
  ownedStates := [.n, .r1, .x1, .y1, .r2, .x2, .y2]
  ownedTransitions := [.move1, .move2]
  kind
    | .chart => .statechart
    | .n => .concurrentState
    | .r1 | .r2 => .hierarchicalState
    | .x1 | .y1 | .x2 | .y2 => .state
  context
    | .chart => none
    | .n => some .chart
    | .r1 | .r2 => some .n
    | .x1 | .y1 => some .r1
    | .x2 | .y2 => some .r2
  depth
    | .chart => 0
    | .n => 1
    | .r1 | .r2 => 2
    | .x1 | .y1 | .x2 | .y2 => 3
  source
    | .move1 => .x1
    | .move2 => .x2
  target
    | .move1 => .y1
    | .move2 => .y2
  event _ := some (.event "go")
  action
    | .move1 => if client = .writes then some forget else none
    | .move2 => none
  equals ev e m _ := ev.equals e && (client != .reads || m.isActive .x1)
  timeout := Event.timeout

/-- Both regions stand in their first state. -/
def data : Metadata St :=
  ⟨fun
    | .chart => some { active := true, currentState := some .n }
    | .n => some { active := true }
    | .r1 => some { active := true, currentState := some .x1 }
    | .x1 => some { active := true }
    | .r2 => some { active := true, currentState := some .x2 }
    | .x2 => some { active := true }
    | .y1 | .y2 => none⟩

def world : World St Tr Event Unit := { World.fresh () with data }

lemma enclosed (client : Client) : (chart client).Enclosed .n := by
  intro t _ r hr hs
  have hr := (Chart.mem_regions.mp hr).2
  cases r <;> try cases hr
  all_goals cases t <;> revert hs <;> cases client <;> decide

lemma links (client : Client) : (chart client).Links data where
  pointers p q := by cases p <;> cases q <;> cases client <;> decide
  histories h p hk := by cases h <;> cases client <;> cases hk

lemma legal (client : Client) : (chart client).LegalConfiguration data := by
  cases client <;> exact ⟨by decide, by decide, by decide, by decide⟩

lemma keepsParam (client : Client) : (chart client).EveryAction Action.KeepsParam := by
  refine ⟨fun h => ?_, fun h => ?_, fun h => ?_, fun {t f} h => ?_⟩
  any_goals cases h
  exact fun _ _ => rfl

lemma parametric : (chart .calm).Parametric where
  guard h := by cases h
  equals _ _ _ _ _ := rfl
  keepsParam := keepsParam _
  keepsData := by
    refine ⟨fun h => ?_, fun h => ?_, fun h => ?_, fun {t f} h => ?_⟩
    any_goals cases h
    cases t <;> cases h

/-- Apart from the use that the client makes of the metadata, nothing is missing, and still the
order of the regions makes a difference. -/
structure Differs (client : Client) : Prop where
  legal : (chart client).LegalConfiguration data
  links : (chart client).Links data
  enclosed : (chart client).Enclosed .n
  unguarded : ∀ t, (chart client).guard t = none
  keepsParam : (chart client).EveryAction Action.KeepsParam
  differs : ¬ ConcurrentState.Indifferent (chart client) .n (some (.event "go")) world

lemma differs_of_not (client : Client)
    (h : ¬ ConcurrentState.Indifferent (chart client) .n (some (.event "go")) world) :
    Differs client :=
  ⟨legal _, links _, enclosed _, fun _ => rfl, keepsParam _, h⟩

set_option maxRecDepth 8000 in
/-- **The order matters.** When an effect inside `r1` changes the record of `r2`, or the comparison
of events looks at a state of `r1`, only the second order of the regions moves both. -/
theorem not_indifferent : Differs .writes ∧ Differs .reads := by
  have hl : ∀ client, [St.r2, .r1].Perm ((chart client).regions .n) := fun _ => .swap _ _ _
  constructor
  · refine differs_of_not _ fun h => ?_
    obtain ⟨x', hx', hactive, -⟩ := (h true _ ⟨12, rfl⟩).1 _ (hl _)
    obtain ⟨-, rfl⟩ := hx'.unique ((monotone_dispatch _ _).comp (monotone_methods _)) ⟨12, rfl⟩
    have hsecond : true = false := hactive .y2
    cases hsecond
  · refine differs_of_not _ fun h => ?_
    obtain ⟨x', hx', hactive, -⟩ := (h true _ ⟨12, rfl⟩).1 _ (hl _)
    obtain ⟨-, rfl⟩ := hx'.unique ((monotone_dispatch _ _).comp (monotone_methods _)) ⟨12, rfl⟩
    have hsecond : true = false := hactive .y2
    cases hsecond

set_option maxRecDepth 8000 in
/-- With a calm client both orders move both regions, and each region moves alone. -/
theorem indifferent_world : ConcurrentState.Indifferent (chart .calm) .n (some (.event "go")) world
    ∧ ∃ w', Returned (fun k => ((chart .calm).methods k).dispatch .n (some (.event "go")))
      world true w' ∧ w'.data.isActive .y1 = true ∧ w'.data.isActive .y2 = true :=
  ⟨ConcurrentState.dispatch_indifferent parametric rfl (enclosed _) (legal _) (links _) _,
    _, ⟨12, rfl⟩, rfl, rfl⟩

end Meddling

end CppStatecharts
