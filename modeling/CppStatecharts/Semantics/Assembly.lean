import CppStatecharts.Semantics.Registries

/-!
What `create` and `createTransition` build is a chart.

* `Construction.Linkage`: the lists of transitions of the states are those of the transitions
  created so far; `Statechart.tryCreate_linkage`: `create` keeps this, with the transitions of a
  condition.
* `Construction.Rooted`: the states created so far form a tree, with the chart at its root.
* `Assembling`: any calls of `create` and `createTransition`, of which some throw;
  `Assembling.assembled`: what they leave behind.
* `Construction.toChart`: the finished chart.
* `Assembling.isChart`: its registries are those that the calls have filled.
-/

namespace CppStatecharts

variable {G : Type} {c c₁ c' : Construction G} {x : Creation G} {name : String} {parent : Option ℕ}
variable {s u p q j : ℕ} {g : Option G} {t : Link G} {res : Except StatechartException ℕ}

/-! ### The lists of transitions -/

/-- What `createTransition` does for a transition from `s` to `u`. -/
def Construction.link (c : Construction G) (s u : ℕ) (g : Option G) : Construction G :=
  let t : Link G := ⟨some s, some u, g⟩
  { c with
    transitions := Function.update c.transitions s (State.addTransition (c.transitions s) t)
    incoming := if c.kind u = .pseudoState .join
      then Function.update c.incoming u (c.incoming u ++ [t]) else c.incoming
    ownedTransitions := c.ownedTransitions ++ [t] }

lemma Statechart.result_createTransition_some (s u : ℕ) (g : Option G) :
    (Statechart.createTransition (some s) (some u) g).result c = (.ok ⟨⟩, c.link s u g) := by
  simp only [Statechart.createTransition, Build.result_bind, Build.result_modify, Build.result_get,
    Build.result_ite, Construction.link]
  split <;> rfl

/-- The lists of transitions are those of the transitions created so far, in this order, which
connect objects that are allocated. -/
structure Construction.Linkage (c : Construction G) : Prop where
  ends : ∀ t ∈ c.ownedTransitions, ∃ s u, t.source = some s ∧ t.target = some u
    ∧ s < c.next ∧ u < c.next
  transitions : ∀ s, c.transitions s
    = (c.ownedTransitions.filter (·.source = some s)).foldl State.addTransition []
  incoming : ∀ j, c.incoming j = if c.kind j = .pseudoState .join
    then c.ownedTransitions.filter (·.target = some j) else []

namespace Construction.Linkage

lemma link (h : c.Linkage) (hs : s < c.next) (hu : u < c.next) : (c.link s u g).Linkage where
  ends t ht := by
    rcases List.mem_append.mp ht with ht | ht
    · exact h.ends t ht
    · obtain rfl := List.mem_singleton.mp ht
      exact ⟨s, u, rfl, rfl, hs, hu⟩
  transitions q := by
    simp only [Construction.link, List.filter_append, List.foldl_append, ← h.transitions]
    by_cases hq : q = s
    · subst hq
      simp
    · have hq' : s ≠ q := fun h => hq h.symm
      simp [Function.update_of_ne hq, hq']
  incoming q := by
    simp only [Construction.link, List.filter_append]
    by_cases hq : q = u
    · subst hq
      split
      · rename_i hk
        simp [h.incoming, hk]
      · rename_i hk
        simp [h.incoming, hk]
    · have hq' : u ≠ q := fun h => hq h.symm
      split <;> simp [Function.update_of_ne hq, hq', h.incoming]

end Construction.Linkage

/-- A constructor that creates no transitions. -/
structure Construction.Raised (c : Construction G) (s : ℕ) (c₁ : Construction G) : Prop where
  next : c₁.next = c.next
  kind : ∀ q, q ≠ s → c₁.kind q = c.kind q
  transitions : c₁.transitions = c.transitions
  incoming : c₁.incoming = c.incoming
  ownedTransitions : c₁.ownedTransitions = c.ownedTransitions

/-- No transition knows the new object. -/
lemma Construction.Linkage.raise (h : c.Linkage)
    (hr : ({ c with next := c.next + 1 } : Construction G).Raised c.next c₁) : c₁.Linkage where
  ends t ht := by
    obtain ⟨s, u, hs, hu, hsn, hun⟩ := h.ends t (hr.ownedTransitions ▸ ht)
    have hn : c₁.next = c.next + 1 := hr.next
    exact ⟨s, u, hs, hu, by omega, by omega⟩
  transitions s := by
    rw [hr.transitions, hr.ownedTransitions]
    exact h.transitions s
  incoming j := by
    rw [hr.incoming, hr.ownedTransitions]
    by_cases hj : j = c.next
    · subst hj
      have hnone : c.ownedTransitions.filter (·.target = some c.next) = [] := by
        refine List.filter_eq_nil_iff.mpr fun t ht => ?_
        obtain ⟨s, u, -, hu, -, hun⟩ := h.ends t ht
        rw [hu, decide_eq_true_eq, Option.some.injEq]
        omega
      rw [hnone, h.incoming, hnone]
      simp
    · rw [hr.kind j hj]
      exact h.incoming j

lemma PseudoState.construct_raised (type : PseudoStateType) (name : String)
    (parent : Option ℕ) :
    c.Raised s ((PseudoState.construct (G := G) s type name parent).result c).2 := by
  have hself : c.Raised s { c with
      kind := Function.update c.kind s (.pseudoState type)
      context := Function.update c.context s parent
      name := Function.update c.name s name } :=
    ⟨rfl, fun q hq => Function.update_of_ne hq _ _, rfl, rfl, rfl⟩
  simp only [PseudoState.construct, State.construct, Build.result_bind, Build.result_modify]
  cases parent with
  | none => exact hself
  | some p =>
      simp only [Build.result_bind, Build.result_get, Build.result_ite, Build.result_modify,
        Build.result_throw, Build.result_pure]
      split_ifs
      all_goals exact ⟨rfl, fun q hq => Function.update_of_ne hq _ _, rfl, rfl, rfl⟩

lemma HierarchicalState.construct_raised (name : String) (parent : Option ℕ) :
    c.Raised s ((HierarchicalState.construct (G := G) s name parent).result c).2 := by
  simp only [HierarchicalState.construct, State.construct, Build.result_bind, Build.result_modify]
  cases parent with
  | none => exact ⟨rfl, fun q hq => Function.update_of_ne hq _ _, rfl, rfl, rfl⟩
  | some p =>
      simp only [Build.result_bind, Build.result_get, Build.result_ite, Build.result_modify,
        Build.result_pure]
      split_ifs
      all_goals exact ⟨rfl, fun q hq => Function.update_of_ne hq _ _, rfl, rfl, rfl⟩

/-- The transitions that the constructor of a class creates: those of a condition. -/
def Creation.links (s : ℕ) : Creation G → List (Link G)
  | condition guard whenTrue otherwise => [⟨some s, whenTrue, guard⟩, ⟨some s, otherwise, none⟩]
  | _ => []

/-- The transitions that were created by a call, unless it threw. -/
def Creation.linked (x : Creation G) {α : Type} (s : ℕ) :
    Except StatechartException α → List (Link G)
  | .ok _ => x.links s
  | .error _ => []

/-- `s` is the chart or a state created in it. -/
def Construction.IsState (c : Construction G) (s : ℕ) : Prop := s = 0 ∨ s ∈ c.ownedStates

/-- A condition leads to states of the chart. -/
def Creation.Leads (c : Construction G) : Creation G → Prop
  | condition _ whenTrue otherwise =>
      ∃ u v, whenTrue = some u ∧ otherwise = some v ∧ c.IsState u ∧ c.IsState v
  | _ => True

lemma Creation.construct_linkage (h : c.Linkage) (hlt : ∀ u, c.IsState u → u < c.next)
    (hx : x.Leads c) (name : String) (parent : Option ℕ) :
    let r := (x.construct c.next name parent).result { c with next := c.next + 1 }
    r.2.Linkage ∧ r.2.ownedTransitions = c.ownedTransitions ++ x.linked c.next r.1 := by
  have hlinked : ∀ {r : Except StatechartException PUnit}, (∀ s, x.links s = []) →
      x.linked c.next r = [] := fun {r} hnone => by cases r <;> simp [Creation.linked, hnone]
  have hraise : ∀ {r : Except StatechartException PUnit × Construction G},
      ({ c with next := c.next + 1 } : Construction G).Raised c.next r.2 → (∀ s, x.links s = []) →
      r.2.Linkage ∧ r.2.ownedTransitions = c.ownedTransitions ++ x.linked c.next r.1 :=
    fun hr hnone => ⟨h.raise hr, by rw [hr.ownedTransitions, hlinked hnone, List.append_nil]⟩
  cases x with
  | state | finalState | concurrentState =>
      exact hraise ⟨rfl, fun q hq => Function.update_of_ne hq _ _, rfl, rfl, rfl⟩ fun _ => rfl
  | hierarchicalState =>
      exact hraise (HierarchicalState.construct_raised name parent) fun _ => rfl
  | pseudoState type => exact hraise (PseudoState.construct_raised type name parent) fun _ => rfl
  | condition guard whenTrue otherwise =>
      obtain ⟨u, v, rfl, rfl, hu, hv⟩ := hx
      have hr := PseudoState.construct_raised (G := G) (c := { c with next := c.next + 1 })
        (s := c.next) .junction name parent
      simp only [Creation.construct, Condition.construct, Build.result_bind]
      rcases hres : (PseudoState.construct (G := G) c.next .junction name parent).result
        { c with next := c.next + 1 } with ⟨e | _, c₁⟩ <;> rw [hres] at hr
      · exact ⟨h.raise hr, hr.ownedTransitions.trans (List.append_nil _).symm⟩
      · replace hr : ({ c with next := c.next + 1 } : Construction G).Raised c.next c₁ := hr
        have hn : c₁.next = c.next + 1 := hr.next
        have hun := hlt u hu
        have hvn := hlt v hv
        simp only [Statechart.result_createTransition_some]
        refine ⟨((h.raise hr).link (by omega) (by omega)).link ?_ ?_, ?_⟩
        · rw [show (c₁.link c.next u guard).next = c₁.next from rfl]
          omega
        · rw [show (c₁.link c.next u guard).next = c₁.next from rfl]
          omega
        · rw [show ((c₁.link c.next u guard).link c.next v none).ownedTransitions
            = (c₁.ownedTransitions ++ [_]) ++ [_] from rfl, hr.ownedTransitions, List.append_assoc]
          rfl

/-- `create` keeps the lists of transitions, too. -/
lemma Statechart.tryCreate_linkage (h : c.Linkage) (hlt : ∀ u, c.IsState u → u < c.next)
    (hx : x.Leads c) (name : String) (parent : Option ℕ) :
    let r := tryCreate x name parent c
    r.2.Linkage ∧ r.2.ownedTransitions = c.ownedTransitions ++ x.linked c.next r.1 := by
  have hthrow : ∀ e, c.Linkage ∧ c.ownedTransitions = c.ownedTransitions
      ++ x.linked (α := ℕ) c.next (.error e) := fun e => ⟨h, (List.append_nil _).symm⟩
  by_cases hname : name = ""
  · simpa [tryCreate, create, hname] using hthrow _
  cases parent with
  | none => simpa [tryCreate, create, hname] using hthrow _
  | some p =>
      cases hunused : c.states name with
      | some q => simpa [tryCreate, create, Build.result_bind, hname, hunused] using hthrow _
      | none =>
          have hc := x.construct_linkage h hlt hx name (some p)
          simp only [tryCreate, create, Creation.allocate, Build.result_bind, Build.result_get,
            Build.result_modify, Build.result_pure, hname, hunused, reduceCtorEq, ↓reduceIte,
            Option.isSome_none, Bool.false_eq_true]
          rcases hres : (x.construct c.next name (some p)).result { c with next := c.next + 1 }
            with ⟨e | u, c₁⟩ <;> rw [hres] at hc
          · exact hc
          · exact ⟨⟨hc.1.ends, hc.1.transitions, hc.1.incoming⟩, hc.2⟩

/-! ### The tree -/

/-- The states created so far form a tree with the chart at its root: the parent of each was there
before it. -/
structure Construction.Rooted (c : Construction G) : Prop where
  kind_zero : c.kind 0 = .statechart
  context_zero : c.context 0 = none
  zero : 0 ∉ c.ownedStates
  parent : ∀ {s}, s ∈ c.ownedStates → ∃ p, c.context s = some p ∧ c.IsParent p ∧ p < s
  kind : ∀ {s}, s ∈ c.ownedStates → c.kind s ≠ .statechart
  history : ∀ {s p}, s ∈ c.ownedStates → (c.kind s).isHistory = true → c.context s = some p →
    c.kind p = .hierarchicalState

lemma Creation.kind_ne_statechart (x : Creation G) : x.kind ≠ .statechart := by
  cases x <;> simp [Creation.kind]

namespace Construction

variable {d : List (CreateCall G × ℕ)} {r : CreateCall G}

lemma rooted_new : ({} : Construction G).Rooted :=
  ⟨rfl, rfl, by simp, by simp, by simp, by simp⟩

lemma IsState.lt (hc : c.Consistent d) (hs : c.IsState s) : s < c.next := by
  rcases hs with rfl | hs
  · exact hc.positive
  · exact hc.lt hs

/-- Nothing that stands below the next free address has changed. -/
lemma Rooted.of_eq (h : c.Rooted) (hc : c.Consistent d) (ho : c'.ownedStates = c.ownedStates)
    (hk : ∀ q < c.next, c'.kind q = c.kind q ∧ c'.context q = c.context q) : c'.Rooted := by
  have hparent : ∀ {p}, c.IsParent p → c'.IsParent p := fun {p} hp => by
    rcases hp with rfl | ⟨hp, hk'⟩
    · exact Or.inl rfl
    · exact Or.inr ⟨ho ▸ hp, (hk p (hc.lt hp)).1 ▸ hk'⟩
  refine ⟨(hk 0 hc.positive).1.trans h.kind_zero, (hk 0 hc.positive).2.trans h.context_zero,
    ho ▸ h.zero, fun {s} hs => ?_, fun {s} hs => ?_, fun {s p} hs hkh hp => ?_⟩ <;> rw [ho] at hs
  · obtain ⟨p, hp, hpar, hlt⟩ := h.parent hs
    exact ⟨p, (hk s (hc.lt hs)).2.trans hp, hparent hpar, hlt⟩
  · rw [(hk s (hc.lt hs)).1]
    exact h.kind hs
  · rw [(hk s (hc.lt hs)).1] at hkh
    rw [(hk s (hc.lt hs)).2] at hp
    obtain ⟨p', hp', -, hlt⟩ := h.parent hs
    obtain rfl := Option.some.inj (hp.symm.trans hp')
    exact (hk p (hlt.trans (hc.lt hs))).1.trans (h.history hs hkh hp)

/-- The new state stands below its parent. -/
lemma Rooted.of_creates (h : c.Rooted) (hc : c.Consistent d) (hp : c.IsParent p)
    (hn : Statechart.Creates x name p s c c') : c'.Rooted := by
  have hlt : p < s := hn.fresh ▸ hc.parent_lt hp
  have hkind : ∀ q, q ≠ s → c'.kind q = c.kind q := fun q hq => by
    rw [hn.kind, Function.update_of_ne hq]
  have hcontext : ∀ q, q ≠ s → c'.context q = c.context q := fun q hq => by
    rw [hn.context, Function.update_of_ne hq]
  have hne : ∀ {q}, q ∈ c.ownedStates → q ≠ s := fun hq => by
    have := hc.lt hq
    have := hn.fresh
    omega
  have hparent : ∀ {p}, c.IsParent p → c'.IsParent p := fun {p} hp => by
    rcases hp with rfl | ⟨hp, hk⟩
    · exact Or.inl rfl
    · refine Or.inr ⟨hn.ownedStates ▸ List.mem_append_left _ hp, ?_⟩
      rw [hkind p (hne hp)]
      exact hk
  have hmem : ∀ {q}, q ∈ c'.ownedStates → q ∈ c.ownedStates ∨ q = s := fun hq => by
    rw [hn.ownedStates] at hq
    simpa using hq
  have hzero : (0 : ℕ) ≠ s := by omega
  refine ⟨(hkind 0 hzero).trans h.kind_zero, (hcontext 0 hzero).trans h.context_zero,
    fun h0 => ?_, fun {q} hq => ?_, fun {q} hq => ?_, fun {q p'} hq hkh hp' => ?_⟩
  · exact (hmem h0).elim h.zero hzero
  · rcases hmem hq with hq | rfl
    · obtain ⟨p', hp', hpar, hlt'⟩ := h.parent hq
      exact ⟨p', (hcontext q (hne hq)).trans hp', hparent hpar, hlt'⟩
    · exact ⟨p, by rw [hn.context, Function.update_self], hparent hp, hlt⟩
  · rcases hmem hq with hq | rfl
    · rw [hkind q (hne hq)]
      exact h.kind hq
    · rw [hn.kind, Function.update_self]
      exact x.kind_ne_statechart
  · rcases hmem hq with hq | rfl
    · rw [hkind q (hne hq)] at hkh
      rw [hcontext q (hne hq)] at hp'
      obtain ⟨p₁, hp₁, -, hlt₁⟩ := h.parent hq
      obtain rfl := Option.some.inj (hp'.symm.trans hp₁)
      have := hc.lt hq
      have := hn.fresh
      exact (hkind p' (by omega)).trans (h.history hq hkh hp')
    · rw [hn.kind, Function.update_self] at hkh
      rw [hn.context, Function.update_self] at hp'
      obtain rfl := Option.some.inj hp'
      exact (hkind p (by omega)).trans (hn.history_free hkh).2

end Construction

/-! ### Sequences of calls -/

/-- Any calls of `create`, of which some throw, and of `createTransition` between states of the
chart, and what they leave behind. -/
inductive Assembling : List (CreateCall G × Except StatechartException ℕ) → Construction G → Prop
  | new : Assembling [] {}
  | create {l : _} {c c' : Construction G} {r : CreateCall G} {res : _} : Assembling l c →
      (∀ p, r.parent = some p → c.IsParent p) → r.creation.Leads c →
      Statechart.tryCreate r.creation r.name r.parent c = (res, c') → Assembling ((r, res) :: l) c'
  | createTransition {l : _} {c c' : Construction G} {res : _} (s u : ℕ) (g : Option G) :
      Assembling l c → c.IsState s → c.IsState u →
      (Statechart.createTransition (some s) (some u) g).result c = (res, c') → Assembling l c'

/-- What calls of `create` and `createTransition` leave behind. -/
structure Construction.Assembled (c : Construction G) (d : List (CreateCall G × ℕ)) : Prop where
  consistent : c.Consistent d
  rooted : c.Rooted
  linkage : c.Linkage
  closed : ∀ t ∈ c.ownedTransitions, ∃ s u, t.source = some s ∧ t.target = some u
    ∧ c.IsState s ∧ c.IsState u

lemma Creation.linked_closed {α : Type} {r : Except StatechartException α} (hx : x.Leads c)
    (ht : t ∈ x.linked s r) : ∃ u, t.source = some s ∧ t.target = some u ∧ c.IsState u := by
  cases r with
  | error e => cases ht
  | ok a =>
      cases x with
      | condition guard whenTrue otherwise =>
          obtain ⟨u, v, rfl, rfl, hu, hv⟩ := hx
          simp only [Creation.linked, Creation.links, List.mem_cons, List.not_mem_nil,
            or_false] at ht
          rcases ht with rfl | rfl
          · exact ⟨u, rfl, rfl, hu⟩
          · exact ⟨v, rfl, rfl, hv⟩
      | _ => cases ht

namespace Construction.Assembled

variable {l : List (CreateCall G × Except StatechartException ℕ)} {r : CreateCall G}

lemma new : ({} : Construction G).Assembled [] :=
  ⟨consistent_new, rooted_new, ⟨by simp, fun _ => rfl, fun _ => rfl⟩, by simp⟩

lemma createTransition {d : List (CreateCall G × ℕ)} (h : c.Assembled d) (hs : c.IsState s)
    (hu : c.IsState u) (g : Option G) : (c.link s u g).Assembled d where
  consistent :=
    { owned := h.consistent.owned, nodup := h.consistent.nodup, lt := h.consistent.lt
      parent := h.consistent.parent, kind := h.consistent.kind, states := h.consistent.states
      startState := h.consistent.startState, history := h.consistent.history
      regions := h.consistent.regions, positive := h.consistent.positive }
  rooted := ⟨h.rooted.kind_zero, h.rooted.context_zero, h.rooted.zero, h.rooted.parent,
    h.rooted.kind, h.rooted.history⟩
  linkage := h.linkage.link (hs.lt h.consistent) (hu.lt h.consistent)
  closed t ht := by
    rcases List.mem_append.mp ht with ht | ht
    · exact h.closed t ht
    · obtain rfl := List.mem_singleton.mp ht
      exact ⟨s, u, rfl, rfl, hs, hu⟩

lemma create (h : c.Assembled (Building.created l)) (hp : ∀ p, r.parent = some p → c.IsParent p)
    (hx : r.creation.Leads c)
    (hres : Statechart.tryCreate r.creation r.name r.parent c = (res, c')) :
    c'.Assembled (Building.created ((r, res) :: l)) := by
  have hlt : ∀ p, r.parent = some p → p < c.next := fun p h' => h.consistent.parent_lt (hp p h')
  have hlink := Statechart.tryCreate_linkage h.linkage (fun u => IsState.lt h.consistent) hx r.name
    r.parent
  have hcases := Statechart.tryCreate_cases (x := r.creation) (c := c) r.name hlt
  rw [hres] at hlink hcases
  obtain ⟨hlinkage, howned⟩ := hlink
  -- the chart has not lost any states
  obtain ⟨hrooted, hstates⟩ : c'.Rooted ∧ (∀ q, c.IsState q → c'.IsState q)
      ∧ ∀ t ∈ r.creation.linked c.next res, c'.IsState c.next := by
    cases res with
    | error e =>
        obtain ⟨hr, -, hk⟩ := hcases
        have ho : c'.ownedStates = c.ownedStates := congrArg Registry.ownedStates hr
        exact ⟨h.rooted.of_eq h.consistent ho hk, fun q hq => hq.imp id fun hq => ho ▸ hq,
          fun t ht => by cases ht⟩
    | ok s =>
        obtain ⟨p, hrp, hc⟩ := hcases
        refine ⟨h.rooted.of_creates h.consistent (hp p hrp) hc, fun q hq => hq.imp id fun hq => ?_,
          fun _ _ => Or.inr ?_⟩
        · rw [hc.ownedStates]
          exact List.mem_append_left _ hq
        · rw [hc.ownedStates, hc.fresh]
          exact List.mem_append_right _ List.mem_cons_self
  refine ⟨h.consistent.tryCreate hlt hres, hrooted, hlinkage, fun t ht => ?_⟩
  rw [howned] at ht
  rcases List.mem_append.mp ht with ht | ht
  · obtain ⟨s, u, hs, hu, hs', hu'⟩ := h.closed t ht
    exact ⟨s, u, hs, hu, hstates.1 s hs', hstates.1 u hu'⟩
  · obtain ⟨u, hs, hu, hu'⟩ := Creation.linked_closed hx ht
    exact ⟨c.next, u, hs, hu, hstates.2 t ht, hstates.1 u hu'⟩

end Construction.Assembled

/-- After any calls, the registries and the lists of transitions are in order. -/
lemma Assembling.assembled {l : List (CreateCall G × Except StatechartException ℕ)}
    (h : Assembling l c) : c.Assembled (Building.created l) := by
  induction h with
  | new => exact .new
  | create _ hp hx hres ih => exact ih.create hp hx hres
  | createTransition s u g _ hs hu hres ih =>
      rw [Statechart.result_createTransition_some] at hres
      obtain ⟨-, rfl⟩ := Prod.mk.inj hres
      exact ih.createTransition hs hu g

/-! ### The finished chart -/

namespace Construction

variable {E P : Type} {d : List (CreateCall G × ℕ)}

/-- The chart and the states created in it. -/
abbrev State (c : Construction G) : Type := { s : ℕ // c.IsState s }

/-- The transitions created, by their place in the order of creation. -/
abbrev Trans (c : Construction G) : Type := Fin c.ownedTransitions.length

/-- The further arguments of the constructors, which the registries do not depend on. An internal
transition is constructed with one state for both ends; the setter of the threshold admits no
zero. -/
structure Fittings (c : Construction G) (E P : Type) where
  name : String
  entryAction : c.State → Option (Action c.State P) := fun _ => none
  doAction : c.State → Option (Action c.State P) := fun _ => none
  exitAction : c.State → Option (Action c.State P) := fun _ => none
  guard : G → Guard c.State P
  event : c.Trans → Option E := fun _ => none
  action : c.Trans → Option (Action c.State P) := fun _ => none
  internal : c.Trans → Bool := fun _ => false
  equals : E → Option E → Metadata c.State → P → Bool
  timeout : E → Option ℤ
  infiniteLoopThreshold : ℕ := 1000
  internal_ends : ∀ t, internal t = true →
    (c.ownedTransitions.get t).target = (c.ownedTransitions.get t).source := by decide
  threshold_pos : 0 < infiniteLoopThreshold := by first | exact defaultThreshold_pos | decide

namespace Assembled

variable (h : c.Assembled d)

include h

lemma isState_context (hs : c.IsState s) : ∀ p ∈ c.context s, c.IsState p := by
  intro p hp
  rcases hs with rfl | hs
  · rw [h.rooted.context_zero] at hp
    cases hp
  · obtain ⟨p', hp', hpar, -⟩ := h.rooted.parent hs
    obtain rfl := Option.some.inj (hp'.symm.trans hp)
    exact hpar.imp id And.left

lemma exists_source (t : c.Trans) : ∃ s, (c.ownedTransitions.get t).source = some s
    ∧ c.IsState s := by
  obtain ⟨s, u, hs, -, hs', -⟩ := h.closed _ (List.get_mem _ t)
  exact ⟨s, hs, hs'⟩

lemma exists_target (t : c.Trans) : ∃ u, (c.ownedTransitions.get t).target = some u
    ∧ c.IsState u := by
  obtain ⟨s, u, -, hu, -, hu'⟩ := h.closed _ (List.get_mem _ t)
  exact ⟨u, hu, hu'⟩

lemma isSome_source (t : c.Trans) : (c.ownedTransitions.get t).source.isSome = true := by
  obtain ⟨s, hs, -⟩ := h.exists_source t
  rw [hs]
  rfl

lemma isSome_target (t : c.Trans) : (c.ownedTransitions.get t).target.isSome = true := by
  obtain ⟨s, hs, -⟩ := h.exists_target t
  rw [hs]
  rfl

/-- Where a transition begins. -/
def source (t : c.Trans) : c.State :=
  ⟨(c.ownedTransitions.get t).source.get (h.isSome_source t), by
    obtain ⟨s, hs, hs'⟩ := h.exists_source t
    simpa only [hs, Option.get_some] using hs'⟩

/-- Where a transition ends. -/
def target (t : c.Trans) : c.State :=
  ⟨(c.ownedTransitions.get t).target.get (h.isSome_target t), by
    obtain ⟨s, hs, hs'⟩ := h.exists_target t
    simpa only [hs, Option.get_some] using hs'⟩

/-- The context of a state. -/
def context (s : c.State) : Option c.State :=
  (c.context s.1).pmap (fun p hp => ⟨p, hp⟩) (h.isState_context s.2)

lemma context_eq_some_iff {s p : c.State} : h.context s = some p ↔ c.context s.1 = some p.1 := by
  rw [context, Option.pmap_eq_some_iff]
  constructor
  · rintro ⟨p', hp', hc, rfl⟩
    exact hc
  · exact fun hc => ⟨p.1, p.2, hc, rfl⟩

lemma mem_of_context {s p : c.State} (hp : h.context s = some p) : s.1 ∈ c.ownedStates := by
  refine s.2.resolve_left fun h0 => ?_
  rw [h.context_eq_some_iff, h0, h.rooted.context_zero] at hp
  cases hp

/-- All but the chart stand inside something. -/
lemma exists_context {s : c.State} (hk : c.kind s.1 ≠ .statechart) :
    s.1 ∈ c.ownedStates ∧ ∃ p, h.context s = some p := by
  have hs : s.1 ∈ c.ownedStates := s.2.resolve_left fun h0 => hk (h0 ▸ h.rooted.kind_zero)
  obtain ⟨p, hp, hpar, -⟩ := h.rooted.parent hs
  exact ⟨hs, ⟨p, hpar.imp id And.left⟩, h.context_eq_some_iff.mpr hp⟩

/-- A start state stands in the registry of its parent. -/
lemma startState_eq (hs : s ∈ c.ownedStates) (hk : c.kind s = .pseudoState .start)
    (hp : c.context s = some p) : c.startState p = some s := by
  rw [h.consistent.owned] at hs
  obtain ⟨⟨r, s⟩, hd, rfl⟩ := List.mem_map.mp hs
  obtain ⟨hk', hp'⟩ := h.consistent.kind hd
  exact (h.consistent.startState p s).mpr
    ⟨r, hd, CreateCall.startOf_eq_some.mpr ⟨hk' ▸ hk, hp' ▸ hp⟩⟩

/-- So does a history. -/
lemma history_eq (hs : s ∈ c.ownedStates) (hk : (c.kind s).isHistory = true)
    (hp : c.context s = some p) : c.history p = some s := by
  rw [h.consistent.owned] at hs
  obtain ⟨⟨r, s⟩, hd, rfl⟩ := List.mem_map.mp hs
  obtain ⟨hk', hp'⟩ := h.consistent.kind hd
  exact (h.consistent.history p s).mpr
    ⟨r, hd, CreateCall.historyOf_eq_some.mpr ⟨hk' ▸ hk, hp' ▸ hp⟩⟩

end Assembled

/-- **The finished chart.** What the constructors enforce holds of the states and transitions that
the calls have created. -/
def toChart (c : Construction G) (h : c.Assembled d) (f : c.Fittings E P) :
    Chart c.State c.Trans E P where
  name := f.name
  root := ⟨0, Or.inl rfl⟩
  ownedStates := c.ownedStates.attach.map fun s => ⟨s.1, Or.inr s.2⟩
  ownedTransitions := List.finRange _
  kind s := c.kind s.1
  context := h.context
  depth s := s.1
  entryAction := f.entryAction
  doAction := f.doAction
  exitAction := f.exitAction
  source := h.source
  target := h.target
  event := f.event
  guard t := (c.ownedTransitions.get t).guard.map f.guard
  action := f.action
  internal := f.internal
  equals := f.equals
  timeout := f.timeout
  infiniteLoopThreshold := f.infiniteLoopThreshold
  depth_context {s p} hp := by
    obtain ⟨p', hp', -, hlt⟩ := h.rooted.parent (h.mem_of_context hp)
    rw [h.context_eq_some_iff] at hp
    exact Option.some.inj (hp'.symm.trans hp) ▸ hlt
  context_root s := by
    constructor
    · intro hs
      refine Subtype.ext (s.2.resolve_right fun hmem => ?_)
      obtain ⟨p, hp, hpar, -⟩ := h.rooted.parent hmem
      rw [h.context_eq_some_iff.mpr (show _ = some (⟨p, hpar.imp id And.left⟩ : c.State).1 from hp)]
        at hs
      cases hs
    · rintro rfl
      refine Option.eq_none_iff_forall_ne_some.mpr fun p hp => ?_
      exact h.rooted.zero (h.mem_of_context hp)
  context_kind {s p} hp := by
    obtain ⟨p', hp', hpar, -⟩ := h.rooted.parent (h.mem_of_context hp)
    rw [h.context_eq_some_iff] at hp
    obtain rfl := Option.some.inj (hp'.symm.trans hp)
    rcases hpar with h0 | ⟨-, hk⟩
    · rw [h0, h.rooted.kind_zero]
      rfl
    · exact hk
  kind_statechart s := by
    constructor
    · exact fun hk => Subtype.ext (s.2.resolve_right fun hs => h.rooted.kind hs hk)
    · rintro rfl
      exact h.rooted.kind_zero
  mem_ownedStates s := by
    simp only [List.mem_map, List.mem_attach, true_and, Subtype.exists]
    constructor
    · rintro ⟨q, hq, rfl⟩ h0
      obtain rfl : q = 0 := congrArg Subtype.val h0
      exact h.rooted.zero hq
    · exact fun hs => ⟨s.1, s.2.resolve_left fun h0 => hs (Subtype.ext h0), rfl⟩
  nodup_ownedStates := by
    refine (List.nodup_attach.mpr h.consistent.nodup).map fun s s' heq => ?_
    exact Subtype.ext (congrArg (fun s : c.State => s.1) heq)
  start_unique {s s'} hk hk' hp := by
    obtain ⟨hs, p, hsp⟩ := h.exists_context (s := s) (by rw [hk]; decide)
    obtain ⟨hs', -⟩ := h.exists_context (s := s') (by rw [hk']; decide)
    have hsp' := h.context_eq_some_iff.mp (hp ▸ hsp)
    refine Subtype.ext (Option.some.inj ?_)
    exact (h.startState_eq hs hk (h.context_eq_some_iff.mp hsp)).symm.trans
      (h.startState_eq hs' hk' hsp')
  history_unique {s s'} hk hk' hp := by
    obtain ⟨hs, p, hsp⟩ := h.exists_context (s := s) (fun h => by rw [h] at hk; cases hk)
    obtain ⟨hs', -⟩ := h.exists_context (s := s') (fun h => by rw [h] at hk'; cases hk')
    have hsp' := h.context_eq_some_iff.mp (hp ▸ hsp)
    refine Subtype.ext (Option.some.inj ?_)
    exact (h.history_eq hs hk (h.context_eq_some_iff.mp hsp)).symm.trans
      (h.history_eq hs' hk' hsp')
  history_context {s p} hk hp :=
    h.rooted.history (h.mem_of_context hp) hk (h.context_eq_some_iff.mp hp)
  internal_target {t} ht := by
    exact Subtype.ext (by simp only [Assembled.target, Assembled.source, f.internal_ends t ht])
  threshold_pos := f.threshold_pos

variable (h : c.Assembled d) (f : c.Fittings E P)

lemma built_toChart : (c.toChart h f).Built c Subtype.val where
  injective := Subtype.val_injective
  ownedStates := by
    rw [toChart, List.map_map]
    exact List.attach_map_subtype_val c.ownedStates
  kind _ := rfl
  context {s} _ := by
    change _ = (h.context s).map Subtype.val
    rw [Assembled.context, Option.map_pmap]
    exact (Option.pmap_eq_map ..).symm ▸ (Option.map_id' (x := c.context s.1)).symm

/-- The transitions of the chart are those created. -/
lemma map_filter_finRange (k : Link G → Bool) :
    ((List.finRange c.ownedTransitions.length).filter fun t => k (c.ownedTransitions.get t)).map
      c.ownedTransitions.get = c.ownedTransitions.filter k := by
  conv_rhs => rw [← List.map_get_finRange c.ownedTransitions, List.filter_map]
  rfl

lemma source_toChart_iff {s : c.State} {t : c.Trans} :
    (c.toChart h f).source t = s ↔ (c.ownedTransitions.get t).source = some s.1 := by
  rw [Subtype.ext_iff]
  exact ⟨fun hs => Option.eq_some_iff_get_eq.mpr ⟨_, hs⟩,
    fun hs => (Option.eq_some_iff_get_eq.mp hs).elim fun _ => id⟩

lemma target_toChart_iff {s : c.State} {t : c.Trans} :
    (c.toChart h f).target t = s ↔ (c.ownedTransitions.get t).target = some s.1 := by
  rw [Subtype.ext_iff]
  exact ⟨fun hs => Option.eq_some_iff_get_eq.mpr ⟨_, hs⟩,
    fun hs => (Option.eq_some_iff_get_eq.mp hs).elim fun _ => id⟩

/-- `addTransition` looks at the guard alone. -/
lemma map_foldl_addTransition (l acc : List c.Trans) :
    (l.foldl (c.toChart h f).addTransition acc).map c.ownedTransitions.get
      = (l.map c.ownedTransitions.get).foldl State.addTransition
        (acc.map c.ownedTransitions.get) := by
  induction l generalizing acc with
  | nil => rfl
  | cons t l ih =>
      have hguard : ((c.toChart h f).guard t).isSome
          = (c.ownedTransitions.get t).guard.isSome := Option.isSome_map
      rw [List.foldl_cons, ih, List.map_cons, List.foldl_cons, Chart.addTransition,
        State.addTransition, hguard]
      split <;> simp

lemma transitions_toChart (s : c.State) : c.transitions s.1
    = ((c.toChart h f).transitions s).map c.ownedTransitions.get := by
  rw [Chart.transitions, map_foldl_addTransition, h.linkage.transitions]
  simp only [source_toChart_iff]
  exact congrArg (List.foldl _ _) (map_filter_finRange fun t => t.source = some s.1).symm

lemma incoming_toChart {j : c.State} (hj : (c.toChart h f).kind j = .pseudoState .join) :
    c.incoming j.1 = ((c.toChart h f).incoming j).map c.ownedTransitions.get := by
  rw [h.linkage.incoming, if_pos (show c.kind j.1 = _ from hj), Chart.incoming]
  simp only [target_toChart_iff]
  exact (map_filter_finRange fun t => t.target = some j.1).symm

end Construction

/-- **What is built is a chart.** After any calls of `create`, of which some throw, and of
`createTransition` between states of the chart, the states and transitions created form a chart, and
its registries are those the calls have filled: start states, histories, regions, the transitions of
each state in the order in which they are tried, and the transitions that lead to a join. -/
theorem Assembling.isChart {E P : Type} {l : List (CreateCall G × Except StatechartException ℕ)}
    (h : Assembling l c) (f : c.Fittings E P) :
    let ch := c.toChart h.assembled f
    ch.ownedStates.map Subtype.val = c.ownedStates
      ∧ ch.ownedTransitions.map c.ownedTransitions.get = c.ownedTransitions
      ∧ (∀ s : c.State, c.startState s.1 = (ch.startState s).map Subtype.val)
      ∧ (∀ s : c.State, c.history s.1 = (ch.history s).map Subtype.val)
      ∧ (∀ n : c.State, ch.kind n = .concurrentState →
          c.regions n.1 = (ch.regions n).map Subtype.val)
      ∧ (∀ s : c.State, c.transitions s.1 = (ch.transitions s).map c.ownedTransitions.get)
      ∧ ∀ j : c.State, ch.kind j = .pseudoState .join →
          c.incoming j.1 = (ch.incoming j).map c.ownedTransitions.get := by
  have hc := h.assembled.consistent
  have hb := Construction.built_toChart h.assembled f
  exact ⟨hb.ownedStates, List.map_get_finRange _, hb.startState_eq hc, hb.history_eq hc,
    fun n => hb.regions_eq hc, Construction.transitions_toChart h.assembled f,
    fun j => Construction.incoming_toChart h.assembled f⟩

/-! ### An instance -/

namespace Draft

/-- A hierarchical state with a start state and a state; then a second start state, which fails, and
a condition that leads to the state or out. -/
def requests : List (CreateCall Bool) :=
  [⟨.hierarchicalState, "box", some 0⟩, ⟨.pseudoState .start, "start", some 1⟩,
    ⟨.state, "inner", some 1⟩, ⟨.pseudoState .start, "again", some 1⟩,
    ⟨.condition (some true) (some 3) (some 1), "choice", some 1⟩]

/-- The calls and the chart after the first `n` of them. -/
def run : ℕ → List (CreateCall Bool × Except StatechartException ℕ) × Construction Bool
  | 0 => ([], {})
  | n + 1 =>
      match requests[n]? with
      | none => run n
      | some r =>
          let res := Statechart.tryCreate r.creation r.name r.parent (run n).2
          ((r, res.1) :: (run n).1, res.2)

lemma assembling_run {n : ℕ} {q : CreateCall Bool} (h : Assembling (run n).1 (run n).2)
    (hq : requests[n]? = some q) (hp : ∀ p ∈ q.parent, (run n).2.IsParent p)
    (hx : q.creation.Leads (run n).2) : Assembling (run (n + 1)).1 (run (n + 1)).2 := by
  simp only [run, hq]
  exact .create h hp hx rfl

/-- The start state leads to the condition. -/
def built : Construction Bool := (run 5).2.link 2 5 none

lemma assembling : Assembling (run 5).1 built := by
  have h₁ : Assembling (run 1).1 (run 1).2 := assembling_run .new rfl (by decide) trivial
  have h₂ := assembling_run h₁ rfl (by decide) trivial
  have h₃ := assembling_run h₂ rfl (by decide) trivial
  have h₄ := assembling_run h₃ rfl (by decide) trivial
  have h₅ := assembling_run h₄ rfl (by decide)
    ⟨3, 1, rfl, rfl, Or.inr (by decide), Or.inr (by decide)⟩
  exact .createTransition 2 5 none h₅ (Or.inr (by decide)) (Or.inr (by decide))
    (Statechart.result_createTransition_some ..)

def fittings : built.Fittings Event Unit where
  name := "draft"
  guard b _ _ := b
  equals ev e _ _ := ev.equals e
  timeout := Event.timeout
  internal_ends _ h := by cases h

/-- The condition has two transitions, the guarded one first, and the start state of `box` is the
one that was created. -/
theorem isChart_built :
    let ch := built.toChart assembling.assembled fittings
    built.startState 1 = (ch.startState ⟨1, Or.inr (by decide)⟩).map Subtype.val
      ∧ built.transitions 5
        = (ch.transitions ⟨5, Or.inr (by decide)⟩).map built.ownedTransitions.get
      ∧ built.startState 1 = some 2 ∧ (built.transitions 5).map (·.target) = [some 3, some 1] := by
  obtain ⟨-, -, hstart, -, -, htransitions, -⟩ := Assembling.isChart assembling fittings
  exact ⟨hstart ⟨1, Or.inr (by decide)⟩, htransitions ⟨5, Or.inr (by decide)⟩, by decide, by decide⟩

end Draft

end CppStatecharts
