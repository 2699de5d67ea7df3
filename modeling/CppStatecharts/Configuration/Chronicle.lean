import CppStatecharts.Configuration.Runs
import CppStatecharts.Configuration.Sealed

/-!
A record for any configuration.

* `Chart.Chronicle A`: a record of a run that ends with just the states of `A` active.
* `exists_chronicle`: there is one for every legal configuration.
* `Chart.Clean`: pointers and records as the methods leave them.
* `Chart.LegalConfiguration.settled`: with the record, a legal configuration that is clean is
  settled, whatever led to it.
-/

namespace CppStatecharts

variable {S T E P : Type} [DecidableEq S] {c : Chart S T E P}
variable {w w' : World S T E P} {m : Metadata S} {s x p : S} {A : Set S} {l l' : List (Obs S T)}

/-- A record of states that are entered after all of them were left; the states of `A` are active in
the end. -/
structure Chart.Chronicle (c : Chart S T E P) (A : Set S) (l : List (Obs S T)) : Prop where
  told : ∀ {x}, (c.kind x).isPseudo = false → (Obs.activeIn x l = true ↔ x ∈ A)
  opened : ∀ {x}, (c.kind x).isPseudo = false → (Obs.opened x l = true ↔ x ∈ A)
  nests : c.Nests l
  left : ∀ x, .deactivated x ∈ l
  marks : ∀ o ∈ l, (∃ x, o = .deactivated x) ∨ ∃ x, (c.kind x).isPseudo = false
    ∧ (o = .activated x ∨ o = .entry x)

/-- In the beginning, no state is active. -/
lemma Chart.Chronicle.empty (c : Chart S T E P) :
    c.Chronicle ∅ ((c.root :: c.ownedStates).map .deactivated) := by
  have hinactive : ∀ (ls : List S) (x : S),
      Obs.activeIn x (ls.map (Obs.deactivated (T := T))) = false := by
    intro ls x
    induction ls with
    | nil => rfl
    | cons y ls ih => simp [Obs.activeIn, ih]
  have hmarks : ∀ o ∈ (c.root :: c.ownedStates).map (Obs.deactivated (T := T)), ∃ x, o =
    .deactivated x := by
    intro o ho
    obtain ⟨x, -, rfl⟩ := List.mem_map.mp ho
    exact ⟨x, rfl⟩
  refine ⟨fun {x} _ => ?_, fun {x} _ => ?_, ?_, fun x => ?_, fun o ho => Or.inl (hmarks o ho)⟩
  · rw [hinactive]
    simp
  · rw [← List.append_nil (List.map _ _), Obs.opened_append]
    · simp [Obs.opened]
    · intro o ho
      obtain ⟨y, rfl⟩ := hmarks o ho
      simp
  · rw [← List.append_nil (List.map _ _), nests_append]
    · trivial
    · intro o ho y
      obtain ⟨z, rfl⟩ := hmarks o ho
      simp
  · refine List.mem_map.mpr ⟨x, ?_, rfl⟩
    rw [List.mem_cons, c.mem_ownedStates]
    exact eq_or_ne x c.root

/-- A state whose context is active is entered. -/
lemma Chart.Chronicle.enter (h : c.Chronicle A l) (hk : (c.kind x).isPseudo = false) (hx : x ∉ A)
    (hp : ∀ p, c.context x = some p → p ∈ A) :
    c.Chronicle (insert x A) (.entry x :: .activated x :: l) := by
  refine ⟨fun {y} hy => ?_, fun {y} hy => ?_, ⟨h.nests, fun _ => ⟨fun p hxp => ?_, fun _ => ?_⟩⟩,
    fun y => ?_, fun o ho => ?_⟩
  · simp [Obs.activeIn, h.told hy]
  · simp [Obs.opened, h.opened hy]
  · have hpk : (c.kind p).isPseudo = false := Chart.isPseudo_of_context hxp
    simp [Obs.activeIn, (h.told hpk).mpr (hp p hxp)]
  · by_contra ho
    exact hx ((h.opened hk).mp (by simpa [Obs.opened] using ho))
  · exact List.mem_cons_of_mem _ (List.mem_cons_of_mem _ (h.left y))
  · simp only [List.mem_cons] at ho
    rcases ho with rfl | rfl | ho
    · exact Or.inr ⟨x, hk, Or.inr rfl⟩
    · exact Or.inr ⟨x, hk, Or.inl rfl⟩
    · exact h.marks o ho

/-- States are entered in the order of their depth; the list has the innermost ones first. -/
lemma Chart.Chronicle.exists_of_sorted {ls : List S} (hn : ls.Nodup)
    (hs : ls.Pairwise fun x y => c.depth y ≤ c.depth x) (hk : ∀ x ∈ ls, (c.kind x).isPseudo = false)
    (hup : ∀ x ∈ ls, ∀ p, c.context x = some p → p ∈ ls) : ∃ l, c.Chronicle {x | x ∈ ls} l := by
  induction ls with
  | nil => exact ⟨_, by simpa using Chart.Chronicle.empty c⟩
  | cons x ls ih =>
      obtain ⟨hx, hn⟩ := List.nodup_cons.mp hn
      obtain ⟨hd, hs⟩ := List.pairwise_cons.mp hs
      -- a context is less deep than a state inside, so it comes later in the list
      have hlater : ∀ y, c.depth y ≤ c.depth x → ∀ p, c.context y = some p → p ∈ x :: ls →
        p ∈ ls := by
        intro y hy p hp hpl
        refine (List.mem_cons.mp hpl).resolve_left ?_
        rintro rfl
        have := c.depth_context hp
        omega
      obtain ⟨l, hl⟩ := ih hn hs (fun y hy => hk y (List.mem_cons_of_mem x hy)) fun y hy p hp =>
        hlater y (hd y hy) p hp (hup y (List.mem_cons_of_mem x hy) p hp)
      have hset : insert x {y | y ∈ ls} = {y | y ∈ x :: ls} := by
        ext y
        simp
      have hlast := hl.enter (hk x List.mem_cons_self) hx fun p hp =>
        hlater x le_rfl p hp (hup x List.mem_cons_self p hp)
      exact ⟨_, hset ▸ hlast⟩

/-- Every configuration whose active states have active contexts has such a record. -/
lemma exists_chronicle (hup : ∀ {x p}, (c.kind x).isPseudo = false → m.isActive x = true →
      c.context x = some p → m.isActive p = true) :
    ∃ l, c.Chronicle {x | (c.kind x).isPseudo = false ∧ m.isActive x = true} l := by
  have htotal : Std.Total fun x y : S => c.depth y ≤ c.depth x := ⟨fun x y => Nat.le_total _ _⟩
  have htrans : IsTrans S fun x y : S => c.depth y ≤ c.depth x := ⟨fun _ _ _ h h' => h'.trans h⟩
  set ls :=
    ((c.root :: c.ownedStates).filter fun x => !(c.kind x).isPseudo && m.isActive x).insertionSort
    fun x y => c.depth y ≤ c.depth x with hls
  have hmem : ∀ x, x ∈ ls ↔ (c.kind x).isPseudo = false ∧ m.isActive x = true := by
    intro x
    rw [hls, List.mem_insertionSort, List.mem_filter, List.mem_cons, c.mem_ownedStates]
    simp [eq_or_ne]
  have hnodup : ls.Nodup := by
    refine (List.perm_insertionSort _ _).nodup_iff.mpr (List.Nodup.filter _ ?_)
    exact List.nodup_cons.mpr ⟨fun h => (c.mem_ownedStates _).mp h rfl, c.nodup_ownedStates⟩
  obtain ⟨l, hl⟩ := Chart.Chronicle.exists_of_sorted (c := c) hnodup
    (List.pairwise_insertionSort _ _)
    (fun x hx => ((hmem x).mp hx).1) fun x hx p hp => by
      obtain ⟨hk, ha⟩ := (hmem x).mp hx
      exact (hmem p).mpr ⟨Chart.isPseudo_of_context hp, hup hk ha hp⟩
  exact ⟨l, by simpa only [hmem] using hl⟩

/-! ### Settled configurations -/

/-- Current states are children, histories have stored a way down, and a concurrent state that is
not active has no record. -/
structure Chart.Clean (c : Chart S T E P) (m : Metadata S) : Prop where
  links : c.Links m
  clear : ∀ {n}, c.kind n = .concurrentState → m.isActive n = false → m.hasData n = false

/-- Entries that are in progress have begun after a plain record. -/
lemma Obs.exists_append (h : ∀ o ∈ l, o.isPlain = true) {newer older : List (Obs S T)} {o : Obs S T}
    {n : S} (hl : l' ++ l = newer ++ o :: older) (hn : Obs.inProgress n older) :
    ∃ older', l' = newer ++ o :: older' ∧ Obs.inProgress n older' := by
  have hidle : ∀ newer' older' : List (Obs S T), l = newer' ++ older' →
    ¬ Obs.inProgress n older' := by
    intro newer' older' hl
    have hplain : ∀ o ∈ older', o.isPlain = true :=
      fun o ho => h o (hl ▸ List.mem_append_right _ ho)
    rw [← List.append_nil older', Obs.inProgress_append hplain]
    exact fun h => h rfl
  rcases List.append_eq_append_iff.mp hl with ⟨l₁, rfl, hl₁⟩ | ⟨l₁, rfl, hl₁⟩
  · exact absurd hn (hidle _ _ (hl₁.trans (List.append_cons l₁ o older)))
  · cases l₁ with
    | nil => exact absurd hn (hidle [o] _ hl₁.symm)
    | cons o' older' =>
        obtain ⟨rfl, rfl⟩ := List.cons.inj hl₁
        refine ⟨older', rfl, ?_⟩
        have hzero := hidle [] l rfl
        unfold Obs.inProgress at hn hzero ⊢
        rw [not_not] at hzero
        rw [show older'.append l = older' ++ l from rfl, List.countP_append, List.countP_append,
          hzero] at hn
        exact fun h => hn (congrArg (· + _) h)

lemma Chart.Orderly.append (ho : c.Orderly l') (h : ∀ o ∈ l, o.isPlain = true)
    (hp : ∀ {t m}, .fire t m ∈ l → t ∈ c.ownedTransitions → c.Proper t m)
    (hf : ∀ {s}, .activated s ∈ l → c.kind s ≠ .pseudoState .fork) : c.Orderly (l' ++ l) where
  unbroken newer n older hl hn := by
    obtain ⟨older', hl', hn'⟩ := Obs.exists_append h hl hn
    exact ho.unbroken newer n older' hl' hn'
  proper hm := (List.mem_append.mp hm).elim ho.proper hp
  noFork hm := (List.mem_append.mp hm).elim ho.noFork hf

lemma Chart.Sealed.append (hs : c.Sealed l') (h : ∀ o ∈ l, o.isPlain = true) :
    c.Sealed (l' ++ l) := by
  intro newer x older hl n hn
  obtain ⟨older', hl', hn'⟩ := Obs.exists_append h hl hn
  exact hs newer x older' hl' n hn'

namespace Chart.Chronicle

lemma isPlain (h : c.Chronicle A l) : ∀ o ∈ l, o.isPlain = true := by
  intro o ho
  rcases h.marks o ho with ⟨x, rfl⟩ | ⟨x, -, rfl | rfl⟩ <;> rfl

/-- No entry is in progress. -/
lemma idle (h : c.Chronicle A l) (n : S) : ¬ Obs.inProgress n l := by
  rw [← List.append_nil l, Obs.inProgress_append h.isPlain]
  exact fun h => h rfl

lemma orderly (h : c.Chronicle A l) {t : T} (ht : t ∈ c.ownedTransitions → c.Proper t m)
    (ho : c.Orderly l') : c.Orderly (l' ++ .fire t m :: l) := by
  refine ho.append (fun o ho => ?_) (fun {t' m'} hm ht' => ?_) fun {s} hm hs => ?_
  · rcases List.mem_cons.mp ho with rfl | ho
    · rfl
    · exact h.isPlain o ho
  · rcases List.mem_cons.mp hm with heq | hm
    · cases heq
      exact ht ht'
    · rcases h.marks _ hm with ⟨x, hx⟩ | ⟨x, -, hx | hx⟩ <;> cases hx
  · rcases List.mem_cons.mp hm with heq | hm
    · cases heq
    · rcases h.marks _ hm with ⟨x, hx⟩ | ⟨x, hk, hx | hx⟩ <;> cases hx
      rw [hs] at hk
      cases hk

lemma isSealed (h : c.Chronicle A l) {t : T} (hs : c.Sealed l') :
    c.Sealed (l' ++ .fire t m :: l) := by
  refine hs.append fun o ho => ?_
  rcases List.mem_cons.mp ho with rfl | ho
  · rfl
  · exact h.isPlain o ho

end Chart.Chronicle

omit [DecidableEq S] in
/-- An active context that is not concurrent is one that has a current state. -/
lemma Chart.kind_of_context (hx : c.context x = some p) (hk : c.kind p ≠ .concurrentState)
    (ha : m.isActive p = true) :
    c.kind p = .statechart ∨ c.kind p = .hierarchicalState ∧ m.isActive p = true := by
  have hp := c.context_kind hx
  cases hkp : c.kind p <;> simp_all [StateKind.isContext]

/-- With a record that agrees, a legal configuration is settled. -/
lemma Chart.LegalConfiguration.settled (hs : c.Standard) (h : c.LegalConfiguration w.data)
    (hc : c.Clean w.data)
    (ht : c.Chronicle {x | (c.kind x).isPseudo = false ∧ w.data.isActive x = true} w.trace) :
    c.Settled w := by
  have htold : ∀ x, (c.kind x).isPseudo = false → w.Tells x := by
    intro x hx
    rw [World.Tells, Bool.eq_iff_iff, ht.told hx]
    simp [hx]
  have hcarried : ∀ {t a b}, .fired t a b ∈ w.trace → c.Carried t a b := fun hm => by
    rcases ht.marks _ hm with ⟨x, hx⟩ | ⟨x, -, hx | hx⟩ <;> cases hx
  refine ⟨⟨⟨⟨htold, ht.nests, ?_, hcarried⟩, hc.links, h.upward, ?_, ?_, ?_⟩, ?_, ?_, ?_, ?_⟩,
    ht.idle⟩
  · intro x p hx _ _ _
    rw [Bool.eq_iff_iff, ht.opened hx]
    simp [hx]
  · intro x p hx ha hp hk
    exact h.child (Chart.kind_of_context hp hk (h.upward hx ha hp)) hx ha hp
  · intro q hq
    have hqc := hc.links.pointers _ _ hq
    have hqa := h.current (Or.inl ((c.kind_statechart _).mpr rfl)) hq
    refine h.upward ?_ hqa hqc
    by_contra hqk
    have hroot := c.history_context (by simpa using hqk) hqc
    rw [(c.kind_statechart _).mpr rfl] at hroot
    cases hroot
  · exact fun {x p} _ _ _ => Or.inr (ht.left p)
  · intro p q hk ha hq
    exact Or.inl (h.current (Chart.kind_of_context (hc.links.pointers _ _ hq) hk ha) hq)
  · intro n r hn ha _ hr
    exact Or.inl (h.regions hn ha (Chart.mem_regions.mpr ⟨hs.regions hr hn, hr⟩))
  · intro n hn hi _
    exact hc.clear hn hi
  · intro n hn
    exact absurd hn (ht.idle n)

/-- A legal configuration that is clean is settled, if another past is put in place of its own. -/
lemma Chart.LegalConfiguration.exists_settled (hs : c.Standard) (h : c.LegalConfiguration w.data)
    (hc : c.Clean w.data) : ∃ A l, c.Chronicle A l ∧ c.Settled { w with trace := l } := by
  obtain ⟨l, hl⟩ := exists_chronicle (c := c) (m := w.data) fun hx ha hp =>
    h.upward (StateKind.isHistory_eq_false_of_isPseudo hx) ha hp
  exact ⟨_, l, hl, LegalConfiguration.settled (w := { w with trace := l }) hs h hc hl⟩

end CppStatecharts
