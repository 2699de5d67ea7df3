import CppStatecharts.Model.Chart

/-!
What the exit and entry lists of a transition hold.

* `Forest.DeepestAbove`: the innermost common context of two states.
* `Chart.calculateStateSet_ancestors`: between different states neither of which contains the other,
  the lists hold the states above each that are not above both, the exits innermost first and the
  entries outermost first.
* `Chart.below_of_mem_calculateStateSet`: between states of `r`, the lists hold states of `r` only.
* `Cousins`: two states with a common context that is not the chart.
-/

namespace CppStatecharts

/-- `m` is the deepest element strictly above both `a` and `b`. -/
structure Forest.DeepestAbove {α : Type} (F : Forest α) (m a b : α) : Prop where
  left : F.Below a m ∧ a ≠ m
  right : F.Below b m ∧ b ≠ m
  deepest : ∀ x, F.Below a x → a ≠ x → F.Below b x → b ≠ x → F.Below m x

/-- Ways that part at `m` have nothing else in common. -/
lemma Forest.DeepestAbove.of_branch {α : Type} {F : Forest α} {m a b d e : α}
    (hd : F.parent d = some m)
    (he : F.parent e = some m) (hde : d ≠ e) (had : F.Below a d) (hbe : F.Below b e) :
    F.DeepestAbove m a b := by
  have hstrict : ∀ {x q}, F.parent q = some m → F.Below x q → F.Below x m ∧ x ≠ m := fun hq hx =>
    ⟨Forest.below_trans hx (Forest.below_of_parent hq),
      fun h => Forest.not_below_of_parent hq (h ▸ hx)⟩
  refine ⟨hstrict hd had, hstrict he hbe, fun x hax _ hbx _ => ?_⟩
  rcases Forest.below_or_below_of_parent hd had hax with hxd | hmx
  · rcases Forest.below_or_below_of_parent he hbe hbx with hxe | hmx
    · exact absurd (Forest.eq_of_below_children hd he hxd hxe) hde
    · exact hmx
  · exact hmx

namespace Chart

variable {S T E P : Type} [DecidableEq S] {c : Chart S T E P} {a b x : S}

/-- **The lists of a transition.** A self-transition leaves and enters its state. Between different
states neither of which contains the other, with `m` their innermost common context, the exit list
holds the states strictly inside `m` that contain the source, innermost first, and the entry list
those that contain the target, outermost first; the lists have no state in common, and end in
different children of `m`. -/
theorem calculateStateSet_ancestors (hab : c.Below a b → a = b) (hba : c.Below b a → a = b) :
    (a = b → c.calculateStateSet a b = ([a], [a]))
    ∧ (a ≠ b → ∃ m l l', c.calculateStateSet a b = (l, l') ∧ c.forest.DeepestAbove m a b
      ∧ (∀ x, x ∈ l ↔ c.Below a x ∧ c.Below x m ∧ x ≠ m)
      ∧ (∀ x, x ∈ l' ↔ c.Below b x ∧ c.Below x m ∧ x ≠ m)
      ∧ l.Pairwise (fun x y => c.Below x y ∧ x ≠ y) ∧ l'.Pairwise (fun x y => c.Below y x ∧ y ≠ x)
      ∧ l.head? = some a ∧ l'.getLast? = some b
      ∧ l ≠ [] ∧ l' ≠ [] ∧ l.Nodup ∧ l'.Nodup ∧ l.Disjoint l'
      ∧ ∃ d e, l.getLast? = some d ∧ l'.head? = some e ∧ d ≠ e
        ∧ c.context d = some m ∧ c.context e = some m) := by
  refine ⟨fun h => h ▸ calculateStateSet_self a, fun hne => ?_⟩
  obtain ⟨m, d, e, u, v, hlist, hd, he, hde⟩ :=
    calculateStateSet_branch (fun h => hne (hab h)) fun h => hne (hba h)
  have had := (Forest.Descends.below_head hd d List.mem_cons_self).2
  have hbe := (Forest.Descends.below_head he e List.mem_cons_self).2
  have hexits : ((d :: u).reverse).Pairwise fun x y => c.Below x y ∧ x ≠ y :=
    List.pairwise_reverse.mpr hd.pairwise
  refine ⟨m, _, _, hlist, .of_branch hd.1 he.1 hde had hbe, fun x => ?_, fun x =>
    he.mem_iff, hexits, he.pairwise, ?_, he.getLast?, by simp, by simp, hexits.imp fun h => h.2,
    he.pairwise.imp fun h => h.2.symm, ?_, d, e, by simp, rfl, hde, hd.1, he.1⟩
  · rw [List.mem_reverse]
    exact hd.mem_iff
  · rw [List.head?_reverse]
    exact hd.getLast?
  · intro x hx hx'
    have hxd := (Forest.Descends.below_head hd x (List.mem_reverse.mp hx)).1
    have hxe := (Forest.Descends.below_head he x hx').1
    exact hde (Forest.eq_of_below_children (F := c.forest) hd.1 he.1 hxd hxe)

omit [DecidableEq S] in
/-- Of two ways that part, neither leads through a state that contains both ends. -/
lemma below_of_branch {m d e r : S} {u v : List S} (hd : c.forest.Descends m (d :: u) a)
    (he : c.forest.Descends m (e :: v) b) (hde : d ≠ e) (har : c.Below a r) (hbr : c.Below b r)
    (hx : x ∈ d :: u) : c.Below x r := by
  obtain ⟨hxd, hax⟩ := Forest.Descends.below_head hd x hx
  have hbe := (Forest.Descends.below_head he e List.mem_cons_self).2
  rcases Forest.below_total hax har with hxr | hrx
  · exact hxr
  · have hbd := Forest.below_trans hbr (Forest.below_trans hrx hxd)
    exact absurd (Forest.eq_of_below_children (F := c.forest) hd.1 he.1 hbd hbe) hde

omit [DecidableEq S] in
lemma below_of_mem_path (hx : x ∈ c.path a) : c.Below a x := by
  by_cases ha : a = c.root
  · subst ha
    rw [path_root, List.mem_singleton] at hx
    exact hx ▸ Forest.below_refl _
  · exact ((descends_path ha).mem_iff.mp hx).1

/-- The states to leave contain the source. -/
lemma below_of_mem_deactivates {t : T} (hx : x ∈ c.deactivates t) : c.Below (c.source t) x := by
  unfold deactivates at hx
  split at hx
  · cases hx
  · exact below_of_mem_path (List.mem_of_mem_drop (List.mem_reverse.mp hx))

/-- **The lists stay inside.** Between states of `r`, the lists hold states of `r` only. -/
theorem below_of_mem_calculateStateSet {r : S} (hr : r ≠ c.root) (ha : c.Below a r)
    (hb : c.Below b r) : (∀ x ∈ (c.calculateStateSet a b).1, c.Below x r)
      ∧ ∀ x ∈ (c.calculateStateSet a b).2, c.Below x r := by
  have hne_root : ∀ {y}, c.Below y r → y ≠ c.root := by
    rintro y hy rfl
    exact hr (Forest.below_antisymm (below_root r) hy)
  by_cases hab : a = b
  · subst hab
    rw [calculateStateSet_self]
    exact ⟨fun x hx => List.mem_singleton.mp hx ▸ ha, fun x hx => List.mem_singleton.mp hx ▸ ha⟩
  by_cases hup : c.Below a b
  · obtain ⟨l, hl⟩ := Forest.exists_descends hup
    rw [calculateStateSet_up hab hl, if_neg (hne_root hb)]
    exact ⟨fun x hx => Forest.below_trans (hl.mem_iff.mp (List.mem_reverse.mp hx)).2.1 hb, by simp⟩
  by_cases hdown : c.Below b a
  · obtain ⟨l, hl⟩ := Forest.exists_descends hdown
    rw [calculateStateSet_down (hne_root ha) hab hl]
    exact ⟨by simp, fun x hx => Forest.below_trans (hl.mem_iff.mp hx).2.1 ha⟩
  · obtain ⟨m, d, e, u, v, hlist, hd, he, hde⟩ := calculateStateSet_branch hup hdown
    rw [hlist]
    exact ⟨fun x hx => below_of_branch hd he hde ha hb (List.mem_reverse.mp hx),
      fun x hx => below_of_branch he hd hde.symm hb ha hx⟩

end Chart

namespace Cousins

/-- A state `a` with the contexts `a1` of `x` and `a2` of `y`. -/
inductive St where
  | chart | a | a1 | x | a2 | y
  deriving DecidableEq

instance : Fintype St := ⟨{.chart, .a, .a1, .x, .a2, .y}, fun s => by cases s <;> decide⟩

def chart : Chart St Empty Event Unit where
  name := "cousins"
  root := .chart
  ownedStates := [.a, .a1, .x, .a2, .y]
  ownedTransitions := []
  kind
    | .chart => .statechart
    | .a | .a1 | .a2 => .hierarchicalState
    | .x | .y => .state
  context
    | .chart => none
    | .a => some .chart
    | .a1 | .a2 => some .a
    | .x => some .a1
    | .y => some .a2
  depth
    | .chart => 0
    | .a => 1
    | .a1 | .a2 => 2
    | .x | .y => 3
  source t := nomatch t
  target t := nomatch t
  equals ev e _ _ := ev.equals e
  timeout := Event.timeout

/-- A transition from `x` to `y` leaves `x` and `a1`, and enters `a2` and `y`. -/
theorem lists_cousins : chart.calculateStateSet .x .y = ([.x, .a1], [.a2, .y])
    ∧ ∃ m, chart.forest.DeepestAbove m .x .y ∧ chart.context .a1 = some m
      ∧ chart.context .a2 = some m := by
  have hlist : chart.calculateStateSet .x .y = ([.x, .a1], [.a2, .y]) := by decide
  obtain ⟨m, l, l', hl, hm, -, -, -, -, -, -, -, -, -, -, -, d, e, hd, he, -, hdm, hem⟩ :=
    (Chart.calculateStateSet_ancestors (c := chart) (a := .x) (b := .y) (by decide) (by decide)).2
      (by decide)
  obtain ⟨rfl, rfl⟩ := Prod.mk.inj (hlist.symm.trans hl)
  obtain rfl := Option.some.inj hd
  obtain rfl := Option.some.inj he
  exact ⟨hlist, m, hm, hdm, hem⟩

end Cousins

end CppStatecharts
