import CppStatecharts.Model.Statechart

/-!
More nested calls never change an answer: every method is monotone in the methods it calls
(`monotone_step`), so `Chart.methods` is an increasing chain (`monotone_methods`), and what a call
returns does not depend on the bound it runs with.
-/

namespace CppStatecharts

variable {S T E P : Type}

instance : Preorder (Methods S T E P) where
  le v v' := (∀ j, v.lookup j ≤ v'.lookup j) ∧ (∀ s, v.activate s ≤ v'.activate s)
    ∧ (∀ s, v.deactivate s ≤ v'.deactivate s) ∧ ∀ s e, v.dispatch s e ≤ v'.dispatch s e
  le_refl _ := ⟨fun _ => le_rfl, fun _ => le_rfl, fun _ => le_rfl, fun _ _ => le_rfl⟩
  le_trans _ _ _ h h' := ⟨fun j => (h.1 j).trans (h'.1 j), fun s => (h.2.1 s).trans (h'.2.1 s),
    fun s => (h.2.2.1 s).trans (h'.2.2.1 s), fun s e => (h.2.2.2 s e).trans (h'.2.2.2 s e)⟩

lemma monotone_lookup (j : S) : Monotone fun v : Methods S T E P => v.lookup j :=
  fun _ _ h => h.1 j

lemma monotone_activate (s : S) : Monotone fun v : Methods S T E P => v.activate s :=
  fun _ _ h => h.2.1 s

lemma monotone_deactivate (s : S) : Monotone fun v : Methods S T E P => v.deactivate s :=
  fun _ _ h => h.2.2.1 s

lemma monotone_dispatch (s : S) (e : Option E) :
    Monotone fun v : Methods S T E P => v.dispatch s e :=
  fun _ _ h => h.2.2.2 s e

variable [DecidableEq S] (c : Chart S T E P)

lemma Transition.monotone_allowed (t : T) : Monotone fun v => Transition.allowed c v t := by
  refine monotone_bind monotone_const fun b => ?_
  cases b
  · exact monotone_const
  · cases (c.activates t).getLast? with
    | none => exact monotone_const
    | some s =>
        simp only [↓reduceIte]
        exact monotone_ite (monotone_lookup s) monotone_const

lemma Transition.monotone_activateAll :
    ∀ l : List S, Monotone fun v => Transition.activateAll c v l
  | [] => monotone_const
  | [s] => monotone_bind (monotone_activate s) fun _ => monotone_const
  | s :: r :: rest =>
      have hrest := monotone_bind (monotone_activate s) fun _ =>
        Transition.monotone_activateAll (r :: rest)
      monotone_ite (monotone_bind monotone_const fun _ => hrest) hrest

lemma Transition.monotone_fire (t : T) : Monotone fun v => Transition.fire c v t :=
  monotone_bind monotone_const fun _ => monotone_bind monotone_const fun _ =>
    monotone_bind (monotone_forM monotone_deactivate _) fun _ =>
      monotone_bind monotone_const fun _ =>
        monotone_bind (Transition.monotone_activateAll c _) fun _ => monotone_const

lemma Transition.monotone_execute (t : T) (e : Option E) :
    Monotone fun v => Transition.execute c v t e := by
  refine monotone_bind monotone_const fun b => ?_
  cases b
  · exact monotone_const
  refine monotone_bind (Transition.monotone_allowed c t) fun b => ?_
  cases b
  · exact monotone_const
  · exact monotone_bind (Transition.monotone_fire c t) fun _ => monotone_const

lemma State.monotone_dispatch (s : S) (e : Option E) :
    Monotone fun v => State.dispatch c v s e :=
  monotone_anyM (fun t => Transition.monotone_execute c t e) _

lemma HierarchicalState.monotone_deactivate (s : S) :
    Monotone fun v => HierarchicalState.deactivate c v s := by
  refine monotone_bind monotone_const fun b => ?_
  cases b
  · exact monotone_const
  refine monotone_bind monotone_const fun current => monotone_bind monotone_const fun _ =>
    monotone_bind ?_ fun _ => monotone_const
  cases current with
  | none => exact monotone_const
  | some q => exact CppStatecharts.monotone_deactivate q

lemma HierarchicalState.monotone_enterStart (s : S) :
    Monotone fun v => HierarchicalState.enterStart c v s := by
  refine monotone_bind monotone_const fun current => ?_
  cases current with
  | some q => exact monotone_const
  | none =>
      cases c.startState s with
      | none => exact monotone_const
      | some st =>
          refine monotone_bind monotone_const fun _ => monotone_bind monotone_const fun q => ?_
          cases q with
          | none => exact monotone_const
          | some q => exact monotone_bind (monotone_activate q) fun _ => monotone_const

omit [DecidableEq S] in
lemma HierarchicalState.monotone_dispatchCurrent (s : S) (e : Option E) :
    Monotone fun v : Methods S T E P => HierarchicalState.dispatchCurrent v s e := by
  refine monotone_bind monotone_const fun current => ?_
  cases current with
  | none => exact monotone_const
  | some q => exact CppStatecharts.monotone_dispatch q e

lemma HierarchicalState.monotone_tryTransition (b : Bool) (e : Option E) (t : T) :
    Monotone fun v => HierarchicalState.tryTransition c v b e t := by
  refine monotone_ite (Transition.monotone_execute c t e) (monotone_ite ?_ monotone_const)
  refine monotone_bind (Transition.monotone_execute c t none) fun b => ?_
  exact monotone_ite monotone_const (Transition.monotone_execute c t e)

lemma HierarchicalState.monotone_dispatch (s : S) (e : Option E) :
    Monotone fun v => HierarchicalState.dispatch c v s e := by
  refine monotone_bind monotone_const fun b => monotone_ite ?_ monotone_const
  refine monotone_bind (HierarchicalState.monotone_enterStart c s) fun _ =>
    monotone_bind (HierarchicalState.monotone_dispatchCurrent s e) fun handled =>
      monotone_bind monotone_const fun b => monotone_ite ?_ monotone_const
  refine monotone_bind monotone_const fun b => monotone_ite monotone_const ?_
  have hloop := monotone_anyM (fun t => HierarchicalState.monotone_tryTransition c b e t)
    (c.transitions s)
  exact monotone_ite (monotone_bind monotone_const fun _ => hloop) hloop

lemma ConcurrentState.monotone_enterRegion (n h : S) :
    Monotone fun v : Methods S T E P => ConcurrentState.enterRegion v n h := by
  refine monotone_bind monotone_const fun b => monotone_ite monotone_const ?_
  refine monotone_bind (monotone_activate h) fun b => monotone_ite ?_ monotone_const
  exact monotone_bind (CppStatecharts.monotone_dispatch h none) fun _ => monotone_const

lemma ConcurrentState.monotone_enterRegions (n : S) :
    Monotone fun v => ConcurrentState.enterRegions c v n := by
  refine monotone_bind monotone_const fun b => monotone_ite ?_ monotone_const
  exact monotone_bind monotone_const fun _ =>
    monotone_bind (monotone_forM (ConcurrentState.monotone_enterRegion n) _) fun _ =>
      monotone_const

lemma ConcurrentState.monotone_activate (n : S) :
    Monotone fun v => ConcurrentState.activate c v n := by
  refine monotone_bind monotone_const fun b => monotone_ite ?_ monotone_const
  exact monotone_bind (ConcurrentState.monotone_enterRegions c n) fun _ => monotone_const

lemma ConcurrentState.monotone_deactivate (n : S) :
    Monotone fun v => ConcurrentState.deactivate c v n :=
  monotone_bind monotone_const fun _ =>
    monotone_bind (monotone_forM CppStatecharts.monotone_deactivate _) fun _ => monotone_const

omit [DecidableEq S] in
lemma ConcurrentState.monotone_dispatchRegion (n : S) (e : Option E) (h : S) :
    Monotone fun v : Methods S T E P => ConcurrentState.dispatchRegion v n e h :=
  monotone_bind monotone_const fun _ =>
    monotone_ite (CppStatecharts.monotone_dispatch h e) monotone_const

omit [DecidableEq S] in
lemma ConcurrentState.monotone_dispatchRegions (n : S) (e : Option E) :
    ∀ l : List S, Monotone fun v : Methods S T E P => ConcurrentState.dispatchRegions v n e l
  | [] => monotone_const
  | h :: hs => monotone_bind (ConcurrentState.monotone_dispatchRegion n e h) fun _ =>
      monotone_bind (ConcurrentState.monotone_dispatchRegions n e hs) fun _ => monotone_const

lemma ConcurrentState.monotone_tryTransition (n : S) (e : Option E) (t : T) :
    Monotone fun v => ConcurrentState.tryTransition c v n e t := by
  refine monotone_bind monotone_const fun b => monotone_ite ?_ monotone_const
  exact monotone_bind monotone_const fun b =>
    monotone_ite monotone_const (Transition.monotone_execute c t e)

lemma ConcurrentState.monotone_dispatch (n : S) (e : Option E) :
    Monotone fun v => ConcurrentState.dispatch c v n e := by
  refine monotone_bind (ConcurrentState.monotone_dispatchRegions n e _) fun b =>
    monotone_ite monotone_const ?_
  exact monotone_anyM (fun t => ConcurrentState.monotone_tryTransition c n e t) _

lemma PseudoState.monotone_lookup (j : S) : Monotone fun v => PseudoState.lookup c v j := by
  refine monotone_bind monotone_const fun b => monotone_ite monotone_const ?_
  exact monotone_anyM (fun t => Transition.monotone_allowed c t) _

lemma PseudoState.monotone_activate (s : S) : Monotone fun v => PseudoState.activate c v s := by
  refine monotone_bind monotone_const fun _ => monotone_bind monotone_const fun _ => ?_
  refine monotone_ite (monotone_bind monotone_const fun stored => ?_) monotone_const
  refine monotone_bind (monotone_forM (fun q => ?_) _) fun _ => monotone_const
  exact monotone_bind (CppStatecharts.monotone_activate q) fun _ => monotone_const

lemma PseudoState.monotone_dispatch (s : S) (e : Option E) :
    Monotone fun v => PseudoState.dispatch c v s e := by
  refine monotone_ite (monotone_bind monotone_const fun q => ?_) (monotone_ite ?_ ?_)
  · cases q with
    | none => exact State.monotone_dispatch c s e
    | some q => exact CppStatecharts.monotone_dispatch q e
  · refine monotone_bind (monotone_forM (fun t => ?_) _) fun _ => monotone_const
    exact monotone_bind (Transition.monotone_execute c t e) fun _ => monotone_const
  · exact State.monotone_dispatch c s e

/-- Every method is monotone in the methods it calls. -/
lemma monotone_step : Monotone c.step := by
  intro v v' h
  refine ⟨fun j => PseudoState.monotone_lookup c j h, fun s => ?_, fun s => ?_, fun s e => ?_⟩
  · simp only [Chart.step]
    split
    · exact ConcurrentState.monotone_activate c s h
    · exact PseudoState.monotone_activate c s h
    · exact le_rfl
  · simp only [Chart.step]
    split
    · exact HierarchicalState.monotone_deactivate c s h
    · exact ConcurrentState.monotone_deactivate c s h
    · exact le_rfl
  · simp only [Chart.step]
    split
    · exact HierarchicalState.monotone_dispatch c s e h
    · exact ConcurrentState.monotone_dispatch c s e h
    · exact PseudoState.monotone_dispatch c s e h
    · exact State.monotone_dispatch c s e h

/-- **Fuel.** A larger bound on the nested calls answers whatever a smaller one answers. -/
theorem monotone_methods : Monotone c.methods := by
  refine monotone_nat_of_le_succ fun n => ?_
  induction n with
  | zero => exact ⟨fun _ => failure_le _, fun _ => failure_le _, fun _ => failure_le _,
      fun _ _ => failure_le _⟩
  | succ n ih => exact monotone_step c ih

lemma monotone_of {α : Type} {f : Methods S T E P → Comp (World S T E P) α} (hf : Monotone f) :
    Monotone fun k => f (c.methods k) :=
  hf.comp (monotone_methods c)

namespace Statechart

lemma monotone_pass (e : Option E) : Monotone fun n => pass c n e := by
  refine monotone_bind monotone_const fun q => ?_
  cases q with
  | none => exact monotone_const
  | some q => exact (CppStatecharts.monotone_dispatch q e).comp (monotone_methods c)

lemma monotone_completionLoop : ∀ k : ℕ, Monotone fun n => completionLoop c n k
  | 0 => monotone_const
  | k + 1 => monotone_bind (monotone_pass c none) fun _ =>
      monotone_ite (monotone_completionLoop k) monotone_const

lemma monotone_complete (rc : Bool) : Monotone fun n => complete c n rc :=
  monotone_bind (monotone_completionLoop c _) fun _ => monotone_const

lemma monotone_dispatch (e : Option E) : Monotone fun n => dispatch c n e := by
  refine monotone_bind monotone_const fun b => monotone_ite ?_ monotone_const
  exact monotone_bind (monotone_pass c e) fun rc => monotone_complete c rc

lemma monotone_start : Monotone fun n => start c n :=
  monotone_bind monotone_const fun _ => monotone_dispatch c none

lemma monotone_restoreState (s : S) : Monotone fun n => restoreState c n s := by
  refine monotone_bind monotone_const fun b => monotone_ite monotone_const ?_
  refine monotone_bind monotone_const fun _ => monotone_bind (monotone_forM (fun x => ?_) _)
    fun _ => monotone_const
  exact monotone_bind ((monotone_activate x).comp (monotone_methods c)) fun _ => monotone_const

end Statechart

end CppStatecharts
