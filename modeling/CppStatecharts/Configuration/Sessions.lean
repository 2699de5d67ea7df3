import CppStatecharts.Configuration.ActiveSet

/-!
What is kept in every session.

* `Statechart.Session.rule`: a preorder that contains the elementary changes outside firings, the
  runs of single transitions, and the beginnings of calls and restorations relates a new metadata to
  all that a client reaches.
* `World.Completes`: every firing that began between two worlds has ended, too.
* `Statechart.ended_session`: a client never finds a firing that has not ended.
-/

namespace CppStatecharts

variable {S T E P : Type} [DecidableEq S] {c : Chart S T E P}
variable {R : World S T E P → World S T E P → Prop} {ok : S → World S T E P → Prop}
variable {w w₁ w' : World S T E P} {m : Metadata S} {t : T} {k : ℕ} {u : PUnit}
variable {l l' : List (Obs S T)}

namespace Statechart

lemma keeps_activateAll (hR : Arriving c Set.univ R) (hm : (c.methods k).Enter Set.univ R)
    (l : List S) : Keeps R (activateAll c k l) :=
  have := hR.std_refl
  have := hR.isTrans
  keeps_forM fun x _ => keeps_bind (hm.activate x) fun _ => keeps_pure _

/-- **The session rule.** What relates the worlds of every method, and the first worlds of calls and
restorations to what these begin with, relates a new metadata to all that is reached from it. -/
theorem Session.rule (hR : Arriving c Set.univ R) (hm : ∀ k, (c.methods k).Enter Set.univ R)
    (hparam : ∀ (a : P) w, R w { w with param := a }) (henter : ∀ w, R w (enter c w))
    (hforget : ∀ w, R w (forget w)) (h : Session c ok w) : ∃ a, R (World.fresh a) w := by
  induction h with
  | fresh a => exact ⟨a, hR.refl _⟩
  | call l _ hl ih =>
      obtain ⟨a, ha⟩ := ih
      obtain ⟨k, hl⟩ := hl
      exact ⟨a, hR.trans ha (hR.call (hm k) (fun _ => trivial) hparam henter l _ _ _ hl)⟩
  | restoreState s p _ _ hl ih =>
      obtain ⟨a, ha⟩ := ih
      obtain ⟨k, hl⟩ := hl
      refine ⟨a, hR.trans (hR.trans ha (hparam p _)) ?_⟩
      rcases returns_restoreState.mp hl with ⟨-, -, rfl⟩ | ⟨-, -, hl⟩
      · exact hR.refl _
      · exact hR.trans (hforget _) (keeps_activateAll hR (hm k) _ _ _ _ hl)

end Statechart

/-! ### Firings end -/

/-- Every firing of the record has ended. -/
def Obs.Ended (l : List (Obs S T)) : Prop := ∀ {t m}, .fire t m ∈ l → ∃ m', .fired t m m' ∈ l

omit [DecidableEq S] in
lemma Obs.Ended.append (h : Obs.Ended l) (h' : Obs.Ended l') : Obs.Ended (l' ++ l) := by
  intro t m hm
  rcases List.mem_append.mp hm with hm | hm
  · exact (h' hm).imp fun _ => List.mem_append_left _
  · exact (h hm).imp fun _ => List.mem_append_right _

omit [DecidableEq S] in
lemma Obs.Ended.of_forall (h : ∀ o ∈ l, ∀ t m, o ≠ .fire t m) : Obs.Ended l :=
  fun hm => absurd rfl (h _ hm _ _)

/-- What the second world has recorded on top of the first one contains no firing that has not
ended. -/
def World.Completes (w w' : World S T E P) : Prop := ∃ l, w'.trace = l ++ w.trace ∧ Obs.Ended l

namespace World.Completes

omit [DecidableEq S]

lemma of_adds (h : w.Adds (fun o => ∀ t m, o ≠ .fire t m) w') : w.Completes w' :=
  h.imp fun _ hl => ⟨hl.1, Obs.Ended.of_forall hl.2⟩

lemma trans (h : w.Completes w₁) (h' : w₁.Completes w') : w.Completes w' := by
  obtain ⟨l, hl, he⟩ := h
  obtain ⟨l', hl', he'⟩ := h'
  exact ⟨l' ++ l, by rw [hl', hl, List.append_assoc], he.append he'⟩

end World.Completes

lemma steady_unfired : Steady c Set.univ fun w w' => w.Adds (fun o => ∀ t m, o ≠ .fire t m) w' :=
  steady_adds trivial (by simp) fun o ho t m => by
    rintro rfl
    exact ho rfl

/-- A preorder between worlds that record no firing contains all that the methods do outside
firings. -/
lemma steady_of_unfired (htrans : ∀ {w₁ w₂ w₃}, R w₁ w₂ → R w₂ w₃ → R w₁ w₃)
    (h : ∀ {w w'}, w.Adds (fun o => ∀ t m, o ≠ .fire t m) w' → R w w') :
    Steady c Set.univ R where
  null := trivial
  refl _ := h (World.Adds.refl _)
  trans := htrans
  fallThrough s w e he := h ((steady_unfired (c := c)).fallThrough s w e he)
  bracket n w w' hw := htrans (h (World.Adds.of_cons rfl (by simp)))
    (htrans hw (h (World.Adds.of_cons rfl (by simp))))
  entry s w := h (steady_unfired.entry s w)
  doing s w := h (steady_unfired.doing s w)
  activateData s w hs := h (steady_unfired.activateData s w hs)
  arrive s w hs hi := h (steady_unfired.arrive s w hs hi)
  registerRegion n r w hn := h (steady_unfired.registerRegion n r w hn)
  exit s w := h (steady_unfired.exit s w)
  leave s w hi := h (steady_unfired.leave s w hi)
  clearStateset n w hn := h (steady_unfired.clearStateset n w hn)
  clearCurrent s w hs := h (steady_unfired.clearCurrent s w hs)
  storeHistory s a w w' hs hst hr := h (steady_unfired.storeHistory s a w w' hs hst hr)

lemma steady_completes : Steady c Set.univ World.Completes :=
  steady_of_unfired World.Completes.trans .of_adds

/-- What happens in the course of a firing ends before the firing does. -/
lemma Transition.fire_completes (hv : (c.methods k).Enter Set.univ World.Completes)
    (hf : Returns (Transition.fire c (c.methods k) t) w u w') : w.Completes w' := by
  obtain ⟨w₁, w₂, h₁, h₂, rfl⟩ := Transition.returns_fire.mp hf
  have hexits : (w.log (.fire t w.data)).Adds (fun o => ∀ t m, o ≠ .fire t m) w₁ :=
    have := steady_unfired (c := c).std_refl
    have := steady_unfired (c := c).isTrans
    keeps_forM (fun s _ => steady_unfired.deactivate k s) _ _ _ h₁
  obtain ⟨l₁, hl₁, hn⟩ := hexits.trans (World.adds_perform (o := .effect t) (by simp))
  obtain ⟨l₂, hl₂, he⟩ := steady_completes.activateAll hv _ _ _ _ h₂
  refine ⟨.fired t w.data w₂.data :: (l₂ ++ (l₁ ++ [.fire t w.data])), ?_, fun {t' m} hm => ?_⟩
  · rw [World.trace_log, hl₂, hl₁, World.trace_log]
    simp
  · simp only [List.mem_cons, List.mem_append, List.not_mem_nil, or_false, reduceCtorEq,
      false_or] at hm
    rcases hm with hm | hm | hm
    · exact (he hm).imp fun _ hm => List.mem_cons_of_mem _ (List.mem_append_left _ hm)
    · exact absurd rfl (hn _ hm t' m)
    · obtain ⟨rfl, rfl⟩ := Obs.fire.inj hm
      exact ⟨w₂.data, List.mem_cons_self⟩

lemma enter_completes : ∀ k, (c.methods k).Enter Set.univ World.Completes :=
  steady_completes.toEntering.methods fun k hv t e _ w b w' _ hx => by
    rcases (Transition.returns_execute (pure_methods c k)).mp hx with ⟨-, -, -, hf⟩ | ⟨-, rfl, -⟩
    · exact Transition.fire_completes hv hf
    · exact (steady_completes (c := c)).refl _

namespace Statechart

lemma adds_enter (w : World S T E P) : w.Adds (fun o => ∀ t m, o ≠ .fire t m) (enter c w) := by
  unfold enter
  split
  · exact ⟨[.activated c.root, .reset], rfl, by simp⟩
  · exact ⟨[.activated _, .activated c.root, .reset], rfl, by simp⟩

/-- **Nothing is left half done.** Between the calls of a client, every firing has ended. -/
theorem ended_session (h : Session c ok w) : Obs.Ended w.trace := by
  obtain ⟨a, l, hl, hended⟩ := Session.rule steady_completes.toArriving enter_completes
    (fun a w => .of_adds (World.Adds.of_eq rfl)) (fun w => .of_adds (adds_enter w))
    (fun w => .of_adds (World.Adds.of_cons rfl (by simp))) h
  rw [hl]
  exact Obs.Ended.append (Obs.Ended.of_forall fun o ho => by cases ho) hended

end Statechart

end CppStatecharts
