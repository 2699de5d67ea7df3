import CppStatecharts.Refinement.Restart
import CppStatecharts.Timers.Filing

/-!
Threads, timers and several metadata leave on each metadata what plain calls in sequence leave.

* `Access`: what happens to a metadata while a call holds it; `Statechart.Accesses` a sequence.
* `Request.access?`: the access a request is, in the state in which it is served.
* `System.Track`: a session with the requests served and the states before them.
* `System.sequential`: a metadata is left by a session as by its accesses alone.
-/

namespace CppStatecharts

variable {S T E P : Type}

/-- An access to a metadata: the first half of `Statechart::startAsynchron`, or a visit. -/
inductive Access (S E P : Type) where
  | enter
  | visit (a : Visit S E P)

namespace Statechart

variable [DecidableEq S] (c : Chart S T E P)

def access (n : ℕ) : Access S E P → Comp (World S T E P) Outcome
  | .enter => do
      modify (enter c)
      return .returned true
  | .visit a => visit c n a

/-- A sequence of accesses with their outcomes. -/
def Accesses : List (Access S E P) → List Outcome → World S T E P → World S T E P → Prop
  | [], os, w, w' => os = [] ∧ w' = w
  | a :: l, os, w, w' => ∃ o os' w₁, os = o :: os' ∧ Returned (fun n => access c n a) w o w₁
      ∧ Accesses l os' w₁ w'

variable {c} {w w₁ w' : World S T E P} {l : List (Access S E P)} {a : Access S E P}
variable {os : List Outcome} {o : Outcome}

lemma Accesses.snoc (h : Accesses c l os w w₁) (ha : Returned (fun n => access c n a) w₁ o w') :
    Accesses c (l ++ [a]) (os ++ [o]) w w' := by
  induction l generalizing w os with
  | nil =>
      obtain ⟨rfl, rfl⟩ := h
      exact ⟨o, [], w', rfl, ha, rfl, rfl⟩
  | cons b l ih =>
      obtain ⟨o₁, os', w₂, rfl, hb, h⟩ := h
      exact ⟨o₁, os' ++ [o], w₂, rfl, hb, ih h⟩

/-- Every access is the same in both worlds. -/
lemma simulates_access {l₀ l₁ : List (Obs S T)} (hc : c.Unaware) (n : ℕ) (a : Access S E P) :
    Simulates (World.Twin l₀ l₁) (access c n a) (access c n a) := by
  cases a with
  | enter =>
      exact simulates_bind (simulates_modify fun _ _ h => twin_enter h.param h.seen)
        fun _ => simulates_pure _
  | visit a => exact simulates_visit hc n a

/-- Of the parameter a world has, an access makes nothing. -/
lemma access_param {v v' : World S T E P} {n : ℕ} {p : P}
    (h : Returns (access c n a) { v with param := p } o v') :
    ∃ v₁, Returns (access c n a) v o v₁ ∧ v₁.data = v'.data ∧ v₁.trace = v'.trace := by
  cases a with
  | enter =>
      obtain ⟨⟨⟩, w, h₁, h₂⟩ := returns_bind.mp h
      obtain rfl := returns_modify.mp h₁
      obtain ⟨rfl, rfl⟩ := returns_pure.mp h₂
      refine ⟨enter c v, returns_bind.mpr ⟨⟨⟩, _, returns_modify.mpr rfl,
        returns_pure.mpr ⟨rfl, rfl⟩⟩, ?_⟩
      unfold enter
      split <;> exact ⟨rfl, rfl⟩
  | visit a =>
      refine ⟨v', ?_, rfl, rfl⟩
      cases a with
      | call a => cases a <;> exact h
      | restoreState s p => exact h

end Statechart

/-! ### The accesses of a session -/

namespace System

section

variable [Inhabited P]

/-- What a call finds in its parameter. -/
def value (σ : System S T E P) (p : Option ℕ) : P := (σ.argument p).2.params (σ.argument p).1

/-- The dispatch of the worker's entry. -/
def delivery? (σ : System S T E P) : Option (ℕ × Access S E P) :=
  σ.worker.map fun e => (e.data, .visit (.call (.dispatch e.event (σ.value e.param))))

end

end System

/-- The metadata a step accesses, and how. -/
def Op.access? [Inhabited P] (σ : System S T E P) : Op S E → Option (ℕ × Access S E P)
  | .start d p => some (d, .visit (.call (.start (σ.value p))))
  | .restoreState s d p => some (d, .visit (.restoreState s (σ.value (some p))))
  | .dispatch d e p => some (d, .visit (.call (.dispatch e (σ.value p))))
  | .deliver => σ.delivery?
  | .work => σ.check.delivery?
  | .tick _ | .expire | .check => none

/-- The same of a request. -/
def Request.access? [Inhabited P] (σ : System S T E P) : Request S E → Option (ℕ × Access S E P)
  | .op o => o.access? σ
  | .startAsynchron d _ => some (d, .enter)
  | .dispatchAsynchron _ _ _ | .cancelTimeout _ | .shutdown | .terminate => none

namespace System

variable [DecidableEq S] [Inhabited P]

/-- A session with the requests that are served, each with the state before it. -/
inductive Track (c : Chart S T E P) :
    List (Request S E × System S T E P) → System S T E P → System S T E P → Prop
  | refl (σ) : Track c [] σ σ
  | step {l σ σ₁ σ'} (r : Request S E) : Track c l σ σ₁ → Serves c r σ₁ σ' →
      Track c (l ++ [(r, σ₁)]) σ σ'

/-- The accesses to the metadata `d`. -/
def accesses (d : ℕ) (l : List (Request S E × System S T E P)) : List (Access S E P) :=
  l.filterMap fun q => (q.1.access? q.2).bind fun a => if a.1 = d then some a.2 else none

variable {c : Chart S T E P} {σ σ₁ σ' : System S T E P} {r : Request S E} {op : Op S E} {d p : ℕ}
variable {l : List (Request S E × System S T E P)} {v w w' : World S T E P} {a : Access S E P}
variable {ok : Request S E → System S T E P → System S T E P → Prop} {o : Outcome}

lemma exists_track (h : Session c ok σ σ') : ∃ l, Track c l σ σ' := by
  induction h with
  | refl => exact ⟨[], .refl _⟩
  | step r _ hr _ ih =>
      obtain ⟨l, hl⟩ := ih
      exact ⟨l ++ [(r, _)], .step r hl hr⟩

lemma Track.session (h : Track c l σ σ') : Session c (fun _ _ _ => True) σ σ' := by
  induction h with
  | refl => exact .refl _
  | step r _ hr ih => exact .step r ih hr trivial

omit [DecidableEq S] in
lemma accesses_snoc : accesses d (l ++ [(r, σ)])
    = accesses d l ++ ((r.access? σ).bind fun a => if a.1 = d then some a.2 else none).toList := by
  rw [accesses, List.filterMap_append]
  cases h : (r.access? σ).bind fun a => if a.1 = d then some a.2 else none <;>
    simp [accesses, h]

/-- Apart from the timers, the metadata at `d` is the one of `v`, and the client has seen the same
of both. -/
structure Reflects (d : ℕ) (σ : System S T E P) (v : World S T E P) : Prop where
  data : (σ.stores d).untimed = v.data.untimed
  seen : Obs.seen (σ.traces d) = Obs.seen v.trace

/-- Nothing happens to the metadata at `d` that a client could see. -/
structure Spares (d : ℕ) (σ σ' : System S T E P) : Prop where
  data : (σ'.stores d).untimed = (σ.stores d).untimed
  seen : Obs.seen (σ'.traces d) = Obs.seen (σ.traces d)

/-- Nothing but the access `a` to the metadata at `d` happens that a client could see. -/
structure Performs (c : Chart S T E P) (d : ℕ) (a : Access S E P) (σ σ' : System S T E P) :
    Prop where
  access : ∃ w o w', w.data = σ.stores d ∧ Obs.seen w.trace = Obs.seen (σ.traces d)
    ∧ Returned (fun n => Statechart.access c n a) w o w'
    ∧ σ'.stores d = w'.data ∧ σ'.traces d = w'.trace
  others : ∀ d' ≠ d, Spares d' σ σ'

omit [DecidableEq S] [Inhabited P] in
lemma Spares.of_eq {d : ℕ} (hs : σ'.stores d = σ.stores d) (ht : σ'.traces d = σ.traces d) :
    Spares d σ σ' := ⟨congrArg _ hs, congrArg _ ht⟩

/-! ### One step -/

omit [Inhabited P] in
/-- A call on `d` is an access to `d`. -/
lemma performs_put {τ : System S T E P} (hstores : τ.stores = σ.stores)
    (htraces : τ.traces = σ.traces) (hd : w'.dataId = d) (hw : w.data = σ.stores d)
    (hseen : Obs.seen w.trace = Obs.seen (σ.traces d))
    (ha : Returned (fun n => Statechart.access c n a) w o w') :
    Performs c d a σ (τ.put w') := by
  subst hd
  refine ⟨⟨w, o, w', hw, hseen, ha, ?_, ?_⟩, fun d' hd' => Spares.of_eq ?_ ?_⟩
  · exact Function.update_self ..
  · exact Function.update_self ..
  · exact (Function.update_of_ne hd' _ _).trans (congrFun hstores d')
  · exact (Function.update_of_ne hd' _ _).trans (congrFun htraces d')

omit [Inhabited P] in
lemma Performs.congr {τ τ' : System S T E P} (h : Performs c d a τ τ')
    (hs : τ.stores = σ.stores) (ht : τ.traces = σ.traces) (hs' : σ'.stores = τ'.stores)
    (ht' : σ'.traces = τ'.traces) : Performs c d a σ σ' := by
  obtain ⟨w, o, w', hw, hseen, ha, hdata, htrace⟩ := h.access
  refine ⟨⟨w, o, w', hw.trans (congrFun hs d), hseen.trans (by rw [ht]), ha, ?_, ?_⟩,
    fun d' hd' => ?_⟩
  · rw [hs', hdata]
  · rw [ht', htrace]
  · obtain ⟨hdata, hseen⟩ := h.others d' hd'
    refine ⟨?_, ?_⟩
    · rw [hs', hdata, hs]
    · rw [ht', hseen, ht]

/-- A call, made with the parameter it is given, after a part that nobody sees. -/
lemma performs_invokes {α : Type} {f : ℕ → Comp (World S T E P) α} {q : Option ℕ}
    (h : Invokes f d q σ σ')
    (hf : ∀ n w b w', w.param = σ.value q → Returns (f n) w b w' → w'.dataId = w.dataId
      ∧ ∃ w₀ o, w₀.data = w.data ∧ Obs.seen w₀.trace = Obs.seen w.trace
        ∧ Returned (fun n => Statechart.access c n a) w₀ o w') :
    Performs c d a σ σ' := by
  obtain ⟨b, w', ⟨n, hn⟩, rfl⟩ := h
  obtain ⟨-, hstores, htraces, -⟩ := argument_frame σ q
  obtain ⟨hd, w₀, o, hdata, hseen, ha⟩ := hf n _ _ _ rfl hn
  have hdata' : w₀.data = σ.stores d := hdata.trans (congrFun hstores d)
  have hseen' : Obs.seen w₀.trace = Obs.seen (σ.traces d) :=
    hseen.trans (congrArg Obs.seen (congrFun htraces d))
  exact performs_put hstores htraces hd hdata' hseen' ha

omit [DecidableEq S] in
lemma value_worker {b : Option (EventQueueEntry S E)} (q : Option ℕ) :
    ({ σ with worker := b } : System S T E P).value q = σ.value q := by
  cases q <;> rfl

lemma performs_deliver (hs : Deliver c σ σ') :
    ∃ d a, σ.delivery? = some (d, a) ∧ Performs c d a σ σ' := by
  obtain ⟨e, he, hi⟩ := hs
  refine ⟨e.data, .visit (.call (.dispatch e.event (σ.value e.param))), ?_, ?_⟩
  · rw [delivery?, he]
    rfl
  have hidle := performs_invokes (c := c)
    (a := .visit (.call (.dispatch e.event (σ.value e.param)))) hi fun n w o w' hp h => ?_
  · exact hidle.congr rfl rfl rfl rfl
  obtain ⟨⟨⟩, w₁, h₁, h₂⟩ := returns_bind.mp h
  obtain rfl := returns_modify.mp h₁
  refine ⟨(files_dispatch h₂).dataId, w.log (.dispatched e.id σ.timers.now), o, rfl, rfl, n, ?_⟩
  rw [value_worker] at hp
  rw [← hp]
  exact returns_bind.mpr ⟨⟨⟩, _, returns_modify.mpr rfl, h₂⟩

/-- A step is an access to one metadata, or nothing that a client could see. -/
lemma step_performs (hs : Step c op σ σ') :
    op.access? σ = none ∧ (∀ d, Spares d σ σ')
      ∨ ∃ d a, op.access? σ = some (d, a) ∧ Performs c d a σ σ' := by
  cases op with
  | start d p =>
      refine Or.inr ⟨d, _, rfl, performs_invokes hs fun n w o w' hp h => ?_⟩
      refine ⟨(files_start h).dataId, w, o, rfl, rfl, n, ?_⟩
      rw [← hp]
      exact returns_bind.mpr ⟨⟨⟩, _, returns_modify.mpr rfl, h⟩
  | restoreState s d p =>
      refine Or.inr ⟨d, _, rfl, performs_invokes hs fun n w b w' hp h => ?_⟩
      refine ⟨(files_restoreState h).dataId, w, .returned b, rfl, rfl, n, ?_⟩
      rw [← hp]
      exact returns_bind.mpr ⟨⟨⟩, _, returns_modify.mpr rfl,
        returns_bind.mpr ⟨b, w', h, returns_pure.mpr ⟨rfl, rfl⟩⟩⟩
  | dispatch d e p =>
      refine Or.inr ⟨d, _, rfl, performs_invokes hs fun n w o w' hp h => ?_⟩
      refine ⟨(files_dispatch h).dataId, w, o, rfl, rfl, n, ?_⟩
      rw [← hp]
      exact returns_bind.mpr ⟨⟨⟩, _, returns_modify.mpr rfl, h⟩
  | tick ns =>
      obtain rfl := hs
      exact Or.inl ⟨rfl, fun d => Spares.of_eq rfl rfl⟩
  | expire =>
      obtain rfl := hs
      obtain ⟨hstores, htraces, -⟩ := expire_frame σ
      exact Or.inl ⟨rfl, fun d => Spares.of_eq (congrFun hstores d) (congrFun htraces d)⟩
  | check =>
      obtain rfl := hs
      obtain ⟨-, hstores, htraces, -⟩ := check_frame σ
      exact Or.inl ⟨rfl, fun d => Spares.of_eq (congrFun hstores d) (congrFun htraces d)⟩
  | deliver => exact Or.inr (performs_deliver hs)
  | work =>
      obtain ⟨-, hstores, htraces, -⟩ := check_frame σ
      obtain ⟨-, ⟨hidle, rfl⟩ | hd⟩ := hs
      · refine Or.inl ⟨?_, fun d => Spares.of_eq (congrFun hstores d) (congrFun htraces d)⟩
        rw [Op.access?, delivery?, hidle]
        rfl
      · obtain ⟨d, a, ha, hp⟩ := performs_deliver hd
        exact Or.inr ⟨d, a, ha, hp.congr hstores htraces rfl rfl⟩

omit [DecidableEq S] in
/-- The choice of a shared parameter concerns nothing but the parameters. -/
lemma share_frame (σ : System S T E P) (q : Shared) :
    (σ.share q).2.stores = σ.stores ∧ (σ.share q).2.traces = σ.traces := by
  cases q <;> exact ⟨rfl, rfl⟩

omit [DecidableEq S] [Inhabited P] in
lemma submit_frame (σ : System S T E P) (e : Option E) (q : Option ℕ) :
    (σ.submit c d e q).stores = σ.stores ∧ (σ.submit c d e q).traces = σ.traces := by
  rcases submit_cases c d e q σ with ⟨-, h⟩ | ⟨-, _, _, h, -⟩ <;> rw [h] <;> exact ⟨rfl, rfl⟩

/-- **So is every request.** -/
lemma serves_performs (hs : Serves c r σ σ') :
    r.access? σ = none ∧ (∀ d, Spares d σ σ')
      ∨ ∃ d a, r.access? σ = some (d, a) ∧ Performs c d a σ σ' := by
  cases r with
  | op op => exact step_performs hs
  | startAsynchron d q =>
      obtain rfl := hs
      obtain ⟨hstores, htraces⟩ := share_frame σ q
      have henter : Performs c d .enter σ
          ((σ.share q).2.put (Statechart.enter c ((σ.share q).2.world d 0))) :=
        performs_put hstores htraces (files_enter _).dataId (congrFun hstores d)
          (congrArg Obs.seen (congrFun htraces d))
          ⟨0, returns_bind.mpr ⟨⟨⟩, _, returns_modify.mpr rfl, returns_pure.mpr ⟨rfl, rfl⟩⟩⟩
      obtain ⟨hstores', htraces'⟩ := submit_frame (c := c) (d := d)
        ((σ.share q).2.put (Statechart.enter c ((σ.share q).2.world d 0))) none (σ.share q).1
      exact Or.inr ⟨d, .enter, rfl, henter.congr rfl rfl hstores' htraces'⟩
  | dispatchAsynchron d e q =>
      obtain rfl := hs
      obtain ⟨hstores, htraces⟩ := share_frame σ q
      obtain ⟨hstores', htraces'⟩ := submit_frame (c := c) (d := d) (σ.share q).2 e (σ.share q).1
      exact Or.inl ⟨rfl, fun d => Spares.of_eq (congrFun (hstores'.trans hstores) d)
        (congrFun (htraces'.trans htraces) d)⟩
  | cancelTimeout entry =>
      obtain ⟨-, rfl⟩ := hs
      have htraces : (cancelTimeout entry σ).traces = Function.update σ.traces entry.data
          (.invalidated entry.id :: σ.traces entry.data) := rfl
      refine Or.inl ⟨rfl, fun d => ⟨rfl, ?_⟩⟩
      by_cases hd : d = entry.data
      · subst hd
        rw [htraces, Function.update_self]
        rfl
      · rw [htraces, Function.update_of_ne hd]
  | shutdown =>
      obtain rfl := hs
      refine Or.inl ⟨rfl, fun d => Spares.of_eq ?_ ?_⟩ <;> unfold System.shutdown <;> split <;> rfl
  | terminate =>
      obtain ⟨-, rfl⟩ := hs
      exact Or.inl ⟨rfl, fun d => Spares.of_eq rfl rfl⟩

/-! ### All steps -/

omit [Inhabited P] in
/-- The access is the same without the timers. -/
lemma Reflects.performs (hc : c.Unaware) (h : Reflects d σ v) (hp : Performs c d a σ σ') :
    ∃ o v', Returned (fun n => Statechart.access c n a) v o v' ∧ Reflects d σ' v' := by
  obtain ⟨w, o, w', hw, hseen, ⟨n, ha⟩, hdata, htrace⟩ := hp.access
  have htwin : w.Twin [] [] { v with param := w.param } := by
    refine ⟨?_, rfl, Obs.seen v.trace, ?_, ?_⟩
    · rw [hw]
      exact h.data
    · rw [hseen, h.seen, List.append_nil]
    · rw [List.append_nil]
  obtain ⟨v', hv', hleft⟩ := Statechart.simulates_access hc n a _ _ _ _ htwin ha
  obtain ⟨k, hk, hk'⟩ := hleft.seen
  have hreflects : Reflects d σ' v' := by
    refine ⟨?_, ?_⟩
    · rw [hdata]
      exact hleft.data
    · rw [htrace, hk, hk']
  obtain ⟨v₁, hv₁, hsame⟩ := Statechart.access_param hv'
  exact ⟨o, v₁, ⟨n, hv₁⟩, by rw [hreflects.data, hsame.1], by rw [hreflects.seen, hsame.2]⟩

omit [DecidableEq S] [Inhabited P] in
lemma Reflects.spares (h : Reflects d σ v) (hs : Spares d σ σ') : Reflects d σ' v :=
  ⟨hs.data.trans h.data, hs.seen.trans h.seen⟩

/-- What is left of a metadata is what the accesses to it leave. -/
lemma Track.reflects (hc : c.Unaware) (h : Track c l σ σ') (hv : Reflects d σ v) :
    ∃ os v', Statechart.Accesses c (accesses d l) os v v' ∧ Reflects d σ' v' := by
  induction h with
  | refl σ => exact ⟨[], v, ⟨rfl, rfl⟩, hv⟩
  | @step l σ σ₁ σ' r hl hr ih =>
      obtain ⟨os, v₁, ha, hv₁⟩ := ih hv
      rw [accesses_snoc]
      rcases serves_performs hr with ⟨hnone, hs⟩ | ⟨d', a, hsome, hp⟩
      · rw [hnone]
        exact ⟨os, v₁, by simpa using ha, hv₁.spares (hs d)⟩
      rw [hsome]
      by_cases hd : d' = d
      · subst hd
        obtain ⟨o, v', hv', hr'⟩ := hv₁.performs hc hp
        exact ⟨os ++ [o], v', by simpa using ha.snoc hv', hr'⟩
      · exact ⟨os, v₁, by simpa [hd] using ha, hv₁.spares (hp.others d (Ne.symm hd))⟩

/-- **Every metadata is used in sequence.** Whatever calls the clients make on however many
metadata, synchronous or not, and however they alternate with the expiry of timers, the worker, the
cancelling of entries and the shutdown: what a session leaves of a metadata, timers apart, and all
that its clients have seen of it, in that order, is what the accesses to it leave when they are made
one after the other on a metadata that nobody else uses. -/
theorem sequential (hc : c.Unaware) (h : Track c l σ σ') (d p : ℕ) :
    ∃ os v, Statechart.Accesses c (accesses d l) os (σ.world d p) v
      ∧ v.data.untimed = (σ'.stores d).untimed ∧ Obs.seen v.trace = Obs.seen (σ'.traces d) := by
  obtain ⟨os, v, ha, hv⟩ := h.reflects hc (v := σ.world d p) ⟨rfl, rfl⟩
  exact ⟨os, v, ha, hv.data.symm, hv.seen.symm⟩

end System

/-! ### An instance -/

namespace Errand

/-- A computed step, with the request it serves. -/
lemma track_exec {l : List (Request St Event × System St Tr Event ℕ)}
    {τ σ σ' : System St Tr Event ℕ} (h : System.Track chart l τ σ) (op : Op St Event)
    (he : System.exec chart 20 σ op = some σ') : System.Track chart (l ++ [(.op op, σ)]) τ σ' :=
  .step _ h (System.step_of_exec he)

set_option maxRecDepth 4000 in
/-- Two metadata: one is started asynchronously, the other by a call before the worker comes. -/
lemma track_pair : ∃ l σ, System.Track chart l (System.fresh (fun _ => 0) 2) σ
    ∧ System.accesses 0 l = [.enter, .visit (.call (.dispatch none 0))]
    ∧ System.accesses 1 l
      = [.visit (.call (.start 0)), .visit (.call (.dispatch (some (.event "go")) 0))]
    ∧ (σ.stores 0).isActive .a = true ∧ (σ.stores 1).isActive .rest = true := by
  have h₁ := System.Track.step (c := chart) (.startAsynchron 0 (.given (some 0)))
    (.refl (System.fresh (fun _ => 0) 2)) rfl
  have h₂ := track_exec h₁ (.start 1 (some 1)) rfl
  have h₃ := track_exec h₂ .work rfl
  have h₄ := track_exec h₃ (.dispatch 1 (some (.event "go")) (some 1)) rfl
  exact ⟨_, _, h₄, rfl, rfl, rfl, rfl⟩

/-- The metadata that is started asynchronously, as if it were alone. -/
theorem sequential_pair : ∃ l σ, System.Track chart l (System.fresh (fun _ => 0) 2) σ
    ∧ System.accesses 0 l = [.enter, .visit (.call (.dispatch none 0))]
    ∧ ∃ os v, Statechart.Accesses chart [.enter, .visit (.call (.dispatch none 0))] os
        ((System.fresh (fun _ => 0) 2).world 0 0) v
      ∧ v.data.untimed = (σ.stores 0).untimed ∧ (σ.stores 0).isActive .a = true := by
  obtain ⟨l, σ, h, hl, -, ha, -⟩ := track_pair
  obtain ⟨os, v, hv, hdata, -⟩ := System.sequential unaware h 0 0
  exact ⟨l, σ, h, hl, os, v, hl ▸ hv, hdata, ha⟩

end Errand

end CppStatecharts
