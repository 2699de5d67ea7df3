import CppStatecharts.Refinement.Nested

/-!
`Statechart::start` on a metadata that was used before.

* `Obs.seen`: the observations a client can make: the calls of its actions and observers.
* `World.Twin l₀ l₁`: worlds with the same parameter, and with the same metadata apart from the
  timers, in which the client has seen the same since it saw `l₀` in the one and `l₁` in the other.
* `similar_twin`: the methods do the same in both.
* `Statechart.forgotten_by_start`: a chart that is started works as if on a new metadata.
-/

namespace CppStatecharts

variable {S T E P : Type}

/-- The client is told: one of its actions or of its observers is called. -/
def Obs.isSeen : Obs S T → Bool
  | .activated _ | .deactivated _ | .entry _ | .doing _ | .exit _ | .effect _ => true
  | _ => false

/-- What the client was told. -/
def Obs.seen (l : List (Obs S T)) : List (Obs S T) := l.filter Obs.isSeen

namespace World

variable {l₀ l₁ : List (Obs S T)} {w w' v v' : World S T E P} {o o' : Obs S T} {s : S}

/-- Apart from the timers the client cannot tell the worlds apart; it has seen the same since. -/
structure Twin (l₀ l₁ : List (Obs S T)) (w v : World S T E P) : Prop where
  data : w.data.untimed = v.data.untimed
  param : w.param = v.param
  seen : ∃ l, Obs.seen w.trace = l ++ l₀ ∧ Obs.seen v.trace = l ++ l₁

/-- The client is not told of the change, which concerns the timers. -/
structure Hides (w w' : World S T E P) : Prop where
  data : w'.data.untimed = w.data.untimed
  param : w'.param = w.param
  trace : w.Adds (fun o => o.isSeen = false) w'

lemma Hides.seen (h : w.Hides w') : Obs.seen w'.trace = Obs.seen w.trace := by
  obtain ⟨l, hl, hnot⟩ := h.trace
  have hnil : l.filter Obs.isSeen = [] :=
    List.filter_eq_nil_iff.mpr fun o ho => by rw [hnot o ho]; exact Bool.false_ne_true
  rw [hl, Obs.seen, List.filter_append, hnil, List.nil_append]
  rfl

namespace Twin

lemma hides (h : w.Twin l₀ l₁ v) (hw : w.Hides w') (hv : v.Hides v') : w'.Twin l₀ l₁ v' := by
  obtain ⟨l, hl₀, hl₁⟩ := h.seen
  refine ⟨hw.data.trans (h.data.trans hv.data.symm), hw.param.trans (h.param.trans hv.param.symm),
    l, hw.seen.trans hl₀, hv.seen.trans hl₁⟩

lemma onData (h : w.Twin l₀ l₁ v) {f : Metadata S → Metadata S}
    (hf : ∀ m, (f m).untimed = f m.untimed) : (w.onData f).Twin l₀ l₁ (v.onData f) := by
  refine { h with data := ?_ }
  calc (f w.data).untimed = f w.data.untimed := hf _
    _ = f v.data.untimed := by rw [h.data]
    _ = (f v.data).untimed := (hf _).symm

/-- The same was observed on both sides. -/
lemma log (h : w.Twin l₀ l₁ v) (o : Obs S T) : (w.log o).Twin l₀ l₁ (v.log o) := by
  obtain ⟨l, hl₀, hl₁⟩ := h.seen
  refine { h with seen := ?_ }
  unfold Obs.seen at hl₀ hl₁ ⊢
  rw [trace_log, trace_log, List.filter_cons, List.filter_cons, hl₀, hl₁]
  split
  · exact ⟨o :: l, rfl, rfl⟩
  · exact ⟨l, rfl, rfl⟩

/-- The metadata is reset, whatever it was. -/
lemma reset (hp : w.param = v.param)
    (hs : ∃ l, Obs.seen w.trace = l ++ l₀ ∧ Obs.seen v.trace = l ++ l₁) :
    ((w.onData fun _ => .reset).log .reset).Twin l₀ l₁ ((v.onData fun _ => .reset).log .reset) := by
  have hreset : (w.onData fun _ => .reset).Twin l₀ l₁ (v.onData fun _ => .reset) := ⟨rfl, hp, hs⟩
  exact hreset.log _

/-- Something was observed that the client is not told of. -/
lemma log_hidden (h : w.Twin l₀ l₁ v) (ho : o.isSeen = false) (ho' : o'.isSeen = false) :
    (w.log o).Twin l₀ l₁ (v.log o') :=
  h.hides ⟨rfl, rfl, Adds.of_cons rfl ho⟩ ⟨rfl, rfl, Adds.of_cons rfl ho'⟩

lemma perform (h : w.Twin l₀ l₁ v) (o : Obs S T) {a : Option (Action S P)}
    (ha : ∀ f, a = some f → f.Unaware) : (w.perform o a).Twin l₀ l₁ (v.perform o a) := by
  cases a with
  | none => exact h
  | some f =>
      have hf := ha f rfl
      have hnext : ({ w with data := (f w.data w.param).1, param := (f w.data w.param).2 }).Twin
          l₀ l₁ { v with data := (f v.data v.param).1, param := (f v.data v.param).2 } := by
        refine ⟨?_, ?_, h.seen⟩
        · rw [h.param]
          exact hf.data _ _ _ h.data
        · rw [h.param]
          exact hf.param _ _ _ h.data
      exact hnext.log o

variable [DecidableEq S] {c : Chart S T E P}

lemma modify (h : w.Twin l₀ l₁ v) {f : StateRuntimedata S → StateRuntimedata S}
    (hf : ∀ d, (f d).mapTimeouts (fun _ => []) = f (d.mapTimeouts fun _ => [])) :
    (w.onData (·.modify s f)).Twin l₀ l₁ (v.onData (·.modify s f)) :=
  h.onData fun _ => Metadata.mapTimeouts_modify hf

lemma activateData (h : w.Twin l₀ l₁ v) :
    (c.activateData s w).Twin l₀ l₁ (c.activateData s v) :=
  (h.onData (f := (·.activate (c.context s) s)) fun _ => Metadata.mapTimeouts_activate rfl).log _

omit [DecidableEq S] in
lemma getData (h : w.Twin l₀ l₁ v) (s : S) :
    (w.data.getData s).isSome = (v.data.getData s).isSome := by
  have hs := congrArg (fun m : Metadata S => (m.getData s).isSome) h.data
  simpa only [Metadata.untimed, Metadata.getData_mapTimeouts, Option.isSome_map] using hs

lemma deactivateData (h : w.Twin l₀ l₁ v) :
    (c.deactivateData s w).Twin l₀ l₁ (c.deactivateData s v) := by
  have hdata := h.getData s
  have honData : (w.onData (·.deactivate (c.kind s).isHistory s)).Twin l₀ l₁
      (v.onData (·.deactivate (c.kind s).isHistory s)) :=
    h.onData fun _ => Metadata.mapTimeouts_deactivate
  unfold Chart.deactivateData
  cases hw : w.data.getData s with
  | none =>
      rw [hw, Option.isSome_none, eq_comm, Option.isSome_eq_false_iff, Option.isNone_iff_eq_none]
        at hdata
      rw [hdata]
      exact h
  | some d =>
      rw [hw, Option.isSome_some, eq_comm, Option.isSome_iff_exists] at hdata
      obtain ⟨d', hd'⟩ := hdata
      rw [hd']
      simp only
      split
      · exact honData
      · exact honData.log _

end Twin

end World

variable [DecidableEq S] {c : Chart S T E P} {w w' v v' : World S T E P} {s : S}
variable {l₀ l₁ : List (Obs S T)}

omit [DecidableEq S] in
lemma hides_cancelTimeouts : w.Hides (Chart.cancelTimeouts s w) :=
  ⟨congrArg Metadata.untimed data_cancelTimeouts, frame_cancelTimeouts.2.1,
    adds_cancelTimeouts fun _ => rfl⟩

lemma hides_scheduleTimeouts : w.Hides (c.scheduleTimeouts s w) :=
  ⟨Metadata.untimed_eq_of_agree (agree_scheduleTimeouts c w s), frame_scheduleTimeouts.1,
    adds_scheduleTimeouts fun _ _ _ => rfl⟩

/-- **Timers make no difference to the methods.** -/
lemma similar_twin (hc : c.Unaware) : c.Similar (World.Twin l₀ l₁) where
  isActive s h := by
    have hs := congrArg (Metadata.isActive · s) h.data
    simpa only [Metadata.untimed, Metadata.isActive_mapTimeouts] using hs
  current s h := by
    have hs := congrArg (Metadata.current · s) h.data
    simpa only [Metadata.untimed, Metadata.current_mapTimeouts] using hs
  stateset s h := by
    have hs := congrArg (Metadata.stateset · s) h.data
    simpa only [Metadata.untimed, Metadata.stateset_mapTimeouts] using hs
  isSome s h := h.getData s
  guardHolds t h := by
    unfold Transition.guardHolds
    split
    · rfl
    · rw [h.param]
      exact hc.guard ‹_› _ _ _ h.data
  triggered t e h := by
    unfold Transition.triggered
    split
    · rfl
    · rw [h.param, hc.equals _ _ _ _ _ h.data]
  fire _ h := h.log_hidden rfl rfl
  fired _ _ h := h.log_hidden rfl rfl
  fallThrough _ _ h := h.log _
  entering _ h := h.log _
  entered _ h := h.log _
  effect _ h := h.perform _ fun _ => hc.actions.effect
  entry _ h := h.perform _ fun _ => hc.actions.entry
  doing _ h := h.perform _ fun _ => hc.actions.doing
  exit _ h := h.perform _ fun _ => hc.actions.exit
  activateData _ h := h.activateData
  scheduleTimeouts _ h _ := h.hides hides_scheduleTimeouts hides_scheduleTimeouts
  leave _ h _ := (h.hides hides_cancelTimeouts hides_cancelTimeouts).deactivateData
  registerRegion n r h := h.onData fun m => by
    rw [Metadata.untimed, Metadata.mapTimeouts_modify fun d => ?_,
      Metadata.mapTimeouts_createRuntimedata rfl]
    · rfl
    by_cases hr : r ∈ d.stateset <;> simp [StateRuntimedata.mapTimeouts, hr]
  clearStateset _ h := h.modify fun _ => rfl
  clearCurrent _ h := h.modify fun _ => rfl
  storeChain _ _ h := h.modify fun _ => rfl

namespace Statechart

variable {a : Visit S E P} {l : List (Visit S E P)} {o : Outcome} {os : List Outcome} {p : P}

/-- What happened to the metadata before is of no importance once the chart is entered. -/
lemma twin_enter (hp : w.param = v.param)
    (hs : ∃ l, Obs.seen w.trace = l ++ l₀ ∧ Obs.seen v.trace = l ++ l₁) :
    (enter c w).Twin l₀ l₁ (enter c v) := by
  have hreset := World.Twin.reset hp hs
  unfold enter
  split
  · exact hreset.activateData
  · exact hreset.activateData.activateData

lemma twin_start (hc : c.Unaware) {n : ℕ} (hp : w.param = v.param)
    (h : Returns (start c n) w o w') :
    ∃ v', Returns (start c n) v o v' ∧ w'.Twin (Obs.seen w.trace) (Obs.seen v.trace) v' := by
  obtain ⟨⟨⟩, w₁, h₁, h₂⟩ := returns_bind.mp h
  obtain rfl := returns_modify.mp h₁
  obtain ⟨v', hv, ht⟩ := (similar_twin hc).dispatch n none _ _ _ _ (twin_enter hp ⟨[], rfl, rfl⟩) h₂
  exact ⟨v', returns_bind.mpr ⟨⟨⟩, _, returns_modify.mpr rfl, hv⟩, ht⟩

/-- Every visit is the same in both worlds. -/
lemma simulates_visit (hc : c.Unaware) (n : ℕ) (a : Visit S E P) :
    Simulates (World.Twin l₀ l₁) (visit c n a) (visit c n a) := by
  have hparam : ∀ p, Simulates (World.Twin l₀ l₁) (modify fun w => { w with param := p })
      (modify fun w : World S T E P => { w with param := p }) := fun p =>
    simulates_modify fun _ _ h => ⟨h.data, rfl, h.seen⟩
  cases a with
  | call a =>
      cases a with
      | start p =>
          exact simulates_bind (hparam p) fun _ => simulates_bind
            (simulates_modify fun _ _ h => twin_enter h.param h.seen) fun _ =>
              (similar_twin hc).dispatch n none
      | dispatch e p =>
          exact simulates_bind (hparam p) fun _ => (similar_twin hc).dispatch n e
  | restoreState s p =>
      refine simulates_bind (hparam p) fun _ => simulates_bind ?_ fun b => simulates_pure _
      refine simulates_bind (simulates_peek fun w v h => (similar_twin hc).isActive c.root h)
        fun b => simulates_ite (simulates_pure _) ?_
      refine simulates_bind (simulates_modify fun _ _ h => World.Twin.reset h.param h.seen) fun _ =>
        simulates_bind ?_ fun _ => simulates_pure _
      exact simulates_forM fun x _ => simulates_bind (((similar_twin hc).methods n).activate x)
        fun _ => simulates_pure _

lemma Serves.twin (hc : c.Unaware) (h : w.Twin l₀ l₁ v) (hs : Serves c l os w w') :
    ∃ v', Serves c l os v v' ∧ w'.Twin l₀ l₁ v' := by
  induction l generalizing w v os with
  | nil =>
      obtain ⟨rfl, rfl⟩ := hs
      exact ⟨v, ⟨rfl, rfl⟩, h⟩
  | cons a l ih =>
      obtain ⟨o, os', w₁, rfl, ha, hs⟩ := hs
      obtain ⟨v₁, hv₁, h₁⟩ := Simulates.returned (fun n => simulates_visit hc n a) h ha
      obtain ⟨v', hv', h'⟩ := ih h₁ hs
      exact ⟨v', ⟨o, os', v₁, rfl, hv₁, hv'⟩, h'⟩

/-- **A start forgets everything.** Whatever the metadata was used for before, with whatever timers,
histories and shutdown: after a `start`, any further requests have the same outcomes as on every
other metadata, the client's actions and observers are called in the same order, and parameter and
metadata are the same, apart from the timers. -/
theorem forgotten_by_start (hc : c.Unaware) (v : World S T E P)
    (hs : Serves c (.call (.start p) :: l) os w w') : ∃ v',
      Serves c (.call (.start p) :: l) os v v' ∧ v'.data.untimed = w'.data.untimed
        ∧ v'.param = w'.param ∧ ∃ k, Obs.seen w'.trace = k ++ Obs.seen w.trace
          ∧ Obs.seen v'.trace = k ++ Obs.seen v.trace := by
  obtain ⟨o, os', w₁, rfl, ⟨n, ha⟩, hs⟩ := hs
  obtain ⟨⟨⟩, w₂, h₂, h₁⟩ := returns_bind.mp ha
  obtain rfl := returns_modify.mp h₂
  obtain ⟨v₁, hv₁, ht⟩ := twin_start hc (w := { w with param := p })
    (v := { v with param := p }) rfl h₁
  obtain ⟨v', hv', ht'⟩ := hs.twin hc ht
  refine ⟨v', ⟨o, os', v₁, rfl, ⟨n, ?_⟩, hv'⟩, ht'.data.symm, ht'.param.symm, ht'.seen⟩
  exact returns_bind.mpr ⟨⟨⟩, _, returns_modify.mpr rfl, hv₁⟩

end Statechart

namespace Errand

set_option maxRecDepth 4000 in
/-- The chart is started a second time while it is in `a`, and elsewhere for the first time. -/
theorem forgotten_again : ∃ w w' v', Statechart.Serves chart [.call (.start 0)]
      [.returned true] (World.fresh 0) w
    ∧ w.data.isActive .a = true
    ∧ Statechart.Serves chart [.call (.start 1), .call (.dispatch (some (.event "go")) 5)]
      [.returned true, .returned true] w w'
    ∧ Statechart.Serves chart [.call (.start 1), .call (.dispatch (some (.event "go")) 5)]
      [.returned true, .returned true] (World.fresh 3) v'
    ∧ v'.data.untimed = w'.data.untimed ∧ w'.data.isActive .rest = true := by
  have hserve : ∃ w w', Statechart.Serves chart [.call (.start 0)]
        [.returned true] (World.fresh 0) w
      ∧ w.data.isActive .a = true
      ∧ Statechart.Serves chart [.call (.start 1), .call (.dispatch (some (.event "go")) 5)]
        [.returned true, .returned true] w w'
      ∧ w'.data.isActive .rest = true :=
    ⟨_, _, ⟨_, _, _, rfl, ⟨20, rfl⟩, rfl, rfl⟩, rfl,
      ⟨_, _, _, rfl, ⟨20, rfl⟩, _, _, _, rfl, ⟨20, rfl⟩, rfl, rfl⟩, rfl⟩
  obtain ⟨w, w', hs, ha, hagain, hrest⟩ := hserve
  obtain ⟨v', hv, hdata, -⟩ := Statechart.forgotten_by_start unaware (World.fresh 3) hagain
  exact ⟨w, w', v', hs, ha, hagain, hv, hdata, hrest⟩

end Errand

end CppStatecharts
