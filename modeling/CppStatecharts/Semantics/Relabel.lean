import CppStatecharts.Semantics.Effects

/-!
The timeout entries of a metadata, and clients that do not look at them.

* `Metadata.mapTimeouts`: another list of entries for every state; `Metadata.rename` and
  `Metadata.untimed` change the identifiers of the entries and forget the entries. It goes with
  every write of `Metadata.cpp` (`mapTimeouts_put` to `mapTimeouts_deactivate`).
* `Chart.EveryAction`, `Action.KeepsTimeouts`: what is asked of the client's actions.
* `Chart.Unaware`: the client's callbacks do not depend on the entries of the metadata.
* `Chart.Anonymous`: they do not depend on the identity of the entries; such a callback adds no
  entry (`Action.Anonymous.lists`).
-/

namespace CppStatecharts

variable {S T E P : Type}

/-- The record with other timeout entries. -/
def StateRuntimedata.mapTimeouts (g : List ℕ → List ℕ) (d : StateRuntimedata S) :
    StateRuntimedata S :=
  { d with timeoutEvents := g d.timeoutEvents }

namespace Metadata

/-- The metadata with other timeout entries. -/
def mapTimeouts (g : List ℕ → List ℕ) (m : Metadata S) : Metadata S :=
  ⟨fun x => (m.getData x).map (StateRuntimedata.mapTimeouts g)⟩

/-- The metadata with other identifiers of its entries. -/
def rename (ρ : ℕ → ℕ) (m : Metadata S) : Metadata S := m.mapTimeouts (List.map ρ)

/-- The metadata without its entries: what a client can tell apart. -/
def untimed (m : Metadata S) : Metadata S := m.mapTimeouts fun _ => []

variable {m m' : Metadata S} {s x : S} {g : List ℕ → List ℕ} {ρ ρ' : ℕ → ℕ}

lemma getData_mapTimeouts :
    (m.mapTimeouts g).getData x = (m.getData x).map (StateRuntimedata.mapTimeouts g) := rfl

lemma getData_rename : (m.rename ρ).getData x
    = (m.getData x).map (StateRuntimedata.mapTimeouts (List.map ρ)) := rfl

lemma isActive_mapTimeouts : (m.mapTimeouts g).isActive x = m.isActive x := by
  cases h : m.getData x <;> simp [isActive, getData_mapTimeouts, h, StateRuntimedata.mapTimeouts]

lemma current_mapTimeouts : (m.mapTimeouts g).current x = m.current x := by
  cases h : m.getData x <;> simp [current, getData_mapTimeouts, h, StateRuntimedata.mapTimeouts]

lemma stateset_mapTimeouts : (m.mapTimeouts g).stateset x = m.stateset x := by
  cases h : m.getData x <;> simp [stateset, getData_mapTimeouts, h, StateRuntimedata.mapTimeouts]

lemma timeouts_rename : (m.rename ρ).timeouts x = (m.timeouts x).map ρ := by
  cases h : m.getData x <;>
    simp [timeouts, getData_rename, h, StateRuntimedata.mapTimeouts]

/-- What a client can tell apart does not depend on the entries. -/
lemma untimed_mapTimeouts : (m.mapTimeouts g).untimed = m.untimed := by
  ext x : 1
  rw [untimed, untimed, getData_mapTimeouts, getData_mapTimeouts, getData_mapTimeouts,
    Option.map_map]
  rfl

lemma untimed_eq_of_agree (h : m.Agree m') : m'.untimed = m.untimed := by
  ext x : 1
  obtain ⟨f, hf⟩ := h x
  rw [untimed, untimed, getData_mapTimeouts, getData_mapTimeouts, hf, Option.map_map]
  rfl

/-- Only the identifiers that occur matter. -/
lemma rename_congr (h : ∀ x, ∀ id ∈ m.timeouts x, ρ' id = ρ id) : m.rename ρ' = m.rename ρ := by
  ext x : 1
  rw [getData_rename, getData_rename]
  cases hd : m.getData x with
  | none => rfl
  | some d =>
      have hids : ∀ id ∈ d.timeoutEvents, ρ' id = ρ id := by simpa [timeouts, hd] using h x
      simp [StateRuntimedata.mapTimeouts, List.map_congr_left hids]

/-- The entry is noted down by some state. -/
def Lists (m : Metadata S) (id : ℕ) : Prop := ∃ x, id ∈ m.timeouts x

lemma rename_eq_self (h : ∀ id, m.Lists id → ρ id = id) : m.rename ρ = m := by
  ext x : 1
  rw [getData_rename]
  cases hd : m.getData x with
  | none => rfl
  | some d =>
      have hids : d.timeoutEvents.map ρ = d.timeoutEvents.map fun id => id :=
        List.map_congr_left fun id hid => h id ⟨x, by simpa [timeouts, hd] using hid⟩
      simp [StateRuntimedata.mapTimeouts, hids]

variable [DecidableEq S]

lemma mapTimeouts_put {d : Option (StateRuntimedata S)} : (m.put s d).mapTimeouts g
    = (m.mapTimeouts g).put s (d.map (StateRuntimedata.mapTimeouts g)) := by
  ext x : 1
  rw [getData_mapTimeouts]
  by_cases hx : x = s
  · subst hx
    rw [getData_put_self, getData_put_self]
  · rw [getData_put_of_ne hx, getData_put_of_ne hx, getData_mapTimeouts]

lemma mapTimeouts_modify {f : StateRuntimedata S → StateRuntimedata S}
    (hf : ∀ d, (f d).mapTimeouts g = f (d.mapTimeouts g)) :
    (m.modify s f).mapTimeouts g = (m.mapTimeouts g).modify s f := by
  unfold modify
  rw [getData_mapTimeouts]
  cases h : m.getData s with
  | none => rfl
  | some d => simp [mapTimeouts_put, hf]

lemma mapTimeouts_createRuntimedata (hg : g [] = []) :
    (m.createRuntimedata s).mapTimeouts g = (m.mapTimeouts g).createRuntimedata s := by
  unfold createRuntimedata
  rw [getData_mapTimeouts]
  cases h : m.getData s with
  | none => simp [mapTimeouts_put, StateRuntimedata.mapTimeouts, hg]
  | some d => rfl

lemma mapTimeouts_activate (hg : g [] = []) {p : Option S} :
    (m.activate p s).mapTimeouts g = (m.mapTimeouts g).activate p s := by
  have h : (m.put s (some (m.activated s))).mapTimeouts g
      = (m.mapTimeouts g).put s (some ((m.mapTimeouts g).activated s)) := by
    rw [mapTimeouts_put]
    cases hd : m.getData s <;>
      simp [activated, getData_mapTimeouts, hd, StateRuntimedata.mapTimeouts, hg]
  cases p with
  | none => rw [activate_eq, activate_eq, h]
  | some p => rw [activate_eq, activate_eq, ← h]; exact mapTimeouts_modify fun _ => rfl

lemma mapTimeouts_deactivate {b : Bool} :
    (m.deactivate b s).mapTimeouts g = (m.mapTimeouts g).deactivate b s := by
  cases b
  · simp [deactivate, mapTimeouts_put]
  · exact mapTimeouts_modify fun _ => rfl

end Metadata

/-! ### Clients that cannot tell identifiers apart -/

/-- Every action of the client satisfies `Q`. -/
structure Chart.EveryAction (c : Chart S T E P) (Q : Action S P → Prop) : Prop where
  entry : ∀ {s f}, c.entryAction s = some f → Q f
  doing : ∀ {s f}, c.doAction s = some f → Q f
  exit : ∀ {s f}, c.exitAction s = some f → Q f
  effect : ∀ {t f}, c.action t = some f → Q f

lemma Chart.EveryAction.mono {c : Chart S T E P} {Q Q' : Action S P → Prop}
    (h : c.EveryAction Q)
    (hQ : ∀ f, Q f → Q' f) : c.EveryAction Q' :=
  ⟨fun hf => hQ _ (h.entry hf), fun hf => hQ _ (h.doing hf), fun hf => hQ _ (h.exit hf),
    fun hf => hQ _ (h.effect hf)⟩

/-- The action leaves the timeout entries of the metadata alone. -/
def Action.KeepsTimeouts (f : Action S P) : Prop := ∀ m p x, (f m p).1.timeouts x = m.timeouts x

/-- What the action does does not depend on the timeout entries of the metadata, and it leaves them
alone. -/
structure Action.Unaware (f : Action S P) : Prop where
  keeps : f.KeepsTimeouts
  param : ∀ m m' p, m.untimed = m'.untimed → (f m p).2 = (f m' p).2
  data : ∀ m m' p, m.untimed = m'.untimed → (f m p).1.untimed = (f m' p).1.untimed

/-- The guards, the actions and the comparison of events do not depend on the timeout entries of the
metadata. -/
structure Chart.Unaware (c : Chart S T E P) : Prop where
  actions : c.EveryAction Action.Unaware
  guard : ∀ {t g}, c.guard t = some g → ∀ m m' p, m.untimed = m'.untimed → g m p = g m' p
  equals : ∀ ev e m m' p, m.untimed = m'.untimed → c.equals ev e m p = c.equals ev e m' p

/-- What the action does does not depend on the identity of the timeout entries: it is the same when
each entry is replaced by another, different ones by different ones. -/
structure Action.Anonymous (f : Action S P) : Prop where
  param : ∀ ρ m p, Set.InjOn ρ {id | m.Lists id} → (f (m.rename ρ) p).2 = (f m p).2
  data : ∀ ρ m p, Set.InjOn ρ {id | m.Lists id} → (f (m.rename ρ) p).1 = (f m p).1.rename ρ

/-- The guards, the actions and the comparison of events do not depend on the identity of the
timeout entries of the metadata. -/
structure Chart.Anonymous (c : Chart S T E P) : Prop where
  actions : c.EveryAction Action.Anonymous
  guard : ∀ {t g}, c.guard t = some g → ∀ ρ m p, Set.InjOn ρ {id | m.Lists id} →
    g (m.rename ρ) p = g m p
  equals : ∀ ev e ρ m p, Set.InjOn ρ {id | m.Lists id} →
    c.equals ev e (m.rename ρ) p = c.equals ev e m p

/-- An entry that such an action notes down was noted down before. -/
lemma Action.Anonymous.lists {f : Action S P} (hf : f.Anonymous) {m : Metadata S} {p : P} {id : ℕ}
    (h : (f m p).1.Lists id) : m.Lists id := by
  by_contra hno
  -- the entry gets another name, which only a metadata that lists it could tell
  have hρ : ∀ i, m.Lists i → Function.update (fun i => i) id (id + 1) i = i := fun i hi =>
    Function.update_of_ne (fun heq : i = id => hno (by rwa [heq] at hi)) _ _
  have hinj : Set.InjOn (Function.update (fun i => i) id (id + 1)) {i | m.Lists i} :=
    fun i hi j hj hij => by rwa [hρ i hi, hρ j hj] at hij
  have hdata := hf.data _ m p hinj
  rw [Metadata.rename_eq_self hρ] at hdata
  obtain ⟨x, hx⟩ := h
  have hlist := congrArg (Metadata.timeouts · x) hdata
  simp only [Metadata.timeouts_rename] at hlist
  have hid : Function.update (fun i => i) id (id + 1) id = id :=
    (List.map_inj_left.mp (hlist.symm.trans (List.map_id' _).symm)) id hx
  simp at hid

end CppStatecharts
