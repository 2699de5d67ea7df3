import CppStatecharts.Library.Comp

/-!
Simulation between two partial stateful computations: a relational counterpart of `Keeps`.

* `Simulates B m m'`: whatever `m` returns from a state, `m'` returns from every state that `B`
  relates to it, and the states they leave are related again.
* `simulates_bind`, `simulates_ite`, `simulates_forM`, `simulates_anyM`: the program formers;
  `simulates_peek_bind` for a program that goes on with what it has read.
* `Simulates.returned`: the same for families indexed by fuel.
-/

namespace CppStatecharts

variable {σ τ α β ι : Type} {B : σ → τ → Prop}

/-- `m'` does what `m` does, up to `B`. -/
def Simulates (B : σ → τ → Prop) (m : Comp σ α) (m' : Comp τ α) : Prop :=
  ∀ w v a w', B w v → Returns m w a w' → ∃ v', Returns m' v a v' ∧ B w' v'

lemma simulates_failure {m' : Comp τ α} : Simulates B (failure : Comp σ α) m' :=
  fun _ _ _ _ _ h => absurd h (by simp)

lemma simulates_pure (a : α) : Simulates B (pure a : Comp σ α) (pure a : Comp τ α) := by
  intro w v b w' hB h
  obtain ⟨rfl, rfl⟩ := returns_pure.mp h
  exact ⟨v, returns_pure.mpr ⟨rfl, rfl⟩, hB⟩

/-- A part that related states agree on is read on both sides. -/
lemma simulates_peek {f : σ → α} {g : τ → α} (h : ∀ w v, B w v → f w = g v) :
    Simulates B (peek f) (peek g) := by
  intro w v a w' hB hm
  obtain ⟨rfl, rfl⟩ := returns_peek.mp hm
  exact ⟨v, returns_peek.mpr ⟨h _ v hB, rfl⟩, hB⟩

lemma simulates_modify {f : σ → σ} {g : τ → τ} (h : ∀ w v, B w v → B (f w) (g v)) :
    Simulates B (modify f) (modify g) := by
  intro w v u w' hB hm
  obtain rfl := returns_modify.mp hm
  exact ⟨g v, returns_modify.mpr rfl, h w v hB⟩

lemma simulates_bind {m : Comp σ α} {m' : Comp τ α} {f : α → Comp σ β} {f' : α → Comp τ β}
    (hm : Simulates B m m') (hf : ∀ a, Simulates B (f a) (f' a)) :
    Simulates B (m >>= f) (m' >>= f') := by
  intro w v b w' hB h
  obtain ⟨a, w₁, h₁, h₂⟩ := returns_bind.mp h
  obtain ⟨v₁, h₁', hB₁⟩ := hm w v a w₁ hB h₁
  obtain ⟨v', h₂', hB'⟩ := hf a w₁ v₁ b w' hB₁ h₂
  exact ⟨v', returns_bind.mpr ⟨a, v₁, h₁', h₂'⟩, hB'⟩

lemma simulates_ite {p : Prop} [Decidable p] {m₁ m₂ : Comp σ α} {m₁' m₂' : Comp τ α}
    (h₁ : Simulates B m₁ m₁') (h₂ : Simulates B m₂ m₂') :
    Simulates B (if p then m₁ else m₂) (if p then m₁' else m₂') := by
  by_cases hp : p
  · simpa [hp] using h₁
  · simpa [hp] using h₂

/-- What was read is known to the rest of the program. -/
lemma simulates_peek_bind {f : σ → α} {g : τ → α} {k : α → Comp σ β} {k' : α → Comp τ β}
    (p : α → Prop) (h : ∀ w v, B w v → f w = g v ∧ p (f w))
    (hk : ∀ a, p a → Simulates B (k a) (k' a)) : Simulates B (peek f >>= k) (peek g >>= k') := by
  intro w v b w' hB hm
  obtain ⟨a, w₁, ha, hb⟩ := returns_bind.mp hm
  obtain ⟨rfl, rfl⟩ := returns_peek.mp ha
  obtain ⟨v', hv, hB'⟩ := hk _ (h w₁ v hB).2 w₁ v b w' hB hb
  exact ⟨v', returns_bind.mpr ⟨_, v, returns_peek.mpr ⟨(h w₁ v hB).1, rfl⟩, hv⟩, hB'⟩

lemma simulates_forM {f : ι → Comp σ PUnit} {f' : ι → Comp τ PUnit} :
    ∀ {l : List ι}, (∀ i ∈ l, Simulates B (f i) (f' i)) → Simulates B (l.forM f) (l.forM f')
  | [], _ => simulates_pure _
  | _ :: _, h => simulates_bind (h _ List.mem_cons_self) fun _ =>
      simulates_forM fun i hi => h i (List.mem_cons_of_mem _ hi)

lemma simulates_anyM {f : ι → Comp σ Bool} {f' : ι → Comp τ Bool} :
    ∀ {l : List ι}, (∀ i ∈ l, Simulates B (f i) (f' i)) → Simulates B (l.anyM f) (l.anyM f')
  | [], _ => simulates_pure _
  | _ :: _, h => simulates_bind (h _ List.mem_cons_self) fun b => by
      cases b
      · exact simulates_anyM fun i hi => h i (List.mem_cons_of_mem _ hi)
      · exact simulates_pure _

lemma Simulates.returned {f : ℕ → Comp σ α} {f' : ℕ → Comp τ α}
    (h : ∀ n, Simulates B (f n) (f' n)) {w w' : σ} {v : τ} {a : α} (hB : B w v)
    (hr : Returned f w a w') : ∃ v', Returned f' v a v' ∧ B w' v' := by
  obtain ⟨n, hn⟩ := hr
  obtain ⟨v', hv, hB'⟩ := h n w v a w' hB hn
  exact ⟨v', ⟨n, hv⟩, hB'⟩

end CppStatecharts
