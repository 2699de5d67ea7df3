import Mathlib.Order.Basic
import Mathlib.Order.Monotone.Basic
import Mathlib.Tactic.Common

/-!
Partial stateful computations, the language in which imperative code with unbounded recursion is
embedded.

* `Comp σ α`: a computation on states `σ` with result in `α` that need not return;
  `Returns m w a w'` says that `m` started in `w` returns `a` and leaves `w'`, and the
  `returns_*` lemmas invert it along the program text.
* **The order of approximation**: `m ≤ m'` when `m'` returns whatever `m` returns
  (`le_iff`), with `monotone_bind`, `monotone_forM` and `monotone_anyM` for programs that
  mention a recursive call.
* **Loops**: `forM_induction` carries a fact along the processed prefix of a list,
  `anyM_cases` splits a search at the element that answers.
* **Program relations**: `Keeps R m` says that every run of `m` relates its first state to its
  last by `R`; for a reflexive and transitive `R` it is closed under all program formers.
* **Convergence**: `Converges f w` says that a family indexed by fuel returns from `w` once the
  fuel is large enough; `Returned f w a w'` fixes the answer, which is unique for a monotone family
  (`Returned.unique`). A sequence converges when its parts do (`converges_bind_iff`).
* **Places in a loop**: `LoopAt` and `SearchAt` say in which state a loop comes to an element; there
  is where a round has to converge (`converges_forM`, `converges_anyM`) and to keep a relation
  (`rel_forM`, `rel_anyM`).
-/

namespace CppStatecharts

/-- A computation on states `σ` with results in `α` that may fail to return: `none` stands for a
run that does not return. -/
abbrev Comp (σ α : Type) := StateT σ Option α

variable {σ α β ι : Type}

/-- Reads a part of the state. -/
def peek (f : σ → α) : Comp σ α := get >>= fun w => pure (f w)

/-- `m` started in `w` returns `a` and leaves the state `w'`. -/
def Returns (m : Comp σ α) (w : σ) (a : α) (w' : σ) : Prop := m.run w = some (a, w')

/-! ### Inversion along the program text -/

/-- A computation is what it returns. -/
lemma comp_ext {m m' : Comp σ α} (h : ∀ w a w', Returns m w a w' ↔ Returns m' w a w') : m = m' :=
  funext fun w => Option.ext fun r => h w r.1 r.2

lemma Returns.unique {m : Comp σ α} {w w₁ w₂ : σ} {a₁ a₂ : α}
    (h₁ : Returns m w a₁ w₁) (h₂ : Returns m w a₂ w₂) : a₁ = a₂ ∧ w₁ = w₂ := by
  rw [Returns] at h₁ h₂
  rw [h₁] at h₂
  simpa using h₂

@[simp] lemma returns_pure {a b : α} {w w' : σ} :
    Returns (pure a) w b w' ↔ b = a ∧ w' = w := by
  simp [Returns, eq_comm]

@[simp] lemma returns_bind {m : Comp σ α} {f : α → Comp σ β} {w w' : σ} {b : β} :
    Returns (m >>= f) w b w' ↔ ∃ a w₁, Returns m w a w₁ ∧ Returns (f a) w₁ b w' := by
  simp [Returns, Option.bind_eq_some_iff]

@[simp] lemma returns_map {f : α → β} {m : Comp σ α} {w w' : σ} {b : β} :
    Returns (f <$> m) w b w' ↔ ∃ a, b = f a ∧ Returns m w a w' := by
  rw [map_eq_pure_bind, returns_bind]
  constructor
  · rintro ⟨a, w₁, h, h'⟩
    obtain ⟨rfl, rfl⟩ := returns_pure.mp h'
    exact ⟨a, rfl, h⟩
  · rintro ⟨a, rfl, h⟩
    exact ⟨a, w', h, returns_pure.mpr ⟨rfl, rfl⟩⟩

lemma returns_ite {p : Prop} [Decidable p] {m m' : Comp σ α} {w w' : σ} {a : α} :
    Returns (if p then m else m') w a w' ↔ p ∧ Returns m w a w' ∨ ¬ p ∧ Returns m' w a w' := by
  by_cases hp : p <;> simp [hp]

@[simp] lemma exists_punit {p : PUnit → Prop} : (∃ u, p u) ↔ p ⟨⟩ :=
  ⟨fun ⟨_, h⟩ => h, fun h => ⟨⟨⟩, h⟩⟩

@[simp] lemma returns_get {w w₁ w' : σ} : Returns get w w₁ w' ↔ w₁ = w ∧ w' = w := by
  simp [Returns, eq_comm]

@[simp] lemma returns_peek {f : σ → α} {w w' : σ} {a : α} :
    Returns (peek f) w a w' ↔ a = f w ∧ w' = w := by
  simp [Returns, peek, eq_comm]

@[simp] lemma returns_modify {f : σ → σ} {w w' : σ} {u : PUnit} :
    Returns (modify f) w u w' ↔ w' = f w := by
  simp [Returns, eq_comm]

@[simp] lemma returns_modifyGet {f : σ → α × σ} {w w' : σ} {a : α} :
    Returns (modifyGet f) w a w' ↔ a = (f w).1 ∧ w' = (f w).2 := by
  change some (f w) = some (a, w') ↔ _
  rw [Option.some_inj, Prod.ext_iff]
  exact and_congr eq_comm eq_comm

@[simp] lemma returns_failure {w w' : σ} {a : α} : Returns failure w a w' ↔ False :=
  iff_of_false (fun h => nomatch h) id

/-! ### The order of approximation -/

/-- `m'` returns whatever `m` returns. -/
instance : Preorder (Comp σ α) where
  le m m' := ∀ w a w', Returns m w a w' → Returns m' w a w'
  le_refl _ _ _ _ h := h
  le_trans _ _ _ h₁ h₂ w a w' h := h₂ w a w' (h₁ w a w' h)

lemma le_iff {m m' : Comp σ α} :
    m ≤ m' ↔ ∀ w a w', Returns m w a w' → Returns m' w a w' := Iff.rfl

/-- The computation that never returns lies below every computation. -/
lemma failure_le (m : Comp σ α) : failure ≤ m := fun _ _ _ h => absurd h (by simp)

section Monotone

variable {X : Type} [Preorder X]

lemma monotone_bind {F : X → Comp σ α} {G : X → α → Comp σ β}
    (hF : Monotone F) (hG : ∀ a, Monotone fun x => G x a) :
    Monotone fun x => F x >>= G x := by
  intro x y hxy w b w' h
  obtain ⟨a, w₁, h₁, h₂⟩ := returns_bind.mp h
  exact returns_bind.mpr ⟨a, w₁, hF hxy _ _ _ h₁, hG a hxy _ _ _ h₂⟩

lemma monotone_ite {p : Prop} [Decidable p] {F G : X → Comp σ α}
    (hF : Monotone F) (hG : Monotone G) : Monotone fun x => if p then F x else G x := by
  by_cases hp : p
  · simpa [hp] using hF
  · simpa [hp] using hG

lemma monotone_forM {F : X → ι → Comp σ PUnit} (hF : ∀ i, Monotone fun x => F x i) :
    ∀ l : List ι, Monotone fun x => l.forM (F x)
  | [] => monotone_const
  | i :: l => monotone_bind (hF i) fun _ => monotone_forM hF l

lemma monotone_anyM {F : X → ι → Comp σ Bool} (hF : ∀ i, Monotone fun x => F x i) :
    ∀ l : List ι, Monotone fun x => l.anyM (F x)
  | [] => monotone_const
  | i :: l => monotone_bind (hF i) fun b => by
      cases b
      · exact monotone_anyM hF l
      · exact monotone_const

end Monotone

/-! ### Loops -/

@[simp] lemma returns_forM_nil {f : ι → Comp σ PUnit} {w w' : σ} {u : PUnit} :
    Returns (([] : List ι).forM f) w u w' ↔ w' = w := by
  simp [Returns, List.forM, eq_comm]

@[simp] lemma returns_forM_cons {f : ι → Comp σ PUnit} {i : ι} {l : List ι} {w w' : σ}
    {u : PUnit} :
    Returns ((i :: l).forM f) w u w'
      ↔ ∃ w₁, Returns (f i) w ⟨⟩ w₁ ∧ Returns (l.forM f) w₁ ⟨⟩ w' := by
  cases u
  exact returns_bind.trans ⟨fun ⟨_, w₁, h⟩ => ⟨w₁, h⟩, fun ⟨w₁, h⟩ => ⟨⟨⟩, w₁, h⟩⟩

@[simp] lemma returns_anyM_nil {f : ι → Comp σ Bool} {w w' : σ} {b : Bool} :
    Returns (([] : List ι).anyM f) w b w' ↔ b = false ∧ w' = w :=
  returns_pure

@[simp] lemma returns_anyM_cons {f : ι → Comp σ Bool} {i : ι} {l : List ι} {w w' : σ} {b : Bool} :
    Returns ((i :: l).anyM f) w b w'
      ↔ (Returns (f i) w true w' ∧ b = true)
        ∨ ∃ w₁, Returns (f i) w false w₁ ∧ Returns (l.anyM f) w₁ b w' := by
  rw [List.anyM, returns_bind]
  constructor
  · rintro ⟨a, w₁, h₁, h₂⟩
    cases a
    · exact Or.inr ⟨w₁, h₁, h₂⟩
    · obtain ⟨rfl, rfl⟩ := returns_pure.mp h₂
      exact Or.inl ⟨h₁, rfl⟩
  · rintro (⟨h, rfl⟩ | ⟨w₁, h₁, h₂⟩)
    · exact ⟨true, w', h, returns_pure.mpr ⟨rfl, rfl⟩⟩
    · exact ⟨false, w₁, h₁, h₂⟩

/-- A fact about the processed prefix of the list, carried along a loop. -/
lemma forM_induction {f : ι → Comp σ PUnit} (P : List ι → σ → Prop) {l : List ι}
    (step : ∀ pre i post, l = pre ++ i :: post → ∀ w w',
      P pre w → Returns (f i) w ⟨⟩ w' → P (pre ++ [i]) w') {w w' : σ}
    (h : Returns (l.forM f) w ⟨⟩ w') (h₀ : P [] w) : P l w' := by
  have key : ∀ (post pre : List ι) (w : σ), l = pre ++ post → P pre w →
      Returns (post.forM f) w ⟨⟩ w' → P l w' := by
    intro post
    induction post with
    | nil =>
        intro pre w hl hp h
        rw [returns_forM_nil.mp h, hl, List.append_nil]
        exact hp
    | cons i post ih =>
        intro pre w hl hp h
        obtain ⟨w₁, h₁, h₂⟩ := returns_forM_cons.mp h
        exact ih (pre ++ [i]) w₁ (by simp [hl]) (step pre i post hl w w₁ hp h₁) h₂
  exact key l [] w rfl h₀ h

/-- A search either fails on every element, or splits at the element that answers. -/
lemma anyM_cases {f : ι → Comp σ Bool} {l : List ι} {w w' : σ} {b : Bool}
    (h : Returns (l.anyM f) w b w') :
    b = false ∨ ∃ pre i post w₁, l = pre ++ i :: post ∧ b = true
      ∧ Returns (pre.anyM f) w false w₁ ∧ Returns (f i) w₁ true w' := by
  induction l generalizing w with
  | nil => exact Or.inl (returns_anyM_nil.mp h).1
  | cons i l ih =>
      rcases returns_anyM_cons.mp h with ⟨h₁, rfl⟩ | ⟨w₁, h₁, h₂⟩
      · exact Or.inr ⟨[], i, l, w, rfl, rfl, returns_anyM_nil.mpr ⟨rfl, rfl⟩, h₁⟩
      · refine (ih h₂).imp id ?_
        rintro ⟨pre, j, post, w₂, rfl, rfl, hpre, hj⟩
        exact ⟨i :: pre, j, post, w₂, rfl, rfl,
          returns_anyM_cons.mpr (Or.inr ⟨w₁, h₁, hpre⟩), hj⟩

/-- A search made of tests that decide `p`, and change nothing when they fail, runs the first
element that satisfies `p`. -/
lemma anyM_find? {f : ι → Comp σ Bool} {p : ι → Bool} {l : List ι} {w w' : σ} {b : Bool}
    (step : ∀ i ∈ l, ∀ b w', Returns (f i) w b w' → b = p i ∧ (b = false → w' = w))
    (h : Returns (l.anyM f) w b w') :
    l.find? p = none ∧ b = false ∧ w' = w
      ∨ ∃ i ∈ l, l.find? p = some i ∧ b = true ∧ Returns (f i) w true w' := by
  induction l with
  | nil => exact Or.inl ⟨rfl, returns_anyM_nil.mp h⟩
  | cons i l ih =>
      rcases returns_anyM_cons.mp h with ⟨h₁, rfl⟩ | ⟨w₁, h₁, h₂⟩
      · have hp := (step i List.mem_cons_self _ _ h₁).1
        exact Or.inr ⟨i, List.mem_cons_self, List.find?_cons_of_pos hp.symm, rfl, h₁⟩
      · obtain ⟨hp, hw⟩ := step i List.mem_cons_self _ _ h₁
        obtain rfl := hw rfl
        rw [List.find?_cons_of_neg (by simp [← hp])]
        refine (ih (fun j hj => step j (List.mem_cons_of_mem i hj)) h₂).imp id ?_
        rintro ⟨j, hj, hfind⟩
        exact ⟨j, List.mem_cons_of_mem i hj, hfind⟩

/-- A search over programs that change nothing when they answer no stops at the first one that
answers yes. -/
lemma returns_anyM_of_eq {f : ι → Comp σ Bool} {l : List ι} {w w' : σ} {b : Bool}
    (hf : ∀ i, ∀ w w', Returns (f i) w false w' → w' = w) :
    Returns (l.anyM f) w b w'
      ↔ b = false ∧ w' = w ∧ (∀ i ∈ l, Returns (f i) w false w)
        ∨ b = true ∧ ∃ pre i post, l = pre ++ i :: post ∧ (∀ j ∈ pre, Returns (f j) w false w)
          ∧ Returns (f i) w true w' := by
  induction l with
  | nil => simp
  | cons i l ih =>
      rw [returns_anyM_cons]
      constructor
      · rintro (⟨h, rfl⟩ | ⟨w₁, h₁, h₂⟩)
        · exact Or.inr ⟨rfl, [], i, l, rfl, by simp, h⟩
        · obtain rfl := hf i _ _ h₁
          rcases ih.mp h₂ with ⟨rfl, rfl, hall⟩ | ⟨rfl, pre, j, post, rfl, hpre, hj⟩
          · exact Or.inl ⟨rfl, rfl, List.forall_mem_cons.mpr ⟨h₁, hall⟩⟩
          · exact Or.inr ⟨rfl, i :: pre, j, post, rfl, List.forall_mem_cons.mpr ⟨h₁, hpre⟩, hj⟩
      · rintro (⟨rfl, rfl, hall⟩ | ⟨rfl, pre, j, post, hl, hpre, hj⟩)
        · obtain ⟨hi, hall⟩ := List.forall_mem_cons.mp hall
          exact Or.inr ⟨w', hi, ih.mpr (Or.inl ⟨rfl, rfl, hall⟩)⟩
        · cases pre with
          | nil =>
              obtain ⟨rfl, rfl⟩ := List.cons.inj hl
              exact Or.inl ⟨hj, rfl⟩
          | cons i' pre =>
              obtain ⟨rfl, rfl⟩ := List.cons.inj hl
              obtain ⟨hi, hpre⟩ := List.forall_mem_cons.mp hpre
              exact Or.inr ⟨w, hi, ih.mpr (Or.inr ⟨rfl, pre, j, post, rfl, hpre, hj⟩)⟩

/-- A fact carried along the elements of a search that do not answer. -/
lemma anyM_induction {f : ι → Comp σ Bool} (P : σ → Prop) {l : List ι}
    (step : ∀ i ∈ l, ∀ w w', P w → Returns (f i) w false w' → P w') {w w' : σ}
    (h : Returns (l.anyM f) w false w') (h₀ : P w) : P w' := by
  induction l generalizing w with
  | nil => rw [(returns_anyM_nil.mp h).2]; exact h₀
  | cons i l ih =>
      rcases returns_anyM_cons.mp h with ⟨_, hb⟩ | ⟨w₁, h₁, h₂⟩
      · exact absurd hb (by simp)
      · exact ih (fun j hj => step j (List.mem_cons_of_mem i hj)) h₂
          (step i List.mem_cons_self w w₁ h₀ h₁)

/-- A search that fails, made of tests that change nothing when they fail, changes nothing. -/
lemma anyM_eq {f : ι → Comp σ Bool} {l : List ι}
    (step : ∀ i ∈ l, ∀ w w', Returns (f i) w false w' → w' = w) {w w' : σ}
    (h : Returns (l.anyM f) w false w') : w' = w :=
  anyM_induction (· = w) (fun i hi w₁ w₂ hw h => (step i hi w₁ w₂ h).trans hw) h rfl

/-- Such a search fails exactly when each of the tests does. -/
lemma anyM_false_iff {f : ι → Comp σ Bool} {l : List ι}
    (step : ∀ i ∈ l, ∀ w w', Returns (f i) w false w' → w' = w) {w w' : σ} :
    Returns (l.anyM f) w false w' ↔ w' = w ∧ ∀ i ∈ l, Returns (f i) w false w := by
  induction l with
  | nil => simp
  | cons i l ih =>
      rw [returns_anyM_cons]
      constructor
      · rintro (⟨-, hb⟩ | ⟨w₁, h₁, h₂⟩)
        · cases hb
        obtain rfl := step i List.mem_cons_self _ _ h₁
        obtain ⟨rfl, hl⟩ := (ih fun j hj => step j (List.mem_cons_of_mem i hj)).mp h₂
        exact ⟨rfl, List.forall_mem_cons.mpr ⟨h₁, hl⟩⟩
      · rintro ⟨rfl, hl⟩
        obtain ⟨h₁, hl⟩ := List.forall_mem_cons.mp hl
        exact Or.inr ⟨w', h₁, (ih fun j hj => step j (List.mem_cons_of_mem i hj)).mpr ⟨rfl, hl⟩⟩

/-- A search made of tests that change nothing when they fail changes nothing, or runs one element
that answers. -/
lemma anyM_eq_or_mem {f : ι → Comp σ Bool} {l : List ι}
    (step : ∀ i ∈ l, ∀ w w', Returns (f i) w false w' → w' = w) {w w' : σ} {b : Bool}
    (h : Returns (l.anyM f) w b w') : w' = w ∨ ∃ i ∈ l, Returns (f i) w true w' := by
  rcases anyM_cases h with rfl | ⟨pre, i, post, w₁, rfl, -, hpre, hi⟩
  · exact Or.inl (anyM_eq step h)
  · obtain rfl := anyM_eq (fun j hj => step j (List.mem_append_left _ hj)) hpre
    exact Or.inr ⟨i, by simp, hi⟩

/-! ### Relations between the first and the last state of a run -/

/-- Every run of `m` relates its first state to its last by `R`. -/
def Keeps (R : σ → σ → Prop) (m : Comp σ α) : Prop := ∀ w a w', Returns m w a w' → R w w'

section Keeps

variable {R : σ → σ → Prop}

lemma keeps_failure : Keeps R (failure : Comp σ α) := fun _ _ _ h => absurd h (by simp)

lemma keeps_modify {f : σ → σ} (h : ∀ w, R w (f w)) : Keeps R (modify f) := by
  intro w _ w' hm
  rw [returns_modify.mp hm]
  exact h w

variable [Std.Refl R]

lemma keeps_pure (a : α) : Keeps R (pure a : Comp σ α) := by
  intro w _ w' hm
  rw [(returns_pure.mp hm).2]
  exact refl_of R w

lemma keeps_peek (f : σ → α) : Keeps R (peek f : Comp σ α) := by
  intro w _ w' hm
  rw [(returns_peek.mp hm).2]
  exact refl_of R w

variable [IsTrans σ R]

omit [Std.Refl R] in
lemma keeps_bind {m : Comp σ α} {f : α → Comp σ β} (hm : Keeps R m) (hf : ∀ a, Keeps R (f a)) :
    Keeps R (m >>= f) := by
  intro w b w' h
  obtain ⟨a, w₁, h₁, h₂⟩ := returns_bind.mp h
  exact trans_of R (hm w a w₁ h₁) (hf a w₁ b w' h₂)

omit [Std.Refl R] [IsTrans σ R] in
lemma keeps_ite {p : Prop} [Decidable p] {m m' : Comp σ α} (hm : Keeps R m) (hm' : Keeps R m') :
    Keeps R (if p then m else m') := by
  by_cases hp : p
  · simpa [hp] using hm
  · simpa [hp] using hm'

lemma keeps_forM {f : ι → Comp σ PUnit} {l : List ι} (h : ∀ i ∈ l, Keeps R (f i)) :
    Keeps R (l.forM f) := by
  induction l with
  | nil => exact keeps_pure _
  | cons i l ih =>
      exact keeps_bind (h i List.mem_cons_self) fun _ =>
        ih fun j hj => h j (List.mem_cons_of_mem i hj)

lemma keeps_anyM {f : ι → Comp σ Bool} {l : List ι} (h : ∀ i ∈ l, Keeps R (f i)) :
    Keeps R (l.anyM f) := by
  induction l with
  | nil => exact keeps_pure _
  | cons i l ih =>
      refine keeps_bind (h i List.mem_cons_self) fun b => ?_
      cases b
      · exact ih fun j hj => h j (List.mem_cons_of_mem i hj)
      · exact keeps_pure _

lemma rel_foldl {f : σ → ι → σ} (h : ∀ w i, R w (f w i)) (l : List ι) (w : σ) :
    R w (l.foldl f w) := by
  induction l generalizing w with
  | nil => exact refl_of R w
  | cons i l ih => exact trans_of R (h w i) (ih (f w i))

end Keeps

/-! ### Families indexed by fuel -/

/-- With enough fuel, the family `f` returns `a` from `w` and leaves `w'`. -/
def Returned (f : ℕ → Comp σ α) (w : σ) (a : α) (w' : σ) : Prop := ∃ n, Returns (f n) w a w'

/-- With enough fuel, the family `f` returns from `w`. -/
def Converges (f : ℕ → Comp σ α) (w : σ) : Prop := ∃ a w', Returned f w a w'

lemma Returned.unique {f : ℕ → Comp σ α} (hf : Monotone f) {w w₁ w₂ : σ} {a₁ a₂ : α}
    (h₁ : Returned f w a₁ w₁) (h₂ : Returned f w a₂ w₂) : a₁ = a₂ ∧ w₁ = w₂ := by
  obtain ⟨n, hn⟩ := h₁
  obtain ⟨m, hm⟩ := h₂
  exact (hf (le_max_left n m) _ _ _ hn).unique (hf (le_max_right n m) _ _ _ hm)

lemma returned_bind {f : ℕ → Comp σ α} {g : ℕ → α → Comp σ β} (hf : Monotone f)
    (hg : ∀ a, Monotone fun n => g n a) {w w' : σ} {b : β} :
    Returned (fun n => f n >>= g n) w b w'
      ↔ ∃ a w₁, Returned f w a w₁ ∧ Returned (fun n => g n a) w₁ b w' := by
  constructor
  · rintro ⟨n, h⟩
    obtain ⟨a, w₁, h₁, h₂⟩ := returns_bind.mp h
    exact ⟨a, w₁, ⟨n, h₁⟩, n, h₂⟩
  · rintro ⟨a, w₁, ⟨n, hn⟩, m, hm⟩
    exact ⟨max n m, returns_bind.mpr ⟨a, w₁, hf (le_max_left n m) _ _ _ hn,
      hg a (le_max_right n m) _ _ _ hm⟩⟩

lemma converges_const {m : Comp σ α} {w w' : σ} {a : α} (h : Returns m w a w') :
    Converges (fun _ => m) w := ⟨a, w', 0, h⟩

lemma converges_bind {f : ℕ → Comp σ α} {g : ℕ → α → Comp σ β} (hf : Monotone f)
    (hg : ∀ a, Monotone fun n => g n a) {w : σ} (h : Converges f w)
    (hk : ∀ a w₁, Returned f w a w₁ → Converges (fun n => g n a) w₁) :
    Converges (fun n => f n >>= g n) w := by
  obtain ⟨a, w₁, h₁⟩ := h
  obtain ⟨b, w', h₂⟩ := hk a w₁ h₁
  exact ⟨b, w', (returned_bind hf hg).mpr ⟨a, w₁, h₁, h₂⟩⟩

lemma converges_bind_iff {f : ℕ → Comp σ α} {g : ℕ → α → Comp σ β} (hf : Monotone f)
    (hg : ∀ a, Monotone fun n => g n a) {w : σ} : Converges (fun n => f n >>= g n) w
      ↔ Converges f w ∧ ∀ a w₁, Returned f w a w₁ → Converges (fun n => g n a) w₁ := by
  refine ⟨?_, fun ⟨h, hk⟩ => converges_bind hf hg h hk⟩
  rintro ⟨b, w', h⟩
  obtain ⟨a, w₁, h₁, h₂⟩ := (returned_bind hf hg).mp h
  refine ⟨⟨a, w₁, h₁⟩, fun a' w₂ h₃ => ?_⟩
  obtain ⟨rfl, rfl⟩ := h₁.unique hf h₃
  exact ⟨b, w', h₂⟩

/-! ### Where a loop comes to -/

/-- The loop over `l`, begun in `w`, comes to `i` in `w₁`. -/
def LoopAt (f : ℕ → ι → Comp σ PUnit) (l : List ι) (w : σ) (i : ι) (w₁ : σ) : Prop :=
  ∃ pre post, l = pre ++ i :: post ∧ Returned (fun n => pre.forM (f n)) w ⟨⟩ w₁

/-- The search through `l`, begun in `w`, comes to `i` in `w₁`. -/
def SearchAt (f : ℕ → ι → Comp σ Bool) (l : List ι) (w : σ) (i : ι) (w₁ : σ) : Prop :=
  ∃ pre post, l = pre ++ i :: post ∧ Returned (fun n => pre.anyM (f n)) w false w₁

section Loops

variable {f : ℕ → ι → Comp σ PUnit} {g : ℕ → ι → Comp σ Bool} {l pre post : List ι} {i j : ι}
variable {w w₁ w₂ w' : σ} {n : ℕ} {u : PUnit} {b : Bool}

lemma returns_forM_append {f : ι → Comp σ PUnit} : Returns ((pre ++ post).forM f) w u w'
    ↔ ∃ w₁, Returns (pre.forM f) w ⟨⟩ w₁ ∧ Returns (post.forM f) w₁ u w' := by
  induction pre generalizing w with
  | nil => simp
  | cons i pre ih => simp only [List.cons_append, returns_forM_cons, ih]; grind

lemma returns_anyM_append {g : ι → Comp σ Bool} : Returns ((pre ++ post).anyM g) w b w'
    ↔ Returns (pre.anyM g) w true w' ∧ b = true
      ∨ ∃ w₁, Returns (pre.anyM g) w false w₁ ∧ Returns (post.anyM g) w₁ b w' := by
  induction pre generalizing w with
  | nil => simp
  | cons i pre ih => simp only [List.cons_append, returns_anyM_cons, ih]; grind

lemma LoopAt.mem (h : LoopAt f l w i w₁) : i ∈ l := by
  obtain ⟨pre, post, rfl, -⟩ := h
  simp

lemma SearchAt.mem (h : SearchAt g l w i w₁) : i ∈ l := by
  obtain ⟨pre, post, rfl, -⟩ := h
  simp

lemma loopAt_head : LoopAt f (i :: l) w i w := ⟨[], l, rfl, 0, returns_forM_nil.mpr rfl⟩

lemma searchAt_head : SearchAt g (i :: l) w i w := ⟨[], l, rfl, 0, returns_anyM_nil.mpr ⟨rfl, rfl⟩⟩

variable (hf : ∀ i, Monotone fun n => f n i) (hg : ∀ i, Monotone fun n => g n i)

include hf in
lemma LoopAt.cons (h₁ : Returned (fun n => f n i) w ⟨⟩ w₁) (h : LoopAt f l w₁ j w₂) :
    LoopAt f (i :: l) w j w₂ := by
  obtain ⟨pre, post, rfl, h₂⟩ := h
  exact ⟨i :: pre, post, rfl,
    (returned_bind (hf i) fun _ => monotone_forM hf pre).mpr ⟨⟨⟩, w₁, h₁, h₂⟩⟩

include hg in
lemma SearchAt.cons (h₁ : Returned (fun n => g n i) w false w₁) (h : SearchAt g l w₁ j w₂) :
    SearchAt g (i :: l) w j w₂ := by
  obtain ⟨pre, post, rfl, n₂, h₂⟩ := h
  obtain ⟨n₁, h₁⟩ := h₁
  refine ⟨i :: pre, post, rfl, max n₁ n₂, returns_anyM_cons.mpr (Or.inr ⟨w₁, ?_, ?_⟩)⟩
  · exact hg i (le_max_left n₁ n₂) _ _ _ h₁
  · exact monotone_anyM hg pre (le_max_right n₁ n₂) _ _ _ h₂

include hf in
/-- A loop that returns returns from all that it comes to. -/
lemma LoopAt.returns (h : LoopAt f l w i w₁) (hr : Returns (l.forM (f n)) w u w') :
    ∃ w₂, Returns (f n i) w₁ ⟨⟩ w₂ := by
  obtain ⟨pre, post, rfl, h⟩ := h
  obtain ⟨w₃, h₁, h₂⟩ := returns_forM_append.mp hr
  obtain ⟨-, rfl⟩ := h.unique (monotone_forM hf pre) ⟨n, h₁⟩
  obtain ⟨w₂, h₂, -⟩ := returns_forM_cons.mp h₂
  exact ⟨w₂, h₂⟩

include hg in
lemma SearchAt.returns (h : SearchAt g l w i w₁) (hr : Returns (l.anyM (g n)) w b w') :
    ∃ b₂ w₂, Returns (g n i) w₁ b₂ w₂ := by
  obtain ⟨pre, post, rfl, h⟩ := h
  rcases returns_anyM_append.mp hr with ⟨h₁, -⟩ | ⟨w₃, h₁, h₂⟩
  · cases (h.unique (monotone_anyM hg pre) ⟨n, h₁⟩).1
  · obtain ⟨-, rfl⟩ := h.unique (monotone_anyM hg pre) ⟨n, h₁⟩
    rcases returns_anyM_cons.mp h₂ with ⟨h₂, -⟩ | ⟨w₂, h₂, -⟩
    · exact ⟨true, w', h₂⟩
    · exact ⟨false, w₂, h₂⟩

include hf in
/-- A loop converges when each of its rounds does, in the state in which the loop comes to it. -/
lemma converges_forM (h : ∀ i w₁, LoopAt f l w i w₁ → Converges (fun n => f n i) w₁) :
    Converges (fun n => l.forM (f n)) w := by
  induction l generalizing w with
  | nil => exact ⟨⟨⟩, w, 0, returns_forM_nil.mpr rfl⟩
  | cons i l ih =>
      exact converges_bind (hf i) (fun _ => monotone_forM hf l) (h i w loopAt_head)
        fun _ w₁ h₁ => ih fun j w₂ hj => h j w₂ (hj.cons hf h₁)

include hg in
/-- A search converges when each of its tests does, in the state in which the search comes to it. -/
lemma converges_anyM (h : ∀ i w₁, SearchAt g l w i w₁ → Converges (fun n => g n i) w₁) :
    Converges (fun n => l.anyM (g n)) w := by
  induction l generalizing w with
  | nil => exact ⟨false, w, 0, returns_anyM_nil.mpr ⟨rfl, rfl⟩⟩
  | cons i l ih =>
      refine converges_bind (hg i) (fun b => ?_) (h i w searchAt_head) fun b w₁ h₁ => ?_
      · cases b
        · exact monotone_anyM hg l
        · exact monotone_const
      · cases b
        · exact ih fun j w₂ hj => h j w₂ (hj.cons hg h₁)
        · exact converges_const (returns_pure.mpr ⟨rfl, rfl⟩)

section Rel

variable {R : σ → σ → Prop} [Std.Refl R] [IsTrans σ R]

/-- A relation kept by the rounds relates the beginning of a loop to all that it comes to. -/
lemma LoopAt.rel (h : LoopAt f l w i w₁) (hk : ∀ n, ∀ j ∈ l, Keeps R (f n j)) : R w w₁ := by
  obtain ⟨pre, post, rfl, n, h⟩ := h
  exact keeps_forM (fun j hj => hk n j (List.mem_append_left _ hj)) _ _ _ h

lemma SearchAt.rel (h : SearchAt g l w i w₁) (hk : ∀ n, ∀ j ∈ l, Keeps R (g n j)) : R w w₁ := by
  obtain ⟨pre, post, rfl, n, h⟩ := h
  exact keeps_anyM (fun j hj => hk n j (List.mem_append_left _ hj)) _ _ _ h

include hf in
/-- A relation that contains every round, in the state in which the loop comes to it, contains the
loop. -/
lemma rel_forM (h : ∀ i w₁ u w₂, LoopAt f l w i w₁ → Returns (f n i) w₁ u w₂ → R w₁ w₂)
    (hr : Returns (l.forM (f n)) w u w') : R w w' := by
  induction l generalizing w with
  | nil => exact (returns_forM_nil.mp hr) ▸ refl_of R _
  | cons i l ih =>
      obtain ⟨w₁, h₁, h₂⟩ := returns_forM_cons.mp hr
      exact trans_of R (h i w ⟨⟩ w₁ loopAt_head h₁)
        (ih (fun j w₂ u w₃ hj => h j w₂ u w₃ (hj.cons hf ⟨n, h₁⟩)) h₂)

include hg in
lemma rel_anyM (h : ∀ i w₁ b w₂, SearchAt g l w i w₁ → Returns (g n i) w₁ b w₂ → R w₁ w₂)
    (hr : Returns (l.anyM (g n)) w b w') : R w w' := by
  induction l generalizing w with
  | nil => exact (returns_anyM_nil.mp hr).2 ▸ refl_of R _
  | cons i l ih =>
      rcases returns_anyM_cons.mp hr with ⟨h₁, -⟩ | ⟨w₁, h₁, h₂⟩
      · exact h i w true w' searchAt_head h₁
      · exact trans_of R (h i w false w₁ searchAt_head h₁)
          (ih (fun j w₂ b w₃ hj => h j w₂ b w₃ (hj.cons hg ⟨n, h₁⟩)) h₂)

end Rel

end Loops

end CppStatecharts
