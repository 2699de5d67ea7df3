import Mathlib.Data.Fintype.Pigeonhole
import Mathlib.Data.Set.Finite.List
import Mathlib.Logic.Relation
import Mathlib.Order.WellFounded

/-!
Recursions that end. A relation `r` says which tasks a task leads to: `r a b` when the work on `a`
includes the work on `b`.

* `Endless r a`: an infinite path begins at `a`; `acc_iff_not_endless` relates this to the induction
  principle `Acc`.
* `Circular r a`: a path from `a` comes back to itself; `endless_iff_circular`: among finitely many
  tasks this is the only way to go on for ever.
* `acc_of_marked`: a recursion that meets marked tasks only finitely often along each path, and is
  finite between them, ends.
-/

namespace CppStatecharts

open Relation (ReflTransGen TransGen)

variable {α : Type*} {r r' : α → α → Prop} {a b : α}

/-- An infinite path begins at `a`. -/
def Endless (r : α → α → Prop) (a : α) : Prop := ∃ f : ℕ → α, f 0 = a ∧ ∀ i, r (f i) (f (i + 1))

/-- A path from `a` reaches a task that leads back to itself. -/
def Circular (r : α → α → Prop) (a : α) : Prop := ∃ b, ReflTransGen r a b ∧ TransGen r b b

lemma acc_iff_not_endless : Acc (fun b a => r a b) a ↔ ¬ Endless r a := by
  rw [← not_iff_not, not_not]
  exact not_acc_iff_exists_descending_chain

lemma acc_of_reflTransGen (h : Acc (fun b a => r a b) a) (hb : ReflTransGen r a b) :
    Acc (fun b a => r a b) b := by
  induction hb with
  | refl => exact h
  | tail _ hr ih => exact ih.inv hr

/-! ### Cycles -/

lemma transGen_of_path {f : ℕ → α} (hf : ∀ i, r (f i) (f (i + 1))) {i j : ℕ} (h : i < j) :
    TransGen r (f i) (f j) := by
  induction j, h using Nat.le_induction with
  | base => exact .single (hf i)
  | succ j _ ih => exact .tail ih (hf j)

/-- Among finitely many tasks, a path that goes on for ever comes back to itself. -/
theorem endless_iff_circular {l : List α} (hl : ∀ a b, r a b → b ∈ l) :
    Endless r a ↔ Circular r a := by
  constructor
  · rintro ⟨f, rfl, hf⟩
    have : Finite {x // x ∈ l} := List.finite_toSet l
    obtain ⟨i, j, hne, hij⟩ := Finite.exists_ne_map_eq_of_infinite
      fun i => (⟨f (i + 1), hl _ _ (hf i)⟩ : {x // x ∈ l})
    have heq : f (i + 1) = f (j + 1) := congrArg Subtype.val hij
    have hreach : ∀ i, ReflTransGen r (f 0) (f (i + 1)) := fun i =>
      (transGen_of_path hf i.succ_pos).to_reflTransGen
    rcases Nat.lt_or_gt_of_ne hne with h | h
    · have hcycle := transGen_of_path hf (Nat.succ_lt_succ h)
      exact ⟨_, hreach i, heq.symm ▸ hcycle⟩
    · have hcycle := transGen_of_path hf (Nat.succ_lt_succ h)
      exact ⟨_, hreach j, heq ▸ hcycle⟩
  · rintro ⟨b, hab, hbb⟩
    by_contra h
    have hacc : ∀ b, Acc (fun b a => TransGen r a b) b → ¬ TransGen r b b := by
      intro b hb
      induction hb with
      | intro b _ ih => exact fun hbb => ih b hbb hbb
    refine hacc b ?_ hbb
    have := (acc_of_reflTransGen (acc_iff_not_endless.mpr h) hab).transGen
    exact Subrelation.accessible (fun h => Relation.transGen_swap.mpr h) this

/-! ### Marked tasks -/

/-- Between the marked tasks every path is finite, and the marked tasks end. -/
lemma acc_of_marked {M : α → Prop} (hwf : WellFounded fun b a => r a b ∧ ¬ M b)
    (h : ∀ b, TransGen r a b → M b → Acc (fun b a => (M a ∧ M b) ∧ TransGen r a b) b) :
    Acc (fun b a => r a b) a := by
  have hpath : ∀ a, (∀ b, TransGen r a b → M b → Acc (fun b a => r a b) b) →
      Acc (fun b a => r a b) a := by
    intro a
    induction a using hwf.induction with
    | _ a ih =>
        refine fun ha => .intro a fun b hab => ?_
        by_cases hb : M b
        · exact ha b (.single hab) hb
        · exact ih b ⟨hab, hb⟩ fun d hd => ha d (.head hab hd)
  have hmark : ∀ b, Acc (fun b a => (M a ∧ M b) ∧ TransGen r a b) b → M b →
      Acc (fun b a => r a b) b := by
    intro b hb
    induction hb with
    | intro b _ ih => exact fun hM => hpath b fun d hd hMd => ih d ⟨⟨hM, hMd⟩, hd⟩ hMd
  exact hpath a fun b hab hM => hmark b (h b hab hM) hM

end CppStatecharts
