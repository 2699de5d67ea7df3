import Mathlib.Data.List.Basic

/-!
What a log says was written last.

* `lastWritten write init l`: the value of the newest entry of `l` that writes one; what an entry
  writes may depend on the entries before it.
* `lastWritten_append`: entries that write nothing do not count.
-/

namespace CppStatecharts

variable {α β : Type} {write : α → List α → Option β} {init b : β} {a : α}
variable {l newer older : List α}

/-- The value written last according to a log, newest entry first, on top of `init`; the entry `a`
above the entries `older` writes `write a older`, if anything. -/
def lastWritten (write : α → List α → Option β) (init : β) : List α → β
  | [] => init
  | a :: l => (write a l).getD (lastWritten write init l)

@[simp] lemma lastWritten_nil : lastWritten write init [] = init := rfl

lemma lastWritten_cons :
    lastWritten write init (a :: l) = (write a l).getD (lastWritten write init l) := rfl

/-- No entry of `newer`, above the entries `older`, writes anything. -/
def Mute (write : α → List α → Option β) (older : List α) : List α → Prop
  | [] => True
  | a :: l => write a (l ++ older) = none ∧ Mute write older l

lemma Mute.of_forall (h : ∀ a ∈ newer, ∀ l, write a l = none) : Mute write older newer := by
  induction newer with
  | nil => trivial
  | cons a l ih =>
      exact ⟨h a List.mem_cons_self _, ih fun b hb => h b (List.mem_cons_of_mem a hb)⟩

/-- What is written on top of a log in which nothing was written since. -/
lemma lastWritten_append (h : Mute write older newer) :
    lastWritten write init (newer ++ older) = lastWritten write init older := by
  induction newer with
  | nil => rfl
  | cons a l ih => rw [List.cons_append, lastWritten_cons, h.1, Option.getD_none, ih h.2]

end CppStatecharts
