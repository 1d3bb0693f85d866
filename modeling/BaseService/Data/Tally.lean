import Mathlib

/-!
# Totals over numbered cells

* `tally g f n` : the total of `g` over the cells `f 0, ..., f (n - 1)`;
* `tally_update` : one cell is written; `tally_push` : one more cell is taken in;
* `tally_eq_zero`, `le_tally` : all the cells count nothing, or one of them something.
-/

namespace BaseService
open Function (update)

variable {α : Type} {g : α → Nat} {f : Nat → α} {n i : Nat}

def tally (g : α → Nat) (f : Nat → α) (n : Nat) : Nat := ∑ i ∈ Finset.range n, g (f i)

/-- Written without a difference: what the cell counted before stands on the left. -/
theorem tally_update (h : i < n) (a : α) :
    tally g (update f i a) n + g (f i) = tally g f n + g a := by
  have hi : i ∈ Finset.range n := Finset.mem_range.mpr h
  have hrest : ∑ j ∈ Finset.range n \ {i}, g (update f i a j) =
      ∑ j ∈ Finset.range n \ {i}, g (f j) := by
    apply Finset.sum_congr rfl
    intro j hj
    rw [Function.update_of_ne]
    exact Finset.notMem_singleton.mp (Finset.mem_sdiff.mp hj).2
  unfold tally
  rw [Finset.sum_eq_add_sum_sdiff_singleton_of_mem hi,
    Finset.sum_eq_add_sum_sdiff_singleton_of_mem hi (fun j => g (f j)), hrest, Function.update_self]
  omega

theorem tally_push (a : α) : tally g (update f n a) (n + 1) = tally g f n + g a := by
  unfold tally
  rw [Finset.sum_range_succ, Function.update_self]
  congr 1
  apply Finset.sum_congr rfl
  intro j hj
  rw [Function.update_of_ne (Finset.mem_range.mp hj).ne]

theorem tally_eq_zero (h : ∀ i < n, g (f i) = 0) : tally g f n = 0 :=
  Finset.sum_eq_zero fun i hi => h i (Finset.mem_range.mp hi)

theorem le_tally (h : i < n) : g (f i) ≤ tally g f n :=
  Finset.single_le_sum (f := fun i => g (f i)) (fun _ _ => Nat.zero_le _) (Finset.mem_range.mpr h)

end BaseService
