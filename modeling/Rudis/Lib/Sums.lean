import Mathlib.Algebra.BigOperators.Intervals
import Mathlib.Algebra.Order.BigOperators.Group.Finset

/-!
# `Rudis.Lib.Sums`: sums of a table of numbers under point updates

Conservation arguments over a table of balances: what one update does to the sum over a finite
key type, and what clearing or lowering some cells of an array does to the sum of a prefix. All
statements are additive, so that no truncated subtraction enters an invariant.
-/

/-- Words of a fixed width are finitely many. Nothing enumerates them. -/
@[irreducible] instance BitVec.instFintype (w : Nat) : Fintype (BitVec w) :=
  Fintype.ofEquiv (Fin (2 ^ w)) ⟨BitVec.ofFin, BitVec.toFin, fun _ => rfl, fun _ => rfl⟩

namespace Sums

open Finset (mem_univ mem_range sum_sdiff sum_congr mem_Ico)
open Function (update update_eq_self update_of_ne update_self)

section Table

variable {α : Type} [Fintype α]

/-- One update moves the sum by the difference of the two values. -/
theorem sum_update [DecidableEq α] (f : α → Nat) (a : α) (x : Nat) :
    ∑ b, update f a x b + f a = ∑ b, f b + x := by
  have hf := Finset.sum_update_of_mem (mem_univ a) f (f a)
  rw [update_eq_self] at hf
  rw [Finset.sum_update_of_mem (mem_univ a), hf]
  omega

/-- A table with one cell filled. -/
theorem sum_update_zero [DecidableEq α] (a : α) (x : Nat) : ∑ b, update (fun _ => 0) a x b = x := by
  simpa using sum_update (fun _ => 0) a x

/-- Changing one cell moves the sum by the difference of the two values. -/
theorem sum_edit {f g : α → Int} (a : α) (hother : ∀ b, b ≠ a → g b = f b) :
    ∑ b, g b = ∑ b, f b + (g a - f a) := by
  classical
  have hrest : ∑ b ∈ Finset.univ.erase a, g b = ∑ b ∈ Finset.univ.erase a, f b :=
    sum_congr rfl fun b hb => hother b (Finset.ne_of_mem_erase hb)
  rw [← Finset.add_sum_erase _ g (mem_univ a), ← Finset.add_sum_erase _ f (mem_univ a), hrest]
  omega

/-- A cell is at most the sum. -/
theorem le_sum (f : α → Nat) (a : α) : f a ≤ ∑ b, f b :=
  Finset.single_le_sum (fun _ _ => Nat.zero_le _) (mem_univ a)

end Table

section Prefix

variable {f g : Nat → Nat} {l : List Nat} {n : Nat}

/-- Lowering the cells of a list by `d` lowers the sum of the prefix by the sum of `d`. -/
theorem sum_range_lower (d : Nat → Nat) (hnd : l.Nodup) (hl : ∀ i ∈ l, i < n)
    (hother : ∀ i ∉ l, g i = f i) (hlow : ∀ i ∈ l, g i + d i = f i) :
    ∑ i ∈ Finset.range n, g i + (l.map d).sum = ∑ i ∈ Finset.range n, f i := by
  have hsub : l.toFinset ⊆ Finset.range n := by
    intro i hi
    exact mem_range.mpr (hl i (List.mem_toFinset.mp hi))
  rw [← sum_sdiff hsub, ← sum_sdiff (f := f) hsub, ← List.sum_toFinset d hnd,
    add_assoc, ← Finset.sum_add_distrib]
  congr 1
  · refine sum_congr rfl fun i hi => hother i ?_
    exact fun hmem => (Finset.mem_sdiff.mp hi).2 (List.mem_toFinset.mpr hmem)
  · exact sum_congr rfl fun i hi => hlow i (List.mem_toFinset.mp hi)

/-- Changing one cell of the prefix moves its sum by the difference of the two values. -/
theorem sum_range_edit {a : Nat} (ha : a < n) (hother : ∀ i, i ≠ a → g i = f i) :
    ∑ i ∈ Finset.range n, g i + f a = ∑ i ∈ Finset.range n, f i + g a := by
  have hmem : a ∈ Finset.range n := mem_range.mpr ha
  have hrest : ∑ i ∈ (Finset.range n).erase a, g i = ∑ i ∈ (Finset.range n).erase a, f i :=
    sum_congr rfl fun i hi => hother i (Finset.ne_of_mem_erase hi)
  rw [← Finset.add_sum_erase _ g hmem, ← Finset.add_sum_erase _ f hmem, hrest]
  omega

/-- A prefix and a shorter one have one sum when the cells between them are zero. -/
theorem sum_range_trim {m : Nat} (hm : m ≤ n) (hzero : ∀ i, m ≤ i → i < n → f i = 0) :
    ∑ i ∈ Finset.range m, f i = ∑ i ∈ Finset.range n, f i := by
  have htail : ∑ i ∈ Finset.Ico m n, f i = 0 :=
    Finset.sum_eq_zero fun i hi => hzero i (mem_Ico.mp hi).1 (mem_Ico.mp hi).2
  rw [← Finset.sum_range_add_sum_Ico f hm, htail, add_zero]

/-- Writing the cell after a prefix adds its value to the longer prefix. -/
theorem sum_range_push (x : Nat) :
    ∑ i ∈ Finset.range (n + 1), update f n x i = ∑ i ∈ Finset.range n, f i + x := by
  rw [Finset.sum_range_succ, update_self]
  congr 1
  refine sum_congr rfl fun i hi => ?_
  rw [update_of_ne (mem_range.mp hi).ne]

end Prefix

end Sums
