import Mathlib.Logic.Function.Basic

/-!
# `Rudis.Lib.Dense`: dense one-based indices

A collection is enumerated by two maps: `idx` gives an element its index, zero when it is not in
the collection, and `entry` gives an index its element. `DenseIndex idx entry n` says that they are
inverse to each other between the members and `1..n`. Appending at the end (`DenseIndex.push`) and
closing a gap with the last element (`DenseIndex.swapRemove`) keep it.
-/

variable {α : Type} {idx : α → Nat} {entry : Nat → α} {n i : Nat} {a : α}

/-- The members and the indices `1..n` correspond. -/
structure DenseIndex (idx : α → Nat) (entry : Nat → α) (n : Nat) : Prop where
  index : ∀ a, idx a ≠ 0 → idx a ≤ n ∧ entry (idx a) = a
  entry : ∀ i, i ≠ 0 → i ≤ n → idx (entry i) = i

namespace DenseIndex

open Function (update update_eq_self update_eq_self_iff update_of_ne update_self)

/-- Different indices have different elements. -/
theorem entry_ne (h : DenseIndex idx entry n) {j : Nat} (hi : i ≠ 0) (hin : i ≤ n) (hj : j ≠ 0)
    (hjn : j ≤ n) (hij : i ≠ j) : entry i ≠ entry j := by
  intro heq
  exact hij (by rw [← h.entry i hi hin, heq, h.entry j hj hjn])

/-- Only the elements at the indices `1..n` matter. -/
theorem congr_entry {entry' : Nat → α} (h : DenseIndex idx entry n)
    (heq : ∀ i, i ≠ 0 → i ≤ n → entry' i = entry i) : DenseIndex idx entry' n := by
  refine ⟨fun a ha => ?_, fun i hi hin => ?_⟩
  · obtain ⟨hle, hback⟩ := h.index a ha
    exact ⟨hle, (heq _ ha hle).trans hback⟩
  · rw [heq i hi hin]
    exact h.entry i hi hin

variable [DecidableEq α]

/-- A new element gets the next index. -/
theorem push (h : DenseIndex idx entry n) (ha : idx a = 0) :
    DenseIndex (update idx a (n + 1)) (update entry (n + 1) a) (n + 1) := by
  refine ⟨fun b hb => ?_, fun i hi hin => ?_⟩
  · by_cases hba : b = a
    · subst hba
      simp
    · rw [update_of_ne hba] at hb ⊢
      obtain ⟨hle, hback⟩ := h.index b hb
      rw [update_of_ne (by omega)]
      exact ⟨by omega, hback⟩
  · by_cases hin' : i = n + 1
    · subst hin'
      simp
    · rw [update_of_ne hin']
      have hback := h.entry i hi (by omega)
      rw [update_of_ne, hback]
      rintro rfl
      exact hi (hback.symm.trans ha)

/-- The last element takes the place of a removed one. -/
theorem swapRemove (h : DenseIndex idx entry n) (hi : i ≠ 0) (hin : i ≤ n) (z : α) :
    DenseIndex
      (update (if i < n then update idx (entry n) i else idx) (entry i) 0)
      (update (if i < n then update entry i (entry n) else entry) n z)
      (n - 1) := by
  -- the last element moves onto itself when it is the removed one
  have hidx : (if i < n then update idx (entry n) i else idx) = update idx (entry n) i := by
    split
    · rfl
    · obtain rfl : i = n := by omega
      exact (update_eq_self_iff.mpr (h.entry i hi hin).symm).symm
  have hentry : (if i < n then update entry i (entry n) else entry) = update entry i (entry n) := by
    split
    · rfl
    · obtain rfl : i = n := by omega
      exact (update_eq_self _ _).symm
  rw [hidx, hentry]
  refine ⟨fun b hb => ?_, fun j hj hjn => ?_⟩
  · by_cases hbi : b = entry i
    · simp [hbi] at hb
    rw [update_of_ne hbi] at hb ⊢
    by_cases hbn : b = entry n
    · subst hbn
      have hne : i ≠ n := fun heq => hbi (by rw [heq])
      rw [update_self, update_of_ne hne, update_self]
      exact ⟨by omega, rfl⟩
    · rw [update_of_ne hbn] at hb ⊢
      obtain ⟨hle, hback⟩ := h.index b hb
      have hjn : idx b ≠ n := fun heq => hbn (by rw [← heq, hback])
      have hji : idx b ≠ i := fun heq => hbi (by rw [← heq, hback])
      rw [update_of_ne hjn, update_of_ne hji]
      exact ⟨by omega, hback⟩
  · have hlast := h.entry_ne (j := n) hj (by omega) (by omega) (Nat.le_refl n) (by omega)
    rw [update_of_ne (show j ≠ n by omega)]
    by_cases hji : j = i
    · subst hji
      rw [update_self, update_of_ne hlast.symm, update_self]
    · rw [update_of_ne hji, update_of_ne (h.entry_ne hj (by omega) hi hin hji), update_of_ne hlast]
      exact h.entry j hj (by omega)

end DenseIndex
