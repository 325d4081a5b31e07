import Mathlib.Data.List.Nodup
import Mathlib.Data.List.Perm.Basic

/-!
# `Rudis.Lib.SwapRemove`: removal that fills the gap with the last element

`List.swapRemove l i` overwrites the element at `i` with the last one and drops the last cell. Up
to order it is the list without that element (`swapRemove_perm`). `List.IndexedBy idx l` says that
`idx` gives each element of `l` its place; such a list has no duplicates. Appending and
swap-removing keep it when `idx` is corrected at the elements that moved.
-/

namespace List

open Function (update update_of_ne update_self)

variable {α : Type} {l : List α} {i : Nat} {a : α} {idx : α → Nat}

/-- Overwrites the element at `i` with the last one, and drops the last cell. -/
def swapRemove (l : List α) (i : Nat) : List α :=
  match l.getLast? with
  | some last => (l.set i last).dropLast
  | none => []

theorem swapRemove_concat (front : List α) (last : α) (i : Nat) :
    (front ++ [last]).swapRemove i = front.set i last := by
  have hset : (front ++ [last]).set i last = front.set i last ++ [last] := by
    rw [List.set_append]
    split
    · rfl
    · rename_i hle
      have hone : [last].set (i - front.length) last = [last] := by
        cases i - front.length <;> rfl
      rw [hone, List.set_eq_of_length_le (show front.length ≤ i by omega)]
  simp [swapRemove, hset]

/-- Up to order, the list without the element at `i`. -/
theorem swapRemove_perm (h : i < l.length) : (l.swapRemove i).Perm (l.eraseIdx i) := by
  obtain rfl | ⟨front, last, rfl⟩ := l.eq_nil_or_concat'
  · exact absurd h (Nat.not_lt_zero i)
  rw [swapRemove_concat, List.eraseIdx_append]
  split
  · rename_i hlt
    rw [List.set_eq_take_append_cons_drop, if_pos hlt, List.eraseIdx_eq_take_drop_succ,
      List.append_assoc]
    exact List.perm_middle.trans (List.perm_append_singleton last _ |>.symm.trans (by simp))
  · rename_i hle
    simp only [List.length_append, List.length_singleton] at h
    have hi : i - front.length = 0 := by omega
    rw [List.set_eq_of_length_le (by omega), hi]
    simp

/-- The removed element and the elements left are the list, up to order. -/
theorem swapRemove_cons_perm (h : l[i]? = some a) : (a :: l.swapRemove i).Perm l := by
  obtain ⟨hlt, hget⟩ := List.getElem?_eq_some_iff.mp h
  have hcons := List.getElem_cons_eraseIdx_perm hlt
  rw [hget] at hcons
  exact ((swapRemove_perm hlt).cons a).trans hcons

/-- Each element of the list is at the place `idx` gives it. -/
def IndexedBy (idx : α → Nat) (l : List α) : Prop := ∀ i a, l[i]? = some a → idx a = i

theorem IndexedBy.nodup (h : IndexedBy idx l) : l.Nodup := by
  rw [List.nodup_iff_getElem?_ne_getElem?]
  intro i j hij hj heq
  have hj' : l[j]? = some l[j] := List.getElem?_eq_getElem hj
  exact Nat.ne_of_lt hij ((h i _ (heq.trans hj')).symm.trans (h j _ hj'))

/-- An element is found at its place. -/
theorem IndexedBy.getElem? (h : IndexedBy idx l) (ha : a ∈ l) : l[idx a]? = some a := by
  obtain ⟨i, hi⟩ := List.mem_iff_getElem?.mp ha
  rw [h i a hi, hi]

/-- The elements left after a removal. -/
theorem IndexedBy.mem_swapRemove (h : IndexedBy idx l) (ha : a ∈ l) {b : α} :
    b ∈ l.swapRemove (idx a) ↔ b ∈ l ∧ b ≠ a := by
  have hperm := swapRemove_cons_perm (h.getElem? ha)
  have hnot : a ∉ l.swapRemove (idx a) := (List.nodup_cons.mp (hperm.nodup_iff.mpr h.nodup)).1
  rw [← hperm.mem_iff, List.mem_cons]
  constructor
  · intro hb
    exact ⟨.inr hb, fun hba => hnot (hba ▸ hb)⟩
  · rintro ⟨rfl | hb, hne⟩
    · exact absurd rfl hne
    · exact hb

variable [DecidableEq α]

/-- A new element is appended at the end. -/
theorem IndexedBy.concat (h : IndexedBy idx l) (ha : a ∉ l) :
    IndexedBy (update idx a l.length) (l ++ [a]) := by
  intro i b hb
  by_cases hba : b = a
  · subst hba
    rw [update_self]
    by_contra hne
    have hi : i < l.length := by
      have := (List.getElem?_eq_some_iff.mp hb).1
      simp only [List.length_append, List.length_singleton] at this
      omega
    rw [List.getElem?_append_left hi] at hb
    exact ha (List.mem_of_getElem? hb)
  · rw [update_of_ne hba]
    refine h i b ?_
    rw [List.getElem?_append] at hb
    split at hb
    · exact hb
    · rename_i hle
      cases hi : i - l.length with
      | zero =>
        rw [hi] at hb
        simp only [List.getElem?_cons_zero, Option.some.injEq] at hb
        exact absurd hb.symm hba
      | succ n =>
        rw [hi] at hb
        cases hb

/-- A removed element leaves the list, and the last element takes its place. -/
theorem IndexedBy.swapRemove (h : IndexedBy idx l) {last : α} (hlast : l.getLast? = some last)
    (ha : a ∈ l) (z : Nat) :
    IndexedBy (update (update idx last (idx a)) a z) (l.swapRemove (idx a)) := by
  obtain rfl | ⟨front, last', rfl⟩ := l.eq_nil_or_concat'
  · cases hlast
  obtain rfl : last' = last := by simpa using hlast
  rw [swapRemove_concat]
  have hplace := h.getElem? ha
  have hnd : (front ++ [last']).Nodup := h.nodup
  have hnotin : last' ∉ front := fun hmem =>
    (List.nodup_append.mp hnd).2.2 last' hmem last' (List.mem_singleton.mpr rfl) rfl
  intro j b hb
  rw [List.getElem?_set] at hb
  split at hb
  · -- the cell of the removed element now holds the last one
    rename_i hj
    subst hj
    split at hb
    · rename_i hlt
      obtain rfl : last' = b := by simpa using hb
      have hne : last' ≠ a := by
        rintro rfl
        rw [List.getElem?_append_left hlt] at hplace
        exact hnotin (List.mem_of_getElem? hplace)
      rw [update_of_ne hne, update_self]
    · cases hb
  · rename_i hj
    have hbl : (front ++ [last'])[j]? = some b := by
      rw [List.getElem?_append_left (List.getElem?_eq_some_iff.mp hb).1]
      exact hb
    have hba : b ≠ a := by
      rintro rfl
      exact hj (h j b hbl)
    have hblast : b ≠ last' := by
      rintro rfl
      exact hnotin (List.mem_of_getElem? hb)
    rw [update_of_ne hba, update_of_ne hblast]
    exact h j b hbl

end List
