import Mathlib.Data.List.Sort

/-!
# `Rudis.Lib.Paging`: pages of a strictly ascending list

Two facts about cutting a strictly ascending list. The first elements of two such lists agree when
the lists agree up to a bound that those elements do not pass (`take_eq_of_agree`): a merge may
stop reading once it has passed the last element it needs. What comes after the last element of a
page is the rest of the list (`filter_gt_eq_drop`): a cursor loses and repeats nothing.
-/

namespace Paging

open List

variable {α : Type} [LinearOrder α] {l l' : List α}

/-- The elements up to a bound come first. -/
theorem filter_le_isPrefix (h : l.Pairwise (· < ·)) (b : α) :
    l.filter (fun x => decide (x ≤ b)) <+: l := by
  induction l with
  | nil => exact prefix_rfl
  | cons a l ih =>
    rw [pairwise_cons] at h
    by_cases hab : a ≤ b
    · rw [filter_cons, if_pos (by simpa using hab)]
      exact (prefix_cons_inj a).mpr (ih h.2)
    · -- Past the bound nothing comes back under it.
      have hnone : l.filter (fun x => decide (x ≤ b)) = [] := by
        rw [filter_eq_nil_iff]
        intro x hx
        have hlt := h.1 x hx
        simpa using (not_le.mp hab).trans hlt
      rw [filter_cons, if_neg (by simpa using hab), hnone]
      exact nil_prefix

variable {k : Nat}

/-- All elements before a position are below the element there. -/
theorem take_le (h : l.Pairwise (· < ·)) {y : α} (hk : l[k]? = some y) :
    ∀ x ∈ l.take (k + 1), x ≤ y := by
  intro x hx
  obtain ⟨hlt, hget⟩ := List.getElem?_eq_some_iff.mp hk
  obtain ⟨i, hi, rfl⟩ := mem_iff_getElem.mp hx
  rw [length_take] at hi
  rw [getElem_take, ← hget]
  rcases lt_or_ge i k with hik | hik
  · exact (pairwise_iff_getElem.mp h i k _ _ hik).le
  · have heq : i = k := by omega
    subst heq
    exact le_rfl

/-- Two ascending lists that agree up to a bound have the same first elements below it. -/
theorem take_eq_of_agree (h : l.Pairwise (· < ·)) (h' : l'.Pairwise (· < ·)) {b y : α}
    (hagree : ∀ x ≤ b, x ∈ l ↔ x ∈ l') (hk : l[k]? = some y) (hy : y ≤ b) :
    l.take (k + 1) = l'.take (k + 1) := by
  have hsame : l.filter (fun x => decide (x ≤ b)) = l'.filter (fun x => decide (x ≤ b)) := by
    refine List.SortedLT.eq_of_mem_iff (h.filter _).sortedLT (h'.filter _).sortedLT fun x => ?_
    simp only [mem_filter, decide_eq_true_eq]
    exact ⟨fun ⟨hx, hle⟩ => ⟨(hagree x hle).mp hx, hle⟩,
      fun ⟨hx, hle⟩ => ⟨(hagree x hle).mpr hx, hle⟩⟩
  have hlong : k + 1 ≤ (l.filter fun x => decide (x ≤ b)).length := by
    have hall : (l.take (k + 1)).filter (fun x => decide (x ≤ b)) = l.take (k + 1) := by
      rw [filter_eq_self]
      intro x hx
      simpa using (take_le h hk x hx).trans hy
    have hsub := ((take_sublist (k + 1) l).filter fun x => decide (x ≤ b)).length_le
    obtain ⟨hlt, -⟩ := List.getElem?_eq_some_iff.mp hk
    rw [hall, length_take] at hsub
    omega
  -- Both lists start with the part up to the bound, and it is long enough.
  obtain ⟨t, ht⟩ := filter_le_isPrefix h b
  obtain ⟨t', ht'⟩ := filter_le_isPrefix h' b
  calc l.take (k + 1) = (l.filter fun x => decide (x ≤ b)).take (k + 1) := by
        conv_lhs => rw [← ht]
        exact take_append_of_le_length hlong
    _ = (l'.filter fun x => decide (x ≤ b)).take (k + 1) := by rw [hsame]
    _ = l'.take (k + 1) := by
        conv_rhs => rw [← ht']
        exact (take_append_of_le_length (hsame ▸ hlong)).symm

/-- What comes after the last element of a page is the rest of the list. -/
theorem filter_gt_eq_drop (h : l.Pairwise (· < ·)) {m : α}
    (hm : (l.take k).getLast? = some m) : l.filter (fun x => decide (m < x)) = l.drop k := by
  obtain ⟨page, hpage⟩ := getLast?_eq_some_iff.mp hm
  have hsplit : l = page ++ m :: l.drop k := by
    conv_lhs => rw [← take_append_drop k l, hpage]
    simp
  have hpair := hsplit ▸ h
  rw [pairwise_append, pairwise_cons] at hpair
  obtain ⟨-, ⟨hafter, -⟩, hbefore⟩ := hpair
  have hnone : page.filter (fun x => decide (m < x)) = [] := by
    rw [filter_eq_nil_iff]
    intro x hx
    simpa using (hbefore x hx m mem_cons_self).le
  have hall : (l.drop k).filter (fun x => decide (m < x)) = l.drop k := by
    rw [filter_eq_self]
    intro x hx
    simpa using hafter x hx
  conv_lhs => rw [hsplit]
  rw [filter_append, hnone, nil_append, filter_cons, if_neg (by simp), hall]

end Paging
