import Mathlib.Data.Finset.Basic
import Rudis.Lib.Dense
import Rudis.Lib.Runs
import Rudis.Spec.ActiveSet

/-!
# `Rudis.Proofs.ActiveSet`: sets of worldwide days

Appending and swap-remove keep slots and positions inverse to each other (`ActiveSet.WF`), so a set
lists each of its members exactly once (`ActiveSet.count_days`).
-/

namespace Rudis.Days

open List
open Runs (run)
open Function (update update_of_ne)

namespace ActiveSet

variable {s : ActiveSet} {day d : WorldwideDay}

/-- Slots and positions correspond. -/
def WF (s : ActiveSet) : Prop := DenseIndex s.slot (fun i => s.dayAt (i - 1)) s.count

def has (s : ActiveSet) (day : WorldwideDay) : Bool := s.slot day ≠ 0

theorem wf_empty : empty.WF := by
  refine ⟨fun a ha => absurd rfl ha, fun i hi hin => ?_⟩
  exact absurd (Nat.le_zero.mp hin) hi

theorem wf_push (h : s.WF) : (s.push day).WF := by
  unfold push
  split
  · exact h
  · rename_i hslot
    refine (DenseIndex.push h (not_not.mp hslot)).congr_entry fun i hi hin => ?_
    by_cases hlast : i = s.count + 1
    · subst hlast
      simp
    · rw [update_of_ne hlast]
      exact update_of_ne (by omega) _ _

theorem has_push : (s.push day).has d = (decide (d = day) || s.has d) := by
  unfold push
  by_cases hslot : s.slot day = 0
  · rw [if_neg (not_not.mpr hslot)]
    by_cases hd : d = day <;> simp [has, hd, update]
  · rw [if_pos hslot]
    by_cases hd : d = day <;> simp [has, hd, hslot]

/-- The last day of a set with a member is a member. -/
theorem slot_last (h : s.WF) (hday : s.slot day ≠ 0) : s.slot (s.dayAt (s.count - 1)) = s.count := by
  have hle := (h.index day hday).1
  exact h.entry s.count (by omega) (Nat.le_refl _)

theorem wf_remove (h : s.WF) : (s.remove day).WF := by
  unfold remove
  by_cases hslot : s.slot day = 0
  · rw [if_pos hslot]
    exact h
  · obtain ⟨hle, hback⟩ := h.index day hslot
    have hremove := DenseIndex.swapRemove h hslot hle 0
    have hlt : (s.slot day < s.count) = (s.slot day - 1 ≠ s.count - 1) := propext (by omega)
    simp only [hback, hlt] at hremove
    have hidx : s.slot day - 1 + 1 = s.slot day := by omega
    rw [if_neg hslot]
    show DenseIndex (update (if _ then update _ _ (s.slot day - 1 + 1) else _) _ _) _ _
    rw [hidx]
    refine hremove.congr_entry fun i hi hin => ?_
    rw [update_of_ne (show i ≠ s.count by omega)]
    show update _ (s.count - 1) 0 (i - 1) = _
    rw [update_of_ne (show i - 1 ≠ s.count - 1 by omega)]
    by_cases hne : s.slot day - 1 ≠ s.count - 1
    · rw [if_pos hne, if_pos hne]
      by_cases hi' : i = s.slot day
      · subst hi'
        simp
      · rw [update_of_ne hi', update_of_ne (by omega)]
    · rw [if_neg hne, if_neg hne]

theorem has_remove (h : s.WF) : (s.remove day).has d = (!decide (d = day) && s.has d) := by
  unfold remove
  by_cases hslot : s.slot day = 0
  · rw [if_pos hslot]
    by_cases hd : d = day <;> simp [has, hd, hslot]
  · rw [if_neg hslot]
    have hlast := slot_last h hslot
    have hle := (h.index day hslot).1
    by_cases hd : d = day
    · simp [has, hd]
    · -- the last day may move, but it stays a member
      have hmoved : d = s.dayAt (s.count - 1) → s.slot d ≠ 0 := by
        rintro rfl
        omega
      by_cases hne : s.slot day - 1 ≠ s.count - 1 <;>
        by_cases hd' : d = s.dayAt (s.count - 1) <;>
          simp_all [has, update]

theorem mem_days (h : s.WF) : d ∈ s.days ↔ s.has d = true := by
  simp only [days, mem_map, mem_range, has, decide_eq_true_eq]
  constructor
  · rintro ⟨i, hi, rfl⟩
    have hslot := h.entry (i + 1) (by omega) (by omega)
    simp only [Nat.add_sub_cancel] at hslot
    omega
  · intro hslot
    obtain ⟨hle, hback⟩ := h.index d hslot
    exact ⟨s.slot d - 1, by omega, hback⟩

theorem nodup_days (h : s.WF) : s.days.Nodup := by
  refine (nodup_map_iff_inj_on nodup_range).mpr fun i hi j hj heq => ?_
  have hi' := h.entry (i + 1) (by omega) (Nat.succ_le_of_lt (mem_range.mp hi))
  have hj' := h.entry (j + 1) (by omega) (Nat.succ_le_of_lt (mem_range.mp hj))
  simp only [Nat.add_sub_cancel] at hi' hj'
  rw [heq] at hi'
  omega

/-- A member is listed exactly once, and no other day is. -/
theorem count_days (h : s.WF) : s.days.count d = if s.has d then 1 else 0 := by
  rw [List.Nodup.count (nodup_days h)]
  simp only [mem_days h]

/-- A day enters or leaves. -/
inductive Op where
  | push (day : WorldwideDay)
  | remove (day : WorldwideDay)

def Op.call : Op → ActiveSet → ActiveSet
  | .push day, s => s.push day
  | .remove day, s => s.remove day

def Op.apply : Op → Finset WorldwideDay → Finset WorldwideDay
  | .push day, m => insert day m
  | .remove day, m => m.erase day

/-- Every run of changes lists each of the members it leaves exactly once, and no other day. -/
theorem count_days_of_run (ops : List Op) (d : WorldwideDay) :
    (run Op.call ops empty).days.count d = if d ∈ run Op.apply ops ∅ then 1 else 0 := by
  suffices h : ∀ s m, s.WF → (∀ d, s.has d = true ↔ d ∈ m) → (run Op.call ops s).WF ∧
      ∀ d, (run Op.call ops s).has d = true ↔ d ∈ run Op.apply ops m by
    obtain ⟨hwf, hhas⟩ := h empty ∅ wf_empty (by simp [has, empty])
    rw [count_days hwf]
    simp only [hhas]
  induction ops with
  | nil => exact fun _ _ hwf hhas => ⟨hwf, hhas⟩
  | cons op ops ih =>
    intro s m hwf hhas
    cases op with
    | push day => exact ih _ _ (wf_push hwf) (by simp [Op.call, Op.apply, has_push, hhas])
    | remove day =>
      exact ih _ _ (wf_remove hwf) (by simp [Op.call, Op.apply, has_remove hwf, hhas])

end ActiveSet

end Rudis.Days
