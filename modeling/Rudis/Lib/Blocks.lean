import Mathlib.Algebra.Order.BigOperators.Group.Finset
import Mathlib.Algebra.Ring.Nat

/-!
# `Rudis.Lib.Blocks`: blocks laid out one after the other

A list of labels, each with a width, divides the numbers below the sum of the widths into blocks.
`start l a` is the first number of the block of `a`, and `locate l k` is the block `k` falls into
together with its offset in it. `locate_eq_some` says that the two are inverse to each other: a
number is located in a block exactly when it is the block's start plus an offset below its width.
-/

namespace Blocks

open List

variable {ι : Type} (width : ι → Nat)

def total (l : List ι) : Nat := (l.map width).sum

/-- The block a number falls into, and its offset there. -/
def locate : List ι → Nat → Option (ι × Nat)
  | [], _ => none
  | a :: l, k => if k < width a then some (a, k) else locate l (k - width a)

@[simp] theorem total_nil : total width [] = 0 := rfl

@[simp] theorem total_cons (a : ι) (l : List ι) : total width (a :: l) = width a + total width l :=
  sum_cons

@[simp] theorem total_append (l l' : List ι) :
    total width (l ++ l') = total width l + total width l' := by
  simp [total]

theorem total_reverse (l : List ι) : total width l.reverse = total width l :=
  ((reverse_perm l).map width).sum_eq

variable {width}

/-- Every number below the total is located. -/
theorem locate_isSome : ∀ {l : List ι} {k : Nat}, (locate width l k).isSome ↔ k < total width l := by
  intro l
  induction l with
  | nil => simp [locate]
  | cons a l ih =>
    intro k
    rw [locate, total_cons]
    split
    · simp
      omega
    · rw [ih]
      omega

section Start

variable [DecidableEq ι]

variable (width) in
/-- The first number of a block. -/
def start : List ι → ι → Nat
  | [], _ => 0
  | b :: l, a => if b = a then 0 else width b + start l a

variable {a b : ι}

/-- A block starts behind the blocks before it. -/
theorem start_append_cons {p q : List ι} (h : a ∉ p) :
    start width (p ++ a :: q) a = total width p := by
  induction p with
  | nil => simp [start]
  | cons b p ih =>
    obtain ⟨hb, hp⟩ := not_or.mp (mt mem_cons.mpr h)
    rw [cons_append, start, if_neg (Ne.symm hb), ih hp, total_cons]

/-- A number is located in a block exactly when it is an offset below the width from its start. -/
theorem locate_eq_some {i : Nat} :
    ∀ {l : List ι} {k : Nat}, l.Nodup →
      (locate width l k = some (a, i) ↔ a ∈ l ∧ i < width a ∧ k = start width l a + i) := by
  intro l
  induction l with
  | nil => simp [locate]
  | cons b l ih =>
    intro k hnd
    obtain ⟨hb, hl⟩ := nodup_cons.mp hnd
    rw [locate, start]
    split
    · rename_i hk
      constructor
      · intro h
        cases h
        exact ⟨mem_cons_self, hk, by simp⟩
      · rintro ⟨hmem, hi, rfl⟩
        rcases mem_cons.mp hmem with rfl | hmem
        · simp
        · have hne : b ≠ a := fun hba => hb (hba ▸ hmem)
          rw [if_neg hne] at hk
          omega
    · rename_i hk
      rw [ih hl]
      constructor
      · rintro ⟨hmem, hi, hki⟩
        have hne : b ≠ a := fun hba => hb (hba ▸ hmem)
        refine ⟨mem_cons_of_mem b hmem, hi, ?_⟩
        rw [if_neg hne]
        omega
      · rintro ⟨hmem, hi, rfl⟩
        rcases mem_cons.mp hmem with rfl | hmem
        · rw [if_pos rfl] at hk
          omega
        · have hne : b ≠ a := fun hba => hb (hba ▸ hmem)
          rw [if_neg hne] at hk ⊢
          exact ⟨hmem, hi, by omega⟩

/-- A block ends within the total. -/
theorem start_add_width_le : ∀ {l : List ι}, a ∈ l → start width l a + width a ≤ total width l := by
  intro l
  induction l with
  | nil => exact fun h => absurd h not_mem_nil
  | cons b l ih =>
    intro h
    rw [start, total_cons]
    split
    · rename_i hba
      subst hba
      omega
    · rename_i hba
      have := ih ((mem_cons.mp h).resolve_left (Ne.symm hba))
      omega

/-- A block ends before a later one starts. -/
theorem start_add_width_le_start :
    ∀ {l : List ι}, l.idxOf a < l.idxOf b → b ∈ l → start width l a + width a ≤ start width l b := by
  intro l
  induction l with
  | nil => exact fun _ hb => absurd hb not_mem_nil
  | cons c l ih =>
    intro hlt hb
    have hcb : c ≠ b := by
      rintro rfl
      rw [idxOf_cons_self] at hlt
      omega
    have hbl : b ∈ l := (mem_cons.mp hb).resolve_left (Ne.symm hcb)
    rw [start, start, if_neg hcb]
    by_cases hca : c = a
    · subst hca
      rw [if_pos rfl]
      omega
    · rw [idxOf_cons_ne l hca, idxOf_cons_ne l hcb] at hlt
      have := ih (by omega) hbl
      rw [if_neg hca]
      omega

end Start

/-! ### Consecutive levels -/

/-- The widths of the levels `1..level` together, the upper end excluded. -/
def below (width : Nat → Nat) (level : Nat) : Nat := total width (List.range' 1 (level - 1))

/-- The widths of the levels above `level`, up to `height`, together. -/
def above (width : Nat → Nat) (height level : Nat) : Nat :=
  total width (List.range' (level + 1) (height - level))

variable {height level : Nat}

theorem range'_split (h1 : 1 ≤ level) (h2 : level ≤ height) :
    List.range' 1 height
      = List.range' 1 (level - 1) ++ level :: List.range' (level + 1) (height - level) := by
  have hlen : height = (level - 1) + (height - level + 1) := by omega
  conv_lhs => rw [hlen]
  rw [← range'_append_1, range'_succ]
  have hstart : 1 + (level - 1) = level := by omega
  rw [hstart]

theorem start_levels {width : Nat → Nat} (h1 : 1 ≤ level) (h2 : level ≤ height) :
    start width (List.range' 1 height) level = below width level := by
  rw [range'_split h1 h2]
  refine start_append_cons ?_
  rw [mem_range'_1]
  omega

theorem start_levels_reverse {width : Nat → Nat} (h1 : 1 ≤ level) (h2 : level ≤ height) :
    start width (List.range' 1 height).reverse level = above width height level := by
  rw [range'_split h1 h2, reverse_append, reverse_cons, append_assoc,
    singleton_append, start_append_cons]
  · exact total_reverse width _
  · rw [mem_reverse, mem_range'_1]
    omega

theorem below_succ (width : Nat → Nat) {level : Nat} (h : 1 ≤ level) :
    below width (level + 1) = below width level + width level := by
  have hsplit := range'_split h (Nat.le_refl level)
  have hempty : level - level = 0 := Nat.sub_self level
  rw [hempty, range'_zero] at hsplit
  show total width (List.range' 1 level) = _
  rw [hsplit, total_append, total_cons, total_nil]
  rfl

/-- Lower levels end before higher ones start. -/
theorem below_add_le (width : Nat → Nat) {low high : Nat} (h1 : 1 ≤ low) (h2 : low < high) :
    below width low + width low ≤ below width high := by
  induction high, h2 using Nat.le_induction with
  | base => exact (below_succ width h1).ge
  | succ high hle ih =>
    rw [below_succ width (by omega)]
    omega

theorem above_pred (width : Nat → Nat) (h : level < height) :
    above width height level = above width height (level + 1) + width (level + 1) := by
  have hlen : height - level = (height - (level + 1)) + 1 := by omega
  rw [above, hlen, range'_succ, total_cons]
  exact add_comm _ _

/-- Counted from the top, higher levels end before lower ones start. -/
theorem above_add_le (width : Nat → Nat) {height low high : Nat} (h1 : low < high)
    (h2 : high ≤ height) : above width height high + width high ≤ above width height low := by
  induction high, h1 using Nat.le_induction with
  | base => exact (above_pred width (by omega)).ge
  | succ high hle ih =>
    have hlt : high < height := by omega
    have hstep := above_pred width hlt
    have := ih (by omega)
    omega

end Blocks
