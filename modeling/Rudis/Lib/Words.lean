import Mathlib.Order.Bounds.Basic

/-!
# `Rudis.Lib.Words`: a machine word as a set of bit positions

What setting, clearing and masking bits does to the set of positions of a word, and the scan for the
first set position (`isLeast_firstSet`).
-/

namespace Words

variable {w : Nat} {x y : BitVec w} {i j n : Nat}

/-- The word with one bit set. -/
def bit (w i : Nat) : BitVec w := 1#w <<< i

theorem getLsbD_bit (hi : i < w) : (bit w i).getLsbD j = decide (j = i) := by
  rw [bit, BitVec.getLsbD_shiftLeft, BitVec.getLsbD_one]
  by_cases hji : j = i
  · subst hji
    simp [hi]
    omega
  · simp only [hji, decide_false]
    by_cases hlt : j < i
    · simp [hlt]
    · have : j - i ≠ 0 := by omega
      simp [this]

theorem getLsbD_set (hi : i < w) : (x ||| bit w i).getLsbD j = (x.getLsbD j || decide (j = i)) := by
  rw [BitVec.getLsbD_or, getLsbD_bit hi]

theorem getLsbD_clear (hi : i < w) :
    (x &&& ~~~(bit w i)).getLsbD j = (x.getLsbD j && !decide (j = i)) := by
  rw [BitVec.getLsbD_and, BitVec.getLsbD_not, getLsbD_bit hi]
  by_cases hj : j < w
  · simp [hj]
  · simp [BitVec.getLsbD_of_ge x j (by omega)]

/-- A word is zero when no bit is set. -/
theorem ne_zero_iff : x ≠ 0#w ↔ ∃ i, x.getLsbD i = true := by
  constructor
  · intro hne
    by_contra hnone
    refine hne (BitVec.eq_of_getLsbD_eq fun i _ => ?_)
    rw [BitVec.getLsbD_zero]
    by_contra hset
    exact hnone ⟨i, by simpa using hset⟩
  · rintro ⟨i, hi⟩ rfl
    simp at hi

theorem eq_set_iff (hi : i < w) : x = x ||| bit w i ↔ x.getLsbD i = true := by
  constructor
  · intro heq
    rw [heq, getLsbD_set hi]
    simp
  · intro hset
    refine BitVec.eq_of_getLsbD_eq fun j _ => ?_
    rw [getLsbD_set hi]
    by_cases hji : j = i
    · simp [hji, hset]
    · simp [hji]

theorem eq_clear_iff (hi : i < w) : x = x &&& ~~~(bit w i) ↔ x.getLsbD i = false := by
  constructor
  · intro heq
    rw [heq, getLsbD_clear hi]
    simp
  · intro hclear
    refine BitVec.eq_of_getLsbD_eq fun j _ => ?_
    rw [getLsbD_clear hi]
    by_cases hji : j = i
    · simp [hji, hclear]
    · simp [hji]

theorem and_bit_ne_zero_iff (hi : i < w) : x &&& bit w i ≠ 0#w ↔ x.getLsbD i = true := by
  rw [ne_zero_iff]
  simp only [BitVec.getLsbD_and, getLsbD_bit hi, Bool.and_eq_true, decide_eq_true_eq]
  constructor
  · rintro ⟨j, hj, rfl⟩
    exact hj
  · intro hset
    exact ⟨i, hset, rfl⟩

theorem set_ne_zero (hi : i < w) : x ||| bit w i ≠ 0#w :=
  ne_zero_iff.mpr ⟨i, by rw [getLsbD_set hi]; simp⟩

/-- The bits from a position on. -/
theorem getLsbD_and_allOnes_shiftLeft :
    (x &&& BitVec.allOnes w <<< n).getLsbD j = (x.getLsbD j && decide (n ≤ j)) := by
  rw [BitVec.getLsbD_and, BitVec.getLsbD_shiftLeft, BitVec.getLsbD_allOnes]
  by_cases hj : j < w
  · by_cases hn : n ≤ j
    · have : j - n < w := by omega
      simp [hj, hn, this]
    · simp [hn]
  · simp [BitVec.getLsbD_of_ge x j (by omega)]

/-! ### The first set position -/

/-- The first position below `n` that is set, or `n`. -/
def firstSet (n : Nat) (p : Nat → Bool) : Nat := ((List.range n).find? p).getD n

variable {p : Nat → Bool}

theorem find?_range_eq_some :
    (List.range n).find? p = some i ↔ i < n ∧ p i = true ∧ ∀ j < i, p j = false := by
  rw [List.find?_range_eq_some]
  simp only [List.mem_range, Bool.not_eq_true']
  constructor
  · rintro ⟨hp, hi, hmin⟩
    exact ⟨hi, hp, hmin⟩
  · rintro ⟨hi, hp, hmin⟩
    exact ⟨hp, hi, hmin⟩

theorem isLeast_firstSet (h : ∃ i < n, p i = true) :
    IsLeast {i | i < n ∧ p i = true} (firstSet n p) := by
  obtain ⟨i, hi, hp⟩ := h
  cases hfind : (List.range n).find? p with
  | none =>
    rw [List.find?_eq_none] at hfind
    exact absurd hp (hfind i (List.mem_range.mpr hi))
  | some k =>
    obtain ⟨hk, hpk, hmin⟩ := find?_range_eq_some.mp hfind
    have hfirst : firstSet n p = k := by rw [firstSet, hfind, Option.getD_some]
    rw [hfirst]
    refine ⟨⟨hk, hpk⟩, ?_⟩
    rintro j ⟨-, hpj⟩
    by_contra hlt
    rw [hmin j (by omega)] at hpj
    cases hpj

end Words
