import Mathlib.Data.List.Induction
import Mathlib.Logic.Function.Basic

/-!
# `Rudis.Lib.FirstSeen`: append-only lists without repetition

`firstSeen l` lists the elements of a history `l` once each, in the order they first came.
`Listed entry n l z` says that a counter and a table of cells hold the list `l`, with `z` in every
cell behind it. A contract that appends a new key to such a table and skips a known one keeps
`firstSeen` of the keys it was given (`Listed.push`, `firstSeen_concat`).
-/

variable {α : Type}

section FirstSeen

variable [DecidableEq α]

/-- The elements of a list, each at its first occurrence. -/
def firstSeen (l : List α) : List α :=
  l.foldl (fun seen a => if a ∈ seen then seen else seen ++ [a]) []

theorem firstSeen_concat (l : List α) (a : α) :
    firstSeen (l ++ [a]) = if a ∈ firstSeen l then firstSeen l else firstSeen l ++ [a] := by
  rw [firstSeen, List.foldl_append]
  rfl

variable {a : α}

@[simp] theorem mem_firstSeen {l : List α} : a ∈ firstSeen l ↔ a ∈ l := by
  -- From the right: the last element is the one `firstSeen_concat` speaks of.
  induction l using List.reverseRecOn generalizing a with
  | nil => simp [firstSeen]
  | append_singleton l b ih =>
    rw [firstSeen_concat]
    split
    · rename_i hb
      have hbl : b ∈ l := ih.mp hb
      rw [ih, List.mem_append, List.mem_singleton]
      exact ⟨.inl, fun h => h.elim id fun hab => hab ▸ hbl⟩
    · simp [ih]

theorem nodup_firstSeen (l : List α) : (firstSeen l).Nodup := by
  induction l using List.reverseRecOn with
  | nil => exact List.nodup_nil
  | append_singleton l b ih =>
    rw [firstSeen_concat]
    split
    · exact ih
    · rename_i hb
      exact List.nodup_append.mpr ⟨ih, by simp, by
        intro x hx y hy hxy
        rw [List.mem_singleton.mp hy] at hxy
        exact hb (hxy ▸ hx)⟩

/-- A new element comes last. -/
theorem firstSeen_concat_of_notMem {l : List α} (h : a ∉ l) :
    firstSeen (l ++ [a]) = firstSeen l ++ [a] := by
  rw [firstSeen_concat, if_neg (mt mem_firstSeen.mp h)]

/-- A known element changes nothing. -/
theorem firstSeen_concat_of_mem {l : List α} (h : a ∈ l) : firstSeen (l ++ [a]) = firstSeen l := by
  rw [firstSeen_concat, if_pos (mem_firstSeen.mpr h)]

end FirstSeen

section Listed

variable {entry : Nat → α} {n : Nat} {l : List α} {z : α}

/-- The cells below `n` hold the list and the others hold `z`. -/
structure Listed (entry : Nat → α) (n : Nat) (l : List α) (z : α) : Prop where
  count : n = l.length
  cell : ∀ i, entry i = l.getD i z

theorem Listed.nil (z : α) : Listed (fun _ => z) 0 [] z := ⟨rfl, fun _ => rfl⟩

/-- Behind the list the cells are empty. -/
theorem Listed.cell_of_le (h : Listed entry n l z) {i : Nat} (hi : n ≤ i) : entry i = z := by
  rw [h.cell, List.getD_eq_getElem?_getD, List.getElem?_eq_none (h.count ▸ hi), Option.getD_none]

theorem Listed.exists_cell (h : Listed entry n l z) {a : α} (ha : a ∈ l) :
    ∃ i < n, entry i = a := by
  obtain ⟨i, hi, hget⟩ := List.getElem_of_mem ha
  refine ⟨i, h.count ▸ hi, ?_⟩
  rw [h.cell, List.getD_eq_getElem?_getD, List.getElem?_eq_getElem hi, Option.getD_some, hget]

/-- The cells read in order are the list. -/
theorem Listed.map_range (h : Listed entry n l z) : (List.range n).map entry = l := by
  refine List.ext_getElem (by simp [h.count]) fun i _ hi => ?_
  rw [List.getElem_map, List.getElem_range, h.cell, List.getD_eq_getElem?_getD,
    List.getElem?_eq_getElem hi, Option.getD_some]

/-- Writing the next cell appends. -/
theorem Listed.push (h : Listed entry n l z) (a : α) :
    Listed (Function.update entry n a) (n + 1) (l ++ [a]) z := by
  refine ⟨by simp [h.count], fun i => ?_⟩
  by_cases hi : i = n
  · subst hi
    simp [h.count]
  · rw [Function.update_of_ne hi, h.cell]
    simp only [List.getD_eq_getElem?_getD, List.getElem?_append]
    split
    · rfl
    · rename_i hlt
      -- Behind the new cell both sides are the default.
      have hlast : i - l.length ≠ 0 := by
        have := h.count
        omega
      rw [List.getElem?_eq_none (by omega), List.getElem?_eq_none (by simp; omega)]

end Listed
