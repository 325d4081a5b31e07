import Rudis.Spec.Primitives

/-!
# `Rudis.Spec.StorageVec`: dynamic arrays in contract storage

`blockchain/primitives/src/storage/types/vec.rs`: a length word and the data slots behind it. The
length is a `u32` whose increment wraps. `readAll` lists the contents; while the length has room,
every operation acts on that list as its name says.
-/

namespace Rudis

open List

/-- A dynamic array in storage. -/
structure StorageVec (α : Type) where
  length : Nat
  /-- The data slots, those past the end included. -/
  slot : Nat → α

namespace StorageVec

variable {α : Type}

def get (v : StorageVec α) (index : Nat) : Option α :=
  if v.length ≤ index then none else some (v.slot index)

def set (v : StorageVec α) (index : Nat) (value : α) : Result (StorageVec α) := do
  throwIf (v.length ≤ index) (.fatal "vec index out of bounds")
  pure { v with slot := update v.slot index value }

def push (v : StorageVec α) (value : α) : StorageVec α where
  length := wrappingAdd 32 v.length 1
  slot := update v.slot v.length value

/-- Drops the last element, and zeroes its slot. -/
def pop (zero : α) (v : StorageVec α) : StorageVec α :=
  if v.length = 0 then v
  else { length := v.length - 1, slot := update v.slot (v.length - 1) zero }

def readAll (v : StorageVec α) : List α := (List.range v.length).map v.slot

/-- An array nothing was pushed to. -/
def empty (zero : α) : StorageVec α := ⟨0, fun _ => zero⟩

/-! ### The contents -/

variable {v v' : StorageVec α} {i : Nat} {a : α}

@[simp] theorem readAll_empty (zero : α) : (empty zero).readAll = [] := rfl

@[simp] theorem length_readAll : v.readAll.length = v.length := by
  simp [readAll]

theorem get_eq (v : StorageVec α) (i : Nat) : v.get i = v.readAll[i]? := by
  unfold get readAll
  rw [getElem?_map]
  split
  · rw [getElem?_eq_none (by simpa using ‹_›)]
    rfl
  · rw [getElem?_range (by omega)]
    rfl

theorem set_eq_ok (h : v.set i a = .ok v') : v'.readAll = v.readAll.set i a := by
  simp only [set, bind_eq_ok, throwIf_eq_ok, pure_eq_ok] at h
  obtain ⟨_, -, rfl⟩ := h
  refine ext_getElem? fun j => ?_
  simp only [readAll, getElem?_map, getElem?_set, length_map, length_range]
  by_cases hj : j < v.length
  · rw [getElem?_range hj]
    by_cases hij : i = j
    · subst hij
      simp [hj]
    · simp [hij, update_of_ne (Ne.symm hij)]
  · rw [getElem?_eq_none (by simpa using hj)]
    split
    · rw [if_neg (by omega)]
      rfl
    · rfl

theorem readAll_push (h : v.length + 1 < 2 ^ 32) (a : α) : (v.push a).readAll = v.readAll ++ [a] := by
  unfold push readAll
  rw [wrappingAdd_eq h, range_succ, map_append]
  congr 1
  · refine map_congr_left fun i hi => ?_
    exact update_of_ne (ne_of_lt (mem_range.mp hi)) _ _
  · simp

theorem readAll_pop (zero : α) (v : StorageVec α) : (v.pop zero).readAll = v.readAll.dropLast := by
  unfold pop
  split
  · rename_i h
    simp [readAll, h]
  · rename_i h
    obtain ⟨n, hn⟩ : ∃ n, v.length = n + 1 := ⟨v.length - 1, by omega⟩
    unfold readAll
    rw [hn, range_succ, map_append]
    simp only [Nat.add_sub_cancel, map_cons, map_nil, dropLast_concat]
    refine map_congr_left fun i hi => ?_
    exact update_of_ne (ne_of_lt (mem_range.mp hi)) _ _

end StorageVec

end Rudis
