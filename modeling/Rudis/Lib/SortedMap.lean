import Mathlib.Algebra.Order.BigOperators.Group.Finset
import Mathlib.Algebra.Ring.Nat

/-!
# `Rudis.Lib.SortedMap`: maps as strictly sorted association lists

`SortedMap κ β` is an ordered map: its entries are listed by ascending key, each key once, so that
walking a map walks its keys in order. `insert` replaces an entry or adds one. `sum_insert` says
what an insertion does to a sum over the entries; it is additive, with the old entry on the left.
-/

structure SortedMap (κ β : Type) [LinearOrder κ] where
  /-- The entries, by ascending key. -/
  entries : List (κ × β)
  /-- Every key is below the keys that follow it. -/
  sorted : entries.Pairwise fun a b => a.1 < b.1
  deriving DecidableEq

namespace SortedMap

open List

variable {κ β : Type} [LinearOrder κ]

/-- The map without entries. -/
def empty : SortedMap κ β := ⟨[], .nil⟩

variable (m : SortedMap κ β) (k : κ)

/-- The value at a key. -/
def find? : Option β := m.entries.lookup k

def keys : List κ := m.entries.map Prod.fst

/-- Insertion into a list of entries: an entry with the same key is replaced. -/
def insertEntry (k : κ) (v : β) : List (κ × β) → List (κ × β)
  | [] => [(k, v)]
  | e :: l =>
    if k < e.1 then (k, v) :: e :: l
    else if k = e.1 then (k, v) :: l
    else e :: insertEntry k v l

theorem mem_insertEntry {k : κ} {v : β} {a : κ × β} :
    ∀ {l : List (κ × β)}, a ∈ insertEntry k v l → a = (k, v) ∨ a ∈ l := by
  intro l
  induction l with
  | nil =>
    intro h
    exact .inl (mem_singleton.mp h)
  | cons e l ih =>
    intro h
    unfold insertEntry at h
    split at h
    · exact mem_cons.mp h
    · split at h
      · exact (mem_cons.mp h).imp_right (mem_cons_of_mem e)
      · rcases mem_cons.mp h with rfl | h
        · exact .inr mem_cons_self
        · exact (ih h).imp_right (mem_cons_of_mem e)

theorem sorted_insertEntry (v : β) :
    ∀ {l : List (κ × β)}, l.Pairwise (fun a b => a.1 < b.1) →
      (insertEntry k v l).Pairwise fun a b => a.1 < b.1 := by
  intro l
  induction l with
  | nil => exact fun _ => pairwise_singleton _ _
  | cons e l ih =>
    intro h
    obtain ⟨he, hl⟩ := pairwise_cons.mp h
    unfold insertEntry
    split
    · rename_i hlt
      exact pairwise_cons.mpr ⟨forall_mem_cons.mpr ⟨hlt, fun a ha => hlt.trans (he a ha)⟩, h⟩
    · split
      · rename_i heq
        exact pairwise_cons.mpr ⟨fun a ha => heq ▸ he a ha, hl⟩
      · rename_i hnlt hne
        refine pairwise_cons.mpr ⟨fun a ha => ?_, ih hl⟩
        rcases mem_insertEntry ha with rfl | ha
        · exact lt_of_le_of_ne (not_lt.mp hnlt) (Ne.symm hne)
        · exact he a ha

/-- Sets the value at a key. -/
def insert (v : β) : SortedMap κ β :=
  ⟨insertEntry k v m.entries, sorted_insertEntry k v m.sorted⟩

/-- The map a list of pairs collects into: a later pair replaces an earlier one of its key. -/
def ofList (l : List (κ × β)) : SortedMap κ β := l.foldl (fun m e => m.insert e.1 e.2) empty

@[simp] theorem find?_empty : (empty : SortedMap κ β).find? k = none := rfl

theorem lookup_cons_eq (j : κ) (e : κ × β) (l : List (κ × β)) :
    (e :: l).lookup j = if j = e.1 then some e.2 else l.lookup j := by
  by_cases h : j = e.1
  · rw [if_pos h, lookup_cons, beq_iff_eq.mpr h]
  · rw [if_neg h, lookup_cons, beq_false_of_ne h]

theorem lookup_insertEntry (k j : κ) (v : β) :
    ∀ l : List (κ × β), (insertEntry k v l).lookup j = if j = k then some v else l.lookup j := by
  intro l
  induction l with
  | nil => exact lookup_cons_eq j (k, v) []
  | cons e l ih =>
    unfold insertEntry
    split
    · exact lookup_cons_eq j (k, v) (e :: l)
    · split
      · rename_i hk
        subst hk
        rw [lookup_cons_eq, lookup_cons_eq]
        split <;> rfl
      · rename_i hne
        rw [lookup_cons_eq, lookup_cons_eq, ih]
        split
        · rename_i hj
          have hjk : j ≠ k := fun hjk => hne (hjk.symm.trans hj)
          rw [if_neg hjk]
        · rfl

@[simp] theorem find?_insert (k j : κ) (v : β) :
    (m.insert k v).find? j = if j = k then some v else m.find? j :=
  lookup_insertEntry k j v m.entries

/-! ### Entries and lookups -/

variable {l : List (κ × β)}

/-- No entry has a key below the keys of all entries. -/
theorem lookup_eq_none_of_lt {k : κ} (h : ∀ e ∈ l, k < e.1) : l.lookup k = none := by
  induction l with
  | nil => rfl
  | cons e l ih =>
    obtain ⟨he, hl⟩ := forall_mem_cons.mp h
    rw [lookup_cons_eq, if_neg he.ne, ih hl]

/-- Entries that are sorted already collect into themselves. -/
theorem find?_foldl_insert :
    ∀ (l : List (κ × β)) (m : SortedMap κ β), l.Pairwise (fun a b => a.1 < b.1) →
      (l.foldl (fun m e => m.insert e.1 e.2) m).find? k = (l.lookup k).or (m.find? k) := by
  intro l
  induction l with
  | nil => exact fun _ _ => rfl
  | cons e l ih =>
    intro m h
    obtain ⟨he, hl⟩ := pairwise_cons.mp h
    rw [foldl_cons, ih _ hl, find?_insert, lookup_cons_eq]
    split
    · rename_i hk
      rw [lookup_eq_none_of_lt (hk ▸ he)]
      rfl
    · rfl

theorem find?_ofList (h : l.Pairwise fun a b => a.1 < b.1) (k : κ) :
    (ofList l).find? k = l.lookup k := by
  rw [ofList, find?_foldl_insert k l empty h, find?_empty, Option.or_none]

/-! ### Sums over the entries -/

def sum (m : SortedMap κ β) (f : κ → β → Nat) : Nat := (m.entries.map fun e => f e.1 e.2).sum

theorem sum_insertEntry (f : κ → β → Nat) (k : κ) (v : β) :
    ∀ {l : List (κ × β)}, l.Pairwise (fun a b => a.1 < b.1) →
      ((insertEntry k v l).map fun e => f e.1 e.2).sum + (l.lookup k).elim 0 (f k)
        = (l.map fun e => f e.1 e.2).sum + f k v := by
  intro l
  induction l with
  | nil =>
    intro _
    simp [insertEntry]
  | cons e l ih =>
    intro h
    obtain ⟨he, hl⟩ := pairwise_cons.mp h
    unfold insertEntry
    split
    · rename_i hlt
      have hnone : (e :: l).lookup k = none :=
        lookup_eq_none_of_lt (forall_mem_cons.mpr ⟨hlt, fun a ha => hlt.trans (he a ha)⟩)
      rw [hnone, map_cons, sum_cons, Option.elim_none, add_zero, add_comm]
    · split
      · rename_i hk
        rw [lookup_cons_eq, if_pos hk]
        simp only [map_cons, sum_cons, Option.elim_some, hk]
        omega
      · rename_i hk
        rw [lookup_cons_eq, if_neg hk]
        have hrest := ih hl
        simp only [map_cons, sum_cons]
        omega

/-- An insertion adds the new entry to a sum and takes the old one out. -/
theorem sum_insert (f : κ → β → Nat) (k : κ) (v : β) :
    (m.insert k v).sum f + (m.find? k).elim 0 (f k) = m.sum f + f k v :=
  sum_insertEntry f k v m.sorted

/-- Where only one key counts, its entry is the whole sum. -/
theorem eq_zero_or_eq_sum {f : κ → β → Nat} {k : κ} :
    ∀ {l : List (κ × β)}, l.Pairwise (fun a b => a.1 < b.1) →
      (∀ e ∈ l, e.1 = k ∨ f e.1 e.2 = 0) →
      ∀ e ∈ l, f e.1 e.2 = 0 ∨ f e.1 e.2 = (l.map fun e => f e.1 e.2).sum := by
  intro l
  induction l with
  | nil => exact fun _ _ _ he => absurd he not_mem_nil
  | cons a l ih =>
    intro h hk
    obtain ⟨ha, hl⟩ := pairwise_cons.mp h
    obtain ⟨hka, hkl⟩ := forall_mem_cons.mp hk
    rw [map_cons, sum_cons]
    rcases hka with rfl | hzero
    · have hrest : ∀ b ∈ l, f b.1 b.2 = 0 := fun b hb => (hkl b hb).resolve_left (ha b hb).ne'
      rw [sum_eq_zero_iff.mpr (forall_mem_map.mpr hrest), add_zero]
      exact forall_mem_cons.mpr ⟨.inr rfl, fun b hb => .inl (hrest b hb)⟩
    · rw [hzero, zero_add]
      exact forall_mem_cons.mpr ⟨.inl hzero, ih hl hkl⟩

/-! ### Grouping -/

section Group

variable {M : Type} [AddCommMonoid M]

/-- Adds an amount to what a key holds. -/
def add (m : SortedMap κ M) (k : κ) (v : M) : SortedMap κ M :=
  m.insert k ((m.find? k).getD 0 + v)

/-- The amounts of a list, added up by key. -/
def group (items : List (κ × M)) : SortedMap κ M :=
  items.foldl (fun m e => m.add e.1 e.2) empty

section

variable {f : κ → M → Nat} (hzero : ∀ k, f k 0 = 0) (items : List (κ × M))

include hzero

/-- One more item joins the group that is already there. -/
theorem sum_group_concat (e : κ × M) :
    (group (items ++ [e])).sum f + f e.1 (((group items).find? e.1).getD 0)
      = (group items).sum f + f e.1 (((group items).find? e.1).getD 0 + e.2) := by
  have hadd := sum_insert (group items) f e.1 (((group items).find? e.1).getD 0 + e.2)
  have hold : ((group items).find? e.1).elim 0 (f e.1)
      = f e.1 (((group items).find? e.1).getD 0) := by
    cases (group items).find? e.1 with
    | none => exact (hzero e.1).symm
    | some v => rfl
  rw [hold] at hadd
  rw [group, foldl_append]
  exact hadd

/-- A function that is superadditive in the amount is at least as large on the groups as on the
items. -/
theorem sum_le_sum_group (hf : ∀ k a b, f k a + f k b ≤ f k (a + b)) :
    (items.map fun e => f e.1 e.2).sum ≤ (group items).sum f := by
  induction items using List.reverseRecOn with
  | nil => exact Nat.zero_le _
  | append_singleton items e ih =>
    have hadd := sum_group_concat hzero items e
    have hsup := hf e.1 (((group items).find? e.1).getD 0) e.2
    rw [map_append, sum_append, map_singleton, sum_singleton]
    omega

/-- A function that is additive in the amount has one sum over the items and over the groups. -/
theorem sum_group (hf : ∀ k a b, f k (a + b) = f k a + f k b) :
    (group items).sum f = (items.map fun e => f e.1 e.2).sum := by
  induction items using List.reverseRecOn with
  | nil => rfl
  | append_singleton items e ih =>
    have hadd := sum_group_concat hzero items e
    rw [hf] at hadd
    rw [map_append, sum_append, map_singleton, sum_singleton]
    omega

end

end Group

end SortedMap
