import Mathlib.Data.List.Forall2

/-!
# `Rudis.Lib.Lists`: lists that run in step

Facts about lists that are compared element by element: a list of pairs split into its parts and
put together again (`map_zipIdx_getD`, `pairwise_zip_keys`), a list related to another one
(`exists_forall₂`, `exists_of_forall₂_left`), and a list with one distinguished element
(`split_concat`, `find?_eq_of_nodup`).
-/

namespace Lists

open List

variable {α β γ : Type}

/-- If every element is related to something, the list is related to a list. -/
theorem exists_forall₂ {R : α → β → Prop} {l : List α} (h : ∀ a ∈ l, ∃ b, R a b) :
    ∃ r, Forall₂ R l r := by
  induction l with
  | nil => exact ⟨[], .nil⟩
  | cons a l ih =>
    obtain ⟨b, hb⟩ := h a mem_cons_self
    obtain ⟨r, hr⟩ := ih fun a' ha' => h a' (mem_cons_of_mem _ ha')
    exact ⟨b :: r, .cons hb hr⟩

/-- An element of the first of two related lists is related to one of the second. -/
theorem exists_of_forall₂_left {R : α → β → Prop} {l : List α} {r : List β}
    (h : Forall₂ R l r) {a : α} (ha : a ∈ l) : ∃ b ∈ r, R a b := by
  induction h with
  | nil => simp at ha
  | cons hab _ ih =>
    rcases mem_cons.mp ha with rfl | ha
    · exact ⟨_, mem_cons_self, hab⟩
    · obtain ⟨b, hb, hr⟩ := ih ha
      exact ⟨b, mem_cons_of_mem _ hb, hr⟩

/-- Numbering the first parts and reading the second parts back at the numbers restores the pairs. -/
theorem map_zipIdx_getD (f : α → Nat → β) : ∀ (l : List (α × Nat)) (pre : List Nat),
    ((l.map Prod.fst).zipIdx pre.length).map (fun e => f e.1 ((pre ++ l.map Prod.snd).getD e.2 0)) =
      l.map fun p => f p.1 p.2 := by
  intro l
  induction l with
  | nil => exact fun _ => rfl
  | cons p l ih =>
    intro pre
    have hcell : (pre ++ p.2 :: l.map Prod.snd).getD pre.length 0 = p.2 := by simp
    have hrest := ih (pre ++ [p.2])
    simp only [length_append, length_singleton, append_assoc, singleton_append] at hrest
    simp only [map_cons, zipIdx_cons, hcell, hrest]

/-- Ascending keys stay ascending under other values. -/
theorem pairwise_zip_keys [LT α] : ∀ {l : List (α × β)} (fs : List γ),
    l.Pairwise (fun a b => a.1 < b.1) →
      ((l.map Prod.fst).zip fs).Pairwise fun a b => a.1 < b.1 := by
  intro l
  induction l with
  | nil => exact fun _ _ => .nil
  | cons e l ih =>
    intro fs h
    obtain ⟨he, hl⟩ := pairwise_cons.mp h
    cases fs with
    | nil => exact .nil
    | cons f fs =>
      refine pairwise_cons.mpr ⟨?_, ih fs hl⟩
      intro a ha
      obtain ⟨x, hx, hxa⟩ := mem_map.mp (of_mem_zip ha).1
      exact hxa ▸ he x hx

/-- The ways to pick an element of a longer list. -/
theorem split_concat {l before after : List α} {x c : α} (h : l ++ [x] = before ++ c :: after) :
    (before = l ∧ c = x) ∨ ∃ after', l = before ++ c :: after' := by
  obtain rfl | ⟨after', y, rfl⟩ := after.eq_nil_or_concat'
  · obtain ⟨rfl, hx⟩ := append_inj' h rfl
    exact .inl ⟨rfl, by simpa using hx.symm⟩
  · rw [← cons_append, ← append_assoc] at h
    exact .inr ⟨after', (append_inj' h rfl).1⟩

/-- Looking up a key that the list has once. -/
theorem find?_eq_of_nodup [BEq β] [LawfulBEq β] {key : α → β} {l : List α} {a : α}
    (hnd : (l.map key).Nodup) (ha : a ∈ l) : l.find? (fun b => key b == key a) = some a := by
  induction l with
  | nil => simp at ha
  | cons b l ih =>
    rw [map_cons, nodup_cons] at hnd
    rcases mem_cons.mp ha with rfl | ha
    · simp
    · have hne : ¬ key b = key a := fun h => hnd.1 (h ▸ mem_map_of_mem ha)
      rw [find?_cons_of_neg (by simpa using hne)]
      exact ih hnd.2 ha

/-- A strictly decreasing list below a bound is no longer than the bound. -/
theorem length_le_of_pairwise_gt {l : List Nat} {n : Nat} (hl : l.Pairwise (· > ·))
    (hn : ∀ i ∈ l, i < n) : l.length ≤ n := by
  induction l generalizing n with
  | nil => exact Nat.zero_le n
  | cons i l ih =>
    have hi := hn i mem_cons_self
    have := ih (pairwise_cons.mp hl).2 fun j hj => (pairwise_cons.mp hl).1 j hj
    rw [length_cons]
    omega

end Lists
