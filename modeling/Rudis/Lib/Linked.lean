import Mathlib.Data.List.Nodup

/-!
# `Rudis.Lib.Linked`: singly linked lists threaded through an array

A list of array slots is threaded by links stored as index plus one, zero ending the list.
`Linked.Seg next p l` says that following `next` from the stored link `p` visits exactly the
slots `l` and ends. A list is determined by its first link (`Seg.unique`), only the links of its
own slots matter (`Seg.congr`), and relinking its last slot appends one (`Seg.snoc`).
-/

namespace Linked

open List

/-- Following `next` from the stored link visits exactly these slots. -/
def Seg (next : Nat → Nat) : Nat → List Nat → Prop
  | p, [] => p = 0
  | p, i :: l => p = i + 1 ∧ Seg next (next i) l

variable {next next' : Nat → Nat}

/-- Only the links of the visited slots matter. -/
theorem Seg.congr : ∀ {l : List Nat} {p : Nat}, Seg next p l → (∀ i ∈ l, next' i = next i) →
    Seg next' p l := by
  intro l
  induction l with
  | nil => exact fun h _ => h
  | cons i l ih =>
    intro p h heq
    refine ⟨h.1, ?_⟩
    rw [heq i mem_cons_self]
    exact ih h.2 fun j hj => heq j (mem_cons_of_mem i hj)

/-- The first link determines the list. -/
theorem Seg.unique : ∀ {l l' : List Nat} {p : Nat}, Seg next p l → Seg next p l' → l = l' := by
  intro l
  induction l with
  | nil =>
    intro l' p h h'
    cases l' with
    | nil => rfl
    | cons j l' => exact absurd (h.symm.trans h'.1) (by omega)
  | cons i l ih =>
    intro l' p h h'
    cases l' with
    | nil => exact absurd (h'.symm.trans h.1) (by omega)
    | cons j l' =>
      have hij : i = j := by
        have := h.1.symm.trans h'.1
        omega
      subst hij
      rw [ih h.2 h'.2]

/-- A list ends where its link is zero. -/
theorem Seg.eq_nil {l : List Nat} (h : Seg next 0 l) : l = [] := h.unique (show Seg next 0 [] from rfl)

/-- Relinking the last slot to a new one, and ending the list there, appends it. -/
theorem Seg.snoc {j last : Nat} : ∀ {l : List Nat} {p : Nat}, Seg next p l → l.Nodup →
    l.getLast? = some last → (∀ i ∈ l, i ≠ last → next' i = next i) → next' last = j + 1 →
    next' j = 0 → Seg next' p (l ++ [j]) := by
  intro l
  induction l with
  | nil =>
    intro p _ _ hlast
    cases hlast
  | cons i l ih =>
    intro p h hnd hlast heq hl hj
    cases l with
    | nil =>
      simp only [getLast?_singleton, Option.some.injEq] at hlast
      subst hlast
      exact ⟨h.1, hl, hj⟩
    | cons k l =>
      have hne : i ≠ last := by
        intro he
        rw [getLast?_cons_cons] at hlast
        exact (nodup_cons.mp hnd).1 (he ▸ mem_of_getLast? hlast)
      refine ⟨h.1, ?_⟩
      rw [heq i mem_cons_self hne]
      refine ih h.2 (nodup_cons.mp hnd).2 ?_ (fun a ha => heq a (mem_cons_of_mem i ha)) hl hj
      rwa [getLast?_cons_cons] at hlast

end Linked
