import Mathlib.Algebra.Order.BigOperators.Group.Finset
import Mathlib.Algebra.Ring.Nat

/-!
# `Rudis.Lib.Rationing`: serving demands in order from a limited supply

`served d s l` walks the list `l` and gives each element what it demands while the supply `s` lasts.
The last element served may get less, and after it nobody gets anything (`served_pairwise`). So the
elements that get something are a prefix of those that want something (`receivers_prefix`), all but
the last of them in full (`full_of_front`), and together they get the supply or the whole demand,
whichever is less (`sum_served`).
-/

/-- Where an element that passes has only passing elements before it, those that pass are a
prefix. -/
theorem List.filter_prefix_of_pairwise {α : Type} {p : α → Bool} :
    ∀ {l : List α}, l.Pairwise (fun a b => p b = true → p a = true) → l.filter p <+: l := by
  intro l
  induction l with
  | nil => exact fun _ => prefix_rfl
  | cons a l ih =>
    intro h
    obtain ⟨ha, hl⟩ := pairwise_cons.mp h
    by_cases hp : p a = true
    · rw [filter_cons_of_pos hp]
      exact cons_prefix_cons.mpr ⟨rfl, ih hl⟩
    · -- nothing after a failing element passes
      have hnil : l.filter p = [] := filter_eq_nil_iff.mpr fun b hb hpb => hp (ha b hb hpb)
      rw [filter_cons_of_neg hp, hnil]
      exact nil_prefix

namespace Rationing

open List

variable {α : Type} (d : α → Nat)

/-- Each element with what it gets. -/
def served (s : Nat) : List α → List (α × Nat)
  | [] => []
  | a :: l => (a, min (d a) s) :: served (s - d a) l

@[simp] theorem map_fst_served : ∀ (l : List α) (s : Nat), (served d s l).map Prod.fst = l := by
  intro l
  induction l with
  | nil => exact fun _ => rfl
  | cons a l ih =>
    intro s
    simp [served, ih]

/-- The supply or the whole demand is given out, whichever is less. -/
theorem sum_served : ∀ (l : List α) (s : Nat),
    ((served d s l).map Prod.snd).sum = min s (l.map d).sum := by
  intro l
  induction l with
  | nil => simp [served]
  | cons a l ih =>
    intro s
    simp only [served, map_cons, sum_cons, ih]
    omega

/-- Without supply nobody gets anything. -/
theorem served_zero (l : List α) : served d 0 l = l.map fun a => (a, 0) := by
  induction l with
  | nil => rfl
  | cons a l ih => simp [served, ih]

theorem le_of_mem_served {s : Nat} {l : List α} {p : α × Nat} (h : p ∈ served d s l) :
    p.2 ≤ d p.1 := by
  induction l generalizing s with
  | nil => cases h
  | cons a l ih =>
    rcases mem_cons.mp h with rfl | h
    · exact min_le_left _ _
    · exact ih h

/-- After an element that got less than it wanted nobody gets anything. -/
theorem served_pairwise : ∀ (l : List α) (s : Nat),
    (served d s l).Pairwise fun p q => p.2 < d p.1 → q.2 = 0 := by
  intro l
  induction l with
  | nil => exact fun _ => List.Pairwise.nil
  | cons a l ih =>
    intro s
    refine pairwise_cons.mpr ⟨fun q hq hlt => ?_, ih _⟩
    -- the supply ended at `a`
    have hs : s - d a = 0 := by
      have : min (d a) s < d a := hlt
      omega
    rw [hs, served_zero] at hq
    obtain ⟨b, -, rfl⟩ := mem_map.mp hq
    rfl

/-- Those that get something, in order. -/
def receivers (lots : List (α × Nat)) : List (α × Nat) := lots.filter fun p => 0 < p.2

variable {front lots : List (α × Nat)}

theorem mem_receivers {p : α × Nat} : p ∈ receivers lots ↔ p ∈ lots ∧ 0 < p.2 := by
  simp [receivers]

/-- Those that get something come first among those that want something. -/
theorem receivers_prefix (l : List α) (s : Nat) :
    receivers (served d s l) <+: (served d s l).filter fun p => 0 < d p.1 := by
  have hsame : receivers (served d s l) =
      ((served d s l).filter fun p => 0 < d p.1).filter fun p => 0 < p.2 := by
    rw [filter_filter]
    refine filter_congr fun p hp => ?_
    have := le_of_mem_served d hp
    simp only [← Bool.decide_and, decide_eq_decide]
    omega
  rw [hsame]
  refine filter_prefix_of_pairwise ?_
  refine List.Pairwise.imp_of_mem (fun {p q} hp _ h hq => ?_) ((served_pairwise d l s).filter _)
  have hd : 0 < d p.1 := by simpa using (mem_filter.mp hp).2
  have hq : 0 < q.2 := by simpa using hq
  -- an element that wants something and gets nothing ends the walk
  have hp : ¬ p.2 < d p.1 := fun hlt => by
    have := h hlt
    omega
  simp only [decide_eq_true_eq]
  omega

/-- Only the last receiver may get less than it wanted. -/
theorem full_of_front {l : List α} {s : Nat} {last p : α × Nat}
    (h : receivers (served d s l) = front ++ [last]) (hp : p ∈ front) : p.2 = d p.1 := by
  have hpair : (front ++ [last]).Pairwise fun p q => p.2 < d p.1 → q.2 = 0 :=
    h ▸ (served_pairwise d l s).filter _
  have hmem : last ∈ receivers (served d s l) := by
    rw [h]
    exact mem_append_right _ (mem_singleton.mpr rfl)
  have hlast : 0 < last.2 := (mem_receivers.mp hmem).2
  have hle : p.2 ≤ d p.1 := by
    have hmem : p ∈ receivers (served d s l) := h ▸ mem_append_left _ hp
    exact le_of_mem_served d (mem_receivers.mp hmem).1
  have hstop := (pairwise_append.mp hpair).2.2 p hp last (mem_singleton.mpr rfl)
  by_contra hne
  have := hstop (by omega)
  omega

end Rationing
