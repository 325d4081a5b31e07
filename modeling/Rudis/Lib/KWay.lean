import Mathlib.Data.List.Sort

/-!
# `Rudis.Lib.KWay`: merging sorted runs

`popLeast` takes the least head of several runs, the first run's among equals, and `popAll` takes
heads until none is left. Over sorted runs the result is the sorted list of all their elements.
`group` cuts a list in groups of one size; the groups together are the list (`flatten_groups`).
-/

namespace Rudis.KWay

open List

variable {α : Type} (le : α → α → Bool)

/-- The least head and the runs without it. -/
def popLeast : List (List α) → Option (α × List (List α))
  | [] => none
  | [] :: runs => (popLeast runs).map fun p => (p.1, [] :: p.2)
  | (a :: run) :: runs =>
    match popLeast runs with
    | none => some (a, run :: runs)
    | some p => if le a p.1 then some (a, run :: runs) else some (p.1, (a :: run) :: p.2)

/-- Takes at most `count` least heads. -/
def popAll : Nat → List (List α) → List α
  | 0, _ => []
  | count + 1, runs =>
    match popLeast le runs with
    | none => []
    | some p => p.1 :: popAll count p.2

variable {runs : List (List α)}

/-- Only runs without elements have no least head. -/
theorem popLeast_eq_none (h : popLeast le runs = none) : runs.flatten = [] := by
  induction runs with
  | nil => rfl
  | cons run runs ih =>
    cases run with
    | nil =>
      simp only [popLeast, Option.map_eq_none_iff] at h
      simpa using ih h
    | cons a run =>
      simp only [popLeast] at h
      split at h
      · exact nomatch h
      · split at h <;> exact nomatch h

variable {p : α × List (List α)}

/-- Popping moves one element out of the runs. -/
theorem popLeast_perm (h : popLeast le runs = some p) : runs.flatten.Perm (p.1 :: p.2.flatten) := by
  induction runs generalizing p with
  | nil => exact nomatch h
  | cons run runs ih =>
    cases run with
    | nil =>
      obtain ⟨q, hq, rfl⟩ := Option.map_eq_some_iff.1 h
      simpa using ih hq
    | cons a run =>
      simp only [popLeast] at h
      split at h
      · obtain rfl := Option.some.inj h
        simp
      · next q hq =>
        split at h
        · obtain rfl := Option.some.inj h
          simp
        · obtain rfl := Option.some.inj h
          -- the head of a later run is moved in front of this run
          simp only [flatten_cons]
          have hmove : ((a :: run) ++ runs.flatten).Perm ((a :: run) ++ (q.1 :: q.2.flatten)) :=
            (ih hq).append_left _
          exact hmove.trans perm_middle

section Sorted

variable {le} (htrans : ∀ a b c, le a b = true → le b c = true → le a c = true)
  (htotal : ∀ a b, le a b = true ∨ le b a = true)
include htrans htotal

/-- The popped head is least, and the runs stay sorted. -/
theorem popLeast_least (hsorted : ∀ run ∈ runs, run.Pairwise fun a b => le a b = true)
    (h : popLeast le runs = some p) :
    (∀ b ∈ runs.flatten, le p.1 b = true) ∧
      ∀ run ∈ p.2, run.Pairwise fun a b => le a b = true := by
  have hrefl : ∀ a, le a a = true := fun a => (htotal a a).elim id id
  induction runs generalizing p with
  | nil => exact nomatch h
  | cons run runs ih =>
    have htail : ∀ run ∈ runs, run.Pairwise fun a b => le a b = true :=
      fun r hr => hsorted r (mem_cons_of_mem _ hr)
    cases run with
    | nil =>
      obtain ⟨q, hq, rfl⟩ := Option.map_eq_some_iff.1 h
      obtain ⟨hleast, hrest⟩ := ih htail hq
      exact ⟨by simpa using hleast, forall_mem_cons.2 ⟨List.Pairwise.nil, hrest⟩⟩
    | cons a run =>
      obtain ⟨ha, hrun⟩ := pairwise_cons.1 (hsorted (a :: run) mem_cons_self)
      have hown : ∀ b ∈ a :: run, le a b = true := forall_mem_cons.2 ⟨hrefl a, ha⟩
      simp only [popLeast] at h
      -- the runs left when the head of the first run is popped
      have hfirst : ∀ r ∈ run :: runs, r.Pairwise fun a b => le a b = true :=
        forall_mem_cons.2 ⟨hrun, htail⟩
      split at h
      · next hnone =>
        obtain rfl := Option.some.inj h
        refine ⟨?_, hfirst⟩
        rw [flatten_cons, popLeast_eq_none le hnone, append_nil]
        exact hown
      · next q hq =>
        obtain ⟨hleast, hrest⟩ := ih htail hq
        split at h
        · next hle =>
          obtain rfl := Option.some.inj h
          exact ⟨forall_mem_append.2 ⟨hown, fun b hb => htrans _ _ _ hle (hleast b hb)⟩, hfirst⟩
        · next hle =>
          obtain rfl := Option.some.inj h
          have hqa : le q.1 a = true := (htotal a q.1).resolve_left hle
          exact ⟨forall_mem_append.2 ⟨fun b hb => htrans _ _ _ hqa (hown b hb), hleast⟩,
            forall_mem_cons.2 ⟨hsorted _ mem_cons_self, hrest⟩⟩

/-- Popping as many heads as there are elements sorts them. -/
theorem popAll_spec {count : Nat}  (hsorted : ∀ run ∈ runs, run.Pairwise fun a b => le a b = true)
    (hcount : runs.flatten.length = count) :
    (popAll le count runs).Perm runs.flatten ∧
      (popAll le count runs).Pairwise fun a b => le a b = true := by
  induction count generalizing runs with
  | zero => exact ⟨by rw [length_eq_zero_iff.1 hcount]; rfl, List.Pairwise.nil⟩
  | succ count ih =>
    cases hpop : popLeast le runs with
    | none =>
      rw [popLeast_eq_none le hpop] at hcount
      exact nomatch hcount
    | some p =>
      have hperm := popLeast_perm le hpop
      obtain ⟨hleast, hrest⟩ := popLeast_least htrans htotal hsorted hpop
      have hlength : p.2.flatten.length = count := by
        have := hperm.length_eq
        rw [length_cons, hcount] at this
        omega
      obtain ⟨hp, hs⟩ := ih hrest hlength
      have hall : popAll le (count + 1) runs = p.1 :: popAll le count p.2 := by
        simp only [popAll, hpop]
      rw [hall]
      refine ⟨(hp.cons p.1).trans hperm.symm, pairwise_cons.2 ⟨fun b hb => ?_, hs⟩⟩
      exact hleast b (hperm.symm.subset (mem_cons_of_mem _ (hp.subset hb)))

end Sorted

/-! ### Groups -/

def group (size : Nat) (l : List α) (i : Nat) : List α := (l.drop (i * size)).take size

theorem group_subset {size i : Nat} {l : List α} {a : α} (h : a ∈ group size l i) : a ∈ l :=
  mem_of_mem_drop (mem_of_mem_take h)

/-- The first groups together are the front of the list. -/
theorem flatten_groups (size count : Nat) (l : List α) :
    ((List.range count).map (group size l)).flatten = l.take (count * size) := by
  induction count with
  | zero => simp
  | succ count ih =>
    rw [range_succ, map_append, flatten_append, ih, Nat.succ_mul, take_add]
    simp [group]

end Rudis.KWay
