import Mathlib.Logic.Function.Basic
import Mathlib.Algebra.Notation.Defs

/-!
# `Rudis.Lib.Binding`: two maps that bind keys to values one to one

A binding is kept in two maps, `f` from a key to its value and `g` from a value back to its key,
with zero for "nothing bound". `Bound f g` says that they agree on every non-zero key. Then no
value is bound to two keys, and `Bound.assign`, `Bound.release` give the two updates that keep
the maps in step.

`Owns g member key` is the one-map variant: each member has a key, and `g` gives a key its owner.
`Owns.claim` enters a new member and `Owns.release` drops one.
-/

variable {α β : Type} [Zero α] [Zero β]

/-- A non-zero key is bound to a value exactly when the value points back to it. -/
def Bound (f : α → β) (g : β → α) : Prop := ∀ a b, a ≠ 0 → ((f a = b ∧ b ≠ 0) ↔ g b = a)

open Function (update update_of_ne update_self)

namespace Bound

variable {f : α → β} {g : β → α} {a : α} {b : β}

theorem back (h : Bound f g) (ha : a ≠ 0) (hb : f a ≠ 0) : g (f a) = a :=
  (h a (f a) ha).mp ⟨rfl, hb⟩

variable [DecidableEq α] [DecidableEq β]

/-- Binds `b` to `a` after what `a` was bound to is released. -/
theorem assign (h : Bound f g) (ha : a ≠ 0) (hb : b ≠ 0) (hfree : g b = 0 ∨ g b = a) :
    Bound (update f a b) (update (if f a ≠ 0 then update g (f a) 0 else g) b a) := by
  intro a' b' ha'
  by_cases hbb : b' = b
  · subst hbb
    rw [update_self]
    by_cases haa : a' = a
    · subst haa
      simp [hb]
    · rw [update_of_ne haa]
      refine ⟨fun hbound => ?_, fun heq => absurd heq.symm haa⟩
      have hback := (h a' b' ha').mp hbound
      rw [hback] at hfree
      exact absurd hfree (not_or.mpr ⟨ha', haa⟩)
  · rw [update_of_ne hbb]
    by_cases haa : a' = a
    · subst haa
      rw [update_self]
      refine ⟨fun hbound => absurd hbound.1.symm hbb, fun hback => ?_⟩
      split at hback
      · by_cases hold : b' = f a'
        · rw [hold, update_self] at hback
          exact absurd hback.symm ha'
        · rw [update_of_ne hold] at hback
          exact absurd ((h a' b' ha').mpr hback).1.symm hold
      · rename_i hnone
        have hbound := (h a' b' ha').mpr hback
        exact absurd (hbound.1.symm.trans (not_not.mp hnone)) hbound.2
    · rw [update_of_ne haa, h a' b' ha']
      split
      · rename_i hsome
        by_cases hold : b' = f a
        · rw [hold, update_self, h.back ha hsome]
          exact ⟨fun heq => absurd heq.symm haa, fun heq => absurd heq.symm ha'⟩
        · rw [update_of_ne hold]
      · rfl

/-- Releases what `a` is bound to. -/
theorem release (h : Bound f g) (ha : a ≠ 0) (hb : f a ≠ 0) :
    Bound (update f a 0) (update g (f a) 0) := by
  intro a' b' ha'
  by_cases hbb : b' = f a
  · subst hbb
    rw [update_self]
    refine ⟨fun hbound => ?_, fun heq => absurd heq.symm ha'⟩
    by_cases haa : a' = a
    · subst haa
      rw [update_self] at hbound
      exact absurd hbound.1.symm hb
    · rw [update_of_ne haa] at hbound
      exact absurd (((h a' _ ha').mp hbound).symm.trans (h.back ha hb)) haa
  · rw [update_of_ne hbb, ← h a' b' ha']
    by_cases haa : a' = a
    · subst haa
      rw [update_self]
      exact ⟨fun hbound => absurd hbound.1.symm hbound.2, fun hbound => absurd hbound.1.symm hbb⟩
    · rw [update_of_ne haa]

end Bound

variable {κ : Type}

def Owns (g : κ → α) (member : α → Prop) (key : α → κ) : Prop :=
  ∀ k a, a ≠ 0 → (g k = a ↔ member a ∧ key a = k)

namespace Owns

variable [DecidableEq κ] {g : κ → α} {member member' : α → Prop} {key key' : α → κ} {a : α} {k : κ}

/-- A new member takes a key nobody else owns. -/
theorem claim (h : Owns g member key) (ha : a ≠ 0) (hnew : ¬ member a)
    (hfree : g k = 0 ∨ g k = a) (hmember : ∀ b, member' b ↔ b = a ∨ member b)
    (hkey : key' a = k) (hkeys : ∀ b, b ≠ a → key' b = key b) :
    Owns (update g k a) member' key' := by
  intro k' b hb
  rw [hmember]
  by_cases hba : b = a
  · subst hba
    by_cases hk : k' = k
    · subst hk
      simp [hkey]
    · rw [update_of_ne hk, h k' b hb, hkey]
      exact ⟨fun hown => absurd hown.1 hnew, fun hown => absurd hown.2.symm hk⟩
  · rw [hkeys b hba]
    simp only [hba, false_or]
    by_cases hk : k' = k
    · subst hk
      rw [update_self, ← h k' b hb]
      refine ⟨fun heq => absurd heq.symm hba, fun hown => ?_⟩
      rw [hown] at hfree
      exact absurd hfree (not_or.mpr ⟨hb, hba⟩)
    · rw [update_of_ne hk]
      exact h k' b hb

/-- A member leaves and its key is free. -/
theorem release (h : Owns g member key) (ha : a ≠ 0) (hmem : member a)
    (hmember : ∀ b, member' b ↔ b ≠ a ∧ member b) (hkeys : ∀ b, b ≠ a → key' b = key b) :
    Owns (update g (key a) 0) member' key' := by
  intro k b hb
  have howner : g (key a) = a := (h (key a) a ha).mpr ⟨hmem, rfl⟩
  rw [hmember]
  by_cases hba : b = a
  · subst hba
    simp only [ne_eq, not_true_eq_false, false_and, iff_false]
    by_cases hk : k = key b
    · subst hk
      rw [update_self]
      exact fun heq => hb heq.symm
    · rw [update_of_ne hk, h k b hb]
      exact fun hown => hk hown.2.symm
  · rw [hkeys b hba]
    simp only [ne_eq, hba, not_false_eq_true, true_and]
    by_cases hk : k = key a
    · subst hk
      rw [update_self, ← h (key a) b hb, howner]
      exact ⟨fun heq => absurd heq.symm hb, fun heq => absurd heq.symm hba⟩
    · rw [update_of_ne hk]
      exact h k b hb

end Owns
