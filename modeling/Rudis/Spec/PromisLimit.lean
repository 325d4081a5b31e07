import Rudis.Spec.Primitives

/-!
# `Rudis.Spec.PromisLimit`: the accumulator of unallocated emission

`promislimit/src/ocomp_budget.rs`: the total of the emission no day has allocated, in six-decimal
protocol units, and the checked credit of late fee settlement.
-/

namespace Rudis.PromisLimit

/-- A credit, with the total around it. -/
structure CarryOverCredit where
  before : Nat
  credited : Nat
  after : Nat

/-- Adds to the unallocated total. -/
def checkedAddCarryOver (amount : Nat) : Call Nat CarryOverCredit := do
  let before ← reads id
  let after ← ofExcept
    (okOr (checkedAdd 256 before amount) (.revert "promislimit total_unallocated overflow"))
  modify fun _ => after
  pure ⟨before, amount, after⟩

@[simp] theorem ok_checkedAddCarryOver {amount before after : Nat} {credit : CarryOverCredit} :
    Ok (checkedAddCarryOver amount) before credit after ↔
      before + amount < 2 ^ 256 ∧ after = before + amount ∧ credit = ⟨before, amount, after⟩ := by
  simp only [checkedAddCarryOver, rules, okOr_eq_ok, checkedAdd_eq_some, id]
  constructor
  · rintro ⟨h, rfl, rfl⟩
    exact ⟨h, rfl, rfl⟩
  · rintro ⟨h, rfl, rfl⟩
    exact ⟨h, rfl, rfl⟩

end Rudis.PromisLimit
