import Rudis.Spec.Primitives

/-!
# `Rudis.Spec.ActiveSet`: sets of worldwide days

The dense sets the block hooks walk: Desis' schedule and gate, and the awaiting and active
distribution sets of Intex. Each is a count, the member at each position and the position of each
member plus one, kept by appending and by swap-remove. A count is a `u32` of distinct `u32` days and
does not overflow.
-/

namespace Rudis.Days

open Function (update)

/-- A set of days as a dense list with the slot of each member, zero for a day outside. -/
structure ActiveSet where
  count : Nat
  dayAt : Nat → WorldwideDay
  slot : WorldwideDay → Nat

namespace ActiveSet

def empty : ActiveSet := ⟨0, fun _ => 0, fun _ => 0⟩

/-- Appends a day (idempotent). -/
def push (s : ActiveSet) (day : WorldwideDay) : ActiveSet :=
  if s.slot day ≠ 0 then s
  else
    { count := s.count + 1
      dayAt := update s.dayAt s.count day
      slot := update s.slot day (s.count + 1) }

/-- Removes a day via swap-remove (idempotent). -/
def remove (s : ActiveSet) (day : WorldwideDay) : ActiveSet :=
  let slot1 := s.slot day
  if slot1 = 0 then s
  else
    let idx := slot1 - 1
    let last := s.count - 1
    let lastDay := s.dayAt last
    let dayAt := if idx ≠ last then update s.dayAt idx lastDay else s.dayAt
    let slot := if idx ≠ last then update s.slot lastDay (idx + 1) else s.slot
    { count := last
      dayAt := update dayAt last 0
      slot := update slot day 0 }

/-- The members in list order. -/
def days (s : ActiveSet) : List WorldwideDay := (List.range s.count).map s.dayAt

end ActiveSet

end Rudis.Days
