import Rudis.Spec.Intex.Series

/-!
# `Rudis.Proofs.Intex.Series`: what the registry calls on a series do

One lemma for each call: when it succeeds and what it writes.
-/

namespace Rudis.Intex

open Tx

def SeriesStore.put (s : SeriesStore) (id : SeriesId) (record : SeriesRecord) : SeriesStore :=
  { s with series := update s.series id (some record) }

/-- Units are counted as settled or parked. -/
def SeriesStore.realize (s : SeriesStore) (id : SeriesId) (units : Nat) :
    RealizedKind → SeriesStore
  | .settled =>
    { s with settledUnits := update s.settledUnits id (s.settledUnits id + units) }
  | .parked => { s with parkedUnits := update s.parkedUnits id (s.parkedUnits id + units) }

/-- The units that are settled or parked. -/
def SeriesStore.realized (s : SeriesStore) (id : SeriesId) : Nat :=
  s.settledUnits id + s.parkedUnits id

section Registry

variable {s s' : SeriesStore} {u : Unit} {id : SeriesId}

theorem ok_loadSeries {r : SeriesRecord} :
    Ok (loadSeries id) s r s' ↔ s.series id = some r ∧ s' = s := by
  simp [loadSeries, and_assoc]

theorem ok_markQualified : Ok (markQualified id) s u s' ↔
    ∃ r, s.series id = some r ∧ r.state = .issued ∧ s' = s.put id { r with state := .qualified } := by
  simp [markQualified, ok_loadSeries, updateSeriesRecord, SeriesStore.put, and_assoc]

variable {calledAt issued parked settled units : Nat}

theorem ok_markCalled : Ok (markCalled id calledAt) s u s' ↔
    ∃ r, s.series id = some r ∧ (r.state = .issued ∨ r.state = .qualified) ∧
      s' = s.put id { r with state := .called, calledAt := calledAt } := by
  simp [markCalled, ok_loadSeries, updateSeriesRecord, SeriesStore.put, and_assoc, or_iff_not_imp_left]

theorem ok_createSeries {params : SeriesRecord} : Ok (createSeries id params) s u s' ↔
    params.issuedAt ≠ 0 ∧ s.series id = none ∧
      s' = s.put id { params with state := .issued, calledAt := 0 } := by
  simp [createSeries, updateSeriesRecord, SeriesStore.put, and_assoc]

theorem ok_expireSeries {f : Forfeited} : Ok (expireSeries id) s f s' ↔
    ∃ r, s.series id = some r ∧ r.state = .called ∧ s.realized id ≤ r.issuedIntexCount ∧
      f = ⟨r.issuedIntexCount - s.realized id, r.promisLoadMinor⟩ ∧
      s' = s.put id { r with state := .expired } := by
  simp only [expireSeries, rules, ok_loadSeries, okOr_eq_ok, checkedSub_eq_some,
    updateSeriesRecord, id_eq, SeriesStore.realized, SeriesStore.put]
  refine exists_congr fun r => and_congr_right fun _ => and_congr_right fun _ => ?_
  constructor
  · rintro ⟨hs, hp, rfl, rfl⟩
    exact ⟨by omega, by rw [Nat.sub_sub], rfl⟩
  · rintro ⟨h, rfl, rfl⟩
    exact ⟨by omega, by omega, by rw [Nat.sub_sub], rfl⟩

variable {kind : RealizedKind}

/-- The counters advance if the sum fits its word and the issued count. -/
theorem realizedUnits_eq_ok
    {r : Nat × Nat} :
    realizedUnits kind settled parked units issued = .ok r ↔
      settled + parked + units < 2 ^ 32 ∧ settled + parked + units ≤ issued ∧
        r = match kind with
          | .settled => (settled + units, parked)
          | .parked => (settled, parked + units) := by
  cases kind
  all_goals
    simp only [realizedUnits, laws, checkedAdd_eq_some, and_assoc, ↓existsAndEq, true_and,
      not_lt, exists_unit]
    constructor
    · rintro ⟨-, hword, hroom, rfl⟩
      exact ⟨by omega, by omega, rfl⟩
    · rintro ⟨hword, hroom, rfl⟩
      exact ⟨by omega, by omega, by omega, rfl⟩

theorem ok_addRealizedUnits :
    Ok (addRealizedUnits id units kind) s u s' ↔
      units = 0 ∧ s' = s ∨
      units ≠ 0 ∧ s.realized id + units < 2 ^ 32 ∧
        s.realized id + units ≤ (s.series id).elim 0 (·.issuedIntexCount) ∧
        s' = s.realize id units kind := by
  unfold addRealizedUnits
  rw [ok_ite]
  refine or_congr (by simp) (and_congr_right fun _ => ?_)
  simp only [rules, realizedUnits_eq_ok, id_eq]
  cases kind <;> rfl

end Registry

end Rudis.Intex
