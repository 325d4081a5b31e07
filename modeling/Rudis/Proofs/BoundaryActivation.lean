import Rudis.Proofs.Consistency

/-!
# `Rudis.Proofs.BoundaryActivation`: boundary activation is exact and all or nothing

The planner gives a share exactly to the validators in the new set, and the contract compares the
planned participants with the new set before it writes. So the consensus set after a successful
activation is the new set (`Activates.getActiveConsensusSet_perm`). `activateBoundary_exact` puts
this together with what a boundary leaves alone, and with the failures, which change nothing.
-/

namespace Rudis.ValidatorSet

open List

variable {X : Externals} {vs vs' : Store} {newActiveSet exclusions : List Address}
  {freezeHeight : Nat}

/-! ### The consensus set afterwards -/

namespace Activates

variable {ts : List (ValidatorState × ValidatorState)}

variable (h : Activates X newActiveSet freezeHeight exclusions ts vs vs')

include h

/-- The participants of the plan are the entries in the new set. -/
theorem plannedParticipants_eq :
    plannedParticipants ts = vs.registry.entries.filter (· ∈ newActiveSet) := by
  rw [← h.entries, filter_map, plannedParticipants]
  have hfilter : ts.filter (fun t => t.2.lifecycle.isCurrentConsensusParticipant) =
      ts.filter ((fun a => decide (a ∈ newActiveSet)) ∘ fun t => t.1.address) :=
    filter_congr fun t ht => (h.next_ok ht).2.1
  rw [hfilter]
  exact map_congr_left fun t ht => (h.planned t (mem_of_mem_filter ht)).address

theorem plannedParticipants_perm : (plannedParticipants ts).Perm newActiveSet := by
  have hnodup : (plannedParticipants ts).Nodup := by
    rw [h.plannedParticipants_eq]
    exact (entries_nodup h.scan).filter _
  exact (hnodup.subperm h.subset).perm_of_length_le (le_of_eq h.length_eq.symm)

/-- An entry of a registry that can be scanned is registered. -/
theorem planned_ne_absent {t : ValidatorState × ValidatorState} (ht : t ∈ ts) :
    t.2.lifecycle ≠ .absent := by
  have hmem : t.1.address ∈ vs.registry.entries := h.entries ▸ mem_map_of_mem ht
  obtain ⟨i, hi, heq⟩ := mem_map.mp hmem
  have hrange := mem_range'_1.mp hi
  have hback := ((registeredValidatorAddresses_eq_ok.mp h.scan).2 i (by omega) (by omega)).2
  refine (registered_iff (h.reads ht)).mp ?_
  rw [Registered, h.frame.1, ← heq, hback]
  omega

/-- The consensus set after the boundary holds the addresses of the new set. -/
theorem getActiveConsensusSet_perm :
    ∃ records, getActiveConsensusSet X vs' = .ok records ∧
      (records.map (·.validatorAddress)).Perm newActiveSet := by
  have hregistry := h.frame.1
  have hscan : registeredValidatorAddresses vs' = .ok vs'.registry.entries := by
    have hscan := registeredValidatorAddresses_eq_ok.mp h.scan
    rw [registeredValidatorAddresses_eq_ok, hregistry]
    exact hscan
  obtain ⟨records, hrecords, hmap⟩ := getValidatorsMatching_eq (X := X)
    ValidatorLifecycle.isCurrentConsensusParticipant
    (g := fun a => decide (a ∈ newActiveSet)) hscan (fun a ha => by
      rw [hregistry, ← h.entries] at ha
      obtain ⟨t, ht, rfl⟩ := mem_map.mp ha
      refine ⟨t.2.lifecycle, ?_, h.planned_ne_absent ht, (h.next_ok ht).2.1⟩
      rw [h.reads ht, ← (h.planned t ht).address])
  refine ⟨records, hrecords, ?_⟩
  rw [hmap, hregistry, ← h.plannedParticipants_eq]
  exact h.plannedParticipants_perm

/-- A registered validator has a transition in the plan. -/
theorem exists_transition (hvs : Consistent X vs) {a : Address}
    {l : ValidatorLifecycle} (hread : validatorState X vs a = .ok ⟨a, l⟩) (hl : l ≠ .absent) :
    ∃ t ∈ ts, t.1 = ⟨a, l⟩ := by
  obtain ⟨hlo, hhi, hback⟩ := hvs.index a ((registered_iff hread).mpr hl)
  have hmem : a ∈ vs.registry.entries :=
    mem_map.mpr ⟨_, mem_range'_1.mpr (by omega), hback⟩
  rw [← h.entries] at hmem
  obtain ⟨t, ht, rfl⟩ := mem_map.mp hmem
  exact ⟨t, ht, Except.ok.inj ((h.planned t ht).read.symm.trans hread)⟩

/-- Stake, slash count and join height of every address stay. -/
theorem keeps (a : Address) :
    (vs'.val a).stake = (vs.val a).stake ∧ (vs'.val a).slashCount = (vs.val a).slashCount ∧
      (vs'.val a).joinedAtHeight = (vs.val a).joinedAtHeight := by
  by_cases ha : a ∈ vs.registry.entries
  · rw [← h.entries] at ha
    obtain ⟨t, ht, rfl⟩ := mem_map.mp ha
    have hbefore := (decodeSlots_ok (validatorState_eq_ok.mp (h.planned t ht).read).1).2.1
    have hafter := (decodeSlots_ok (validatorState_eq_ok.mp (h.reads ht)).1).2.1
    have hkeeps := (h.next_ok ht).1
    refine ⟨?_, ?_, ?_⟩
    · rw [hafter.stake, hbefore.stake, hkeeps.mirrors.2]
    · rw [hafter.slashCount, hbefore.slashCount, hkeeps.slashCount]
    · rw [hafter.joinedAtHeight, hbefore.joinedAtHeight, hkeeps.joinedAtHeight]
  · rw [h.frame.2 a ha]
    exact ⟨rfl, rfl, rfl⟩

end Activates

/-! ### All or nothing -/

/-- What a successful activation leaves. -/
structure BoundaryExact (X : Externals) (newActiveSet : List Address) (freezeHeight : Nat)
    (exclusions : List Address) (vs vs' : Store) : Prop where
  /-- The consensus set afterwards is the new set, which names no address twice. -/
  consensusSet : newActiveSet.Nodup ∧ ∃ records, getActiveConsensusSet X vs' = .ok records ∧
    (records.map (·.validatorAddress)).Perm newActiveSet
  active : ∀ a s, validatorState X vs a = .ok ⟨a, .active s⟩ → a ∈ newActiveSet ∨ a ∈ exclusions
  /-- An exiting or retained jailed validator keeps its share exactly when it left after the
  freeze. -/
  share : ∀ a l height, validatorState X vs a = .ok ⟨a, l⟩ → l.leftAt = some height →
    ((vs'.val a).hasBlsShare = true ↔ freezeHeight < height)
  registry : vs'.registry = vs.registry
  keeps : ∀ a, (vs'.val a).stake = (vs.val a).stake ∧
    (vs'.val a).slashCount = (vs.val a).slashCount ∧
    (vs'.val a).joinedAtHeight = (vs.val a).joinedAtHeight

theorem Activates.exact (hvs : Consistent X vs) {ts : List (ValidatorState × ValidatorState)}
    (h : Activates X newActiveSet freezeHeight exclusions ts vs vs') :
    BoundaryExact X newActiveSet freezeHeight exclusions vs vs' := by
  refine ⟨⟨h.nodup, h.getActiveConsensusSet_perm⟩, fun a s hread => ?_,
    fun a l height hread hleft => ?_, h.frame.1, h.keeps⟩
  · obtain ⟨t, ht, heq⟩ := h.exists_transition hvs hread nofun
    have hactive := (h.next_ok ht).2.2.1
    rw [heq] at hactive
    exact hactive rfl
  · have hne : l ≠ .absent := by
      rintro rfl
      cases hleft
    obtain ⟨t, ht, heq⟩ := h.exists_transition hvs hread hne
    have hafter := (decodeSlots_ok (validatorState_eq_ok.mp (h.reads ht)).1).2.1
    have hshare := (h.next_ok ht).2.2.2 height
    rw [heq] at hafter hshare
    rw [hafter.hasBlsShare]
    exact hshare hleft

theorem atomic_applyResharedSet {hash : B256} :
    Tx.Atomic (applyResharedSet X newActiveSet hash freezeHeight exclusions) :=
  .bind Tx.readOnly_failIf fun _ => .bind Tx.readOnly_query fun _ =>
    .bind Tx.readOnly_failIf fun _ => Tx.atomic_checkpoint

/-- A boundary activation on a consistent registry fails and changes nothing, or it leaves the
new set as the consensus set and every validator's stake and history. -/
theorem activateBoundary_exact (hvs : Consistent X vs) (newActiveSet : List Address)
    (activeSetHash : B256) (freezeHeight : Nat) (exclusions : List Address) :
    (∃ e, (activateValidatedBoundarySetWithExpiryExclusions X newActiveSet activeSetHash
        freezeHeight exclusions).run vs = (.error e, vs)) ∨
      ∃ vs', (activateValidatedBoundarySetWithExpiryExclusions X newActiveSet activeSetHash
          freezeHeight exclusions).run vs = (.ok (), vs') ∧
        BoundaryExact X newActiveSet freezeHeight exclusions vs vs' := by
  have hatomic : Tx.Atomic (activateValidatedBoundarySetWithExpiryExclusions X newActiveSet
      activeSetHash freezeHeight exclusions) := by
    unfold activateValidatedBoundarySetWithExpiryExclusions
    split
    · exact atomic_applyResharedSet
    · exact .bind Tx.readOnly_failIf fun _ => .bind Tx.readOnly_query fun _ =>
        atomic_applyResharedSet
  obtain herror | ⟨_, vs', hok⟩ := hatomic.cases vs
  · exact .inl herror
  · obtain ⟨ts, hactivates⟩ := activateValidated_activates hok
    exact .inr ⟨vs', hok, hactivates.exact hvs⟩

/-- Alice joined, and the next boundary activates her. -/
theorem activateBoundary_exact_join :
    ∃ vs', (activateValidatedBoundarySetWithExpiryExclusions sampleExternals [alice.address] 7 1
        []).run (Runs.run (step sampleExternals) aliceJoins sampleGenesis).validatorSet =
          (.ok (), vs') ∧
      BoundaryExact sampleExternals [alice.address] 1 []
        (Runs.run (step sampleExternals) aliceJoins sampleGenesis).validatorSet vs' := by
  have hconsistent := (worldConsistent_run (worldConsistent_fresh sampleExternals 9 1 fun _ => 10)
    aliceJoins).registry
  refine (activateBoundary_exact hconsistent [alice.address] 7 1 []).resolve_left ?_
  rintro ⟨e, he⟩
  have hok : ((activateValidatedBoundarySetWithExpiryExclusions sampleExternals [alice.address] 7 1
      []).run (Runs.run (step sampleExternals) aliceJoins sampleGenesis).validatorSet).1.isOk =
        true := by decide +kernel
  have herror : true = false := hok.symm.trans (congrArg (·.1.isOk) he)
  cases herror

end Rudis.ValidatorSet
