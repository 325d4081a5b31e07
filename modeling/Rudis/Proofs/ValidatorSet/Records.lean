import Rudis.Proofs.ValidatorSet.Registry

/-!
# `Rudis.Proofs.ValidatorSet.Records`: writes outside a committed transition

Registration creates or renews a record together with its registry entries (`Registers`,
`Reregisters`), the participation hooks write raw counters, and cleanup removes a record and moves
the last entry into its place (`Removes`). For each of them this module says which store the call
leaves and that the raw slots it wrote encode a canonical state again.
-/

namespace Rudis.ValidatorSet

open StateMachine
open Tx

variable {X : Externals} {env : BlockEnv} {addr : Address} {vs vs' : Store} {u : Unit}

/-! ### Records with another index or other counters -/

/-- The same state with its dense index and its history replaced. -/
def ValidatorLifecycle.mapRecord (index : NonZeroU64 → NonZeroU64)
    (history : ValidatorHistory → ValidatorHistory) : ValidatorLifecycle → ValidatorLifecycle
  | .absent => .absent
  | .waitingForStake s => .waitingForStake (go s)
  | .waitingForReadiness s => .waitingForReadiness (go s)
  | .joining s => .joining (go s)
  | .active s => .active (go s)
  | .jailRetained s => .jailRetained ⟨go s.toPayload, s.jailedAt⟩
  | .jail s => .jail ⟨go s.toPayload, s.jailedAt⟩
  | .exiting s => .exiting (go s)
  | .unbonding s => .unbonding (go s)
  | .inactive s => .inactive
      { s with registryIndex := index s.registryIndex, history := history s.history }
where
  go (s : Payload) : Payload :=
    { s with registryIndex := index s.registryIndex, history := history s.history }

section MapRecord

variable {index : NonZeroU64 → NonZeroU64} {history : ValidatorHistory → ValidatorHistory}
  {l : ValidatorLifecycle}

/-- Validation looks at no counter but the deactivation height, and at no index. -/
theorem ValidatorLifecycle.Canonical.mapRecord (h : l.Canonical addr)
    (hheight : ∀ r, (history r).lastDeactivatedAtHeight = r.lastDeactivatedAtHeight) :
    (l.mapRecord index history).Canonical addr := by
  obtain ⟨hkey, hhint, hzero, hvariant⟩ := ValidatorLifecycle.validate_eq_ok.mp h.validate
  refine ⟨ValidatorLifecycle.validate_eq_ok.mpr ⟨?_, ?_, ?_, ?_⟩, ?_⟩
  · cases l <;> exact hkey
  · cases l <;> exact hhint
  · cases l with
    | absent => exact hzero
    | _ => simpa only [ValidatorLifecycle.history, ValidatorLifecycle.mapRecord,
        ValidatorLifecycle.mapRecord.go, Option.bind_some, hheight] using hzero
  · cases l with
    | absent | waitingForStake | waitingForReadiness | joining => exact hvariant
    | _ => simpa [ValidatorLifecycle.validateVariant, ValidatorLifecycle.mapRecord,
        ValidatorLifecycle.mapRecord.go, hheight] using hvariant
  · cases l <;> exact h.p2p

variable {s : ValidatorSlots}

/-- Slots that encode a record encode it at another index. -/
theorem ValidatorSlots.Encodes.withIndex {i : Nat} (h : s.Encodes i l)
    (hi : i ≠ 0) (j : NonZeroU64) : s.Encodes j.val (l.mapRecord (fun _ => j) id) := by
  cases l with
  | absent => exact absurd h.index_eq hi
  | _ =>
    exact ⟨rfl, h.pubkey, h.stake, h.status, h.slashCount, h.missedBlocks, h.missedVotes,
      h.blocksProposed, h.joinedAtHeight, h.deactivatedAtHeight, h.unbondingEnd, h.hasBlsShare,
      h.joinConfirmed, h.jailedAtHeight, h.p2p⟩

/-- The slots with the three participation counters replaced. -/
def ValidatorSlots.withCounters (s : ValidatorSlots)
    (missedBlocks missedVotes blocksProposed : Nat) : ValidatorSlots :=
  { s with missedBlocks, missedVotes, blocksProposed }

/-- The history with the three participation counters replaced. -/
def ValidatorHistory.withCounters (missedBlocks missedVotes blocksProposed : Nat)
    (h : ValidatorHistory) : ValidatorHistory :=
  { h with missedBlocks, missedVotes, blocksProposed }

/-- Raw counter writes on a registered record encode the record with these counters. -/
theorem ValidatorSlots.Encodes.withCounters {i : Nat} (h : s.Encodes i l)
    (hi : i ≠ 0) (missedBlocks missedVotes blocksProposed : Nat) :
    (s.withCounters missedBlocks missedVotes blocksProposed).Encodes i
      (l.mapRecord id (ValidatorHistory.withCounters missedBlocks missedVotes blocksProposed)) := by
  cases l with
  | absent => exact absurd h.index_eq hi
  | _ =>
    exact ⟨h.index_eq, h.pubkey, h.stake, h.status, h.slashCount, rfl, rfl, rfl,
      h.joinedAtHeight, h.deactivatedAtHeight, h.unbondingEnd, h.hasBlsShare, h.joinConfirmed,
      h.jailedAtHeight, h.p2p⟩

end MapRecord

/-! ### Registration -/

/-- The state every registration starts in. -/
def freshLifecycle (index : NonZeroU64) (pubkey : ConsensusPubkey) (height : Nat) :
    ValidatorLifecycle :=
  .waitingForStake ⟨index, pubkey, .unset, .zero, .fresh height⟩

variable {height maxRemovals n : Nat}

theorem canonical_fresh {index : NonZeroU64} {pubkey : ConsensusPubkey}
    (h : pubkey ≠ 0) : (freshLifecycle index pubkey height).Canonical addr := by
  refine ⟨ValidatorLifecycle.validate_eq_ok.mpr ⟨?_, ?_, ?_, rfl⟩, ?_⟩
  · simpa [freshLifecycle, ValidatorLifecycle.consensusPubkey] using h
  · exact nofun
  · exact nofun
  · intro p hp
    cases hp
    exact P2pInfo.canonical_unset addr

/-- What both kinds of registration check. -/
structure Admits (X : Externals) (addr : Address) (pubkey : ConsensusPubkey) (vs : Store) :
    Prop where
  pubkey_ne_zero : pubkey ≠ 0
  not_delegate : ∀ r, vs.delegates.validatorByRoleDelegate r addr = 0
  owner : vs.registry.consensusPubkeyHashToAddress (consensusPubkeyHash X pubkey) = 0 ∨
    vs.registry.consensusPubkeyHashToAddress (consensusPubkeyHash X pubkey) = addr

/-- A first registration: the record gets the next dense index. -/
structure Registers (X : Externals) (env : BlockEnv) (addr : Address) (pubkey : ConsensusPubkey)
    (vs vs' : Store) : Prop where
  admits : Admits X addr pubkey vs
  ne_zero : addr ≠ 0
  absent : (vs.val addr).Encodes (vs.registry.addressToIndex addr) .absent
  store : ∃ s nodeId, s.Encodes (vs.registry.validatorCount + 1)
      (freshLifecycle ⟨vs.registry.validatorCount + 1, Nat.succ_ne_zero _⟩ pubkey env.blockNumber) ∧
    vs' = { vs with
      val := update vs.val addr s
      registry := { (((vs.registry.setIndex addr (vs.registry.validatorCount + 1)).setKeyOwner
          (consensusPubkeyHash X pubkey) addr).setRadicle addr nodeId) with
        validatorCount := vs.registry.validatorCount + 1 }
      pendingSetChange := true }

/-- A re-registration: the record keeps its dense index and starts again. -/
structure Reregisters (X : Externals) (env : BlockEnv) (addr : Address)
    (pubkey : ConsensusPubkey) (vs vs' : Store) : Prop where
  admits : Admits X addr pubkey vs
  window : vs.ocomp.recoveryDeadline addr = 0
  store : ∃ inactive s, (vs.val addr).Encodes (vs.registry.addressToIndex addr)
      (.inactive inactive) ∧
    s.Encodes (vs.registry.addressToIndex addr)
      (freshLifecycle inactive.registryIndex pubkey env.blockNumber) ∧
    vs' = { vs with
      val := update vs.val addr s
      registry := (vs.registry.setKeyOwner
          (consensusPubkeyHash X inactive.consensusPubkey) 0).setKeyOwner
            (consensusPubkeyHash X pubkey) addr
      pendingSetChange := true }

section Registration

variable {caller radicleOwner : Address} {pubkey : ConsensusPubkey} {nodeId : B256}
  {existing : ValidatorState}

theorem ok_ensureNotOperationalDelegate :
    Ok (ensureNotOperationalDelegate addr) vs u vs' ↔
      (∀ r, vs.delegates.validatorByRoleDelegate r addr = 0) ∧ vs' = vs := by
  simp only [ensureNotOperationalDelegate, ValidatorDelegateRole.all, List.forM_eq_forM,
    List.forM_cons, List.forM_nil, rules]
  refine ⟨?_, ?_⟩
  · rintro ⟨horacle, hocomp, rfl⟩
    refine ⟨fun r => ?_, rfl⟩
    cases r
    · exact horacle
    · exact hocomp
  · rintro ⟨hall, rfl⟩
    exact ⟨hall _, hall _, rfl⟩

theorem register_eq_ok {state registered : ValidatorState} {index : NonZeroU64}
    (h : register state index pubkey height = .ok registered) :
    state.lifecycle = .absent ∧ pubkey ≠ 0 ∧
      registered = ⟨state.address, freshLifecycle index pubkey height⟩ := by
  simp only [register, ValidatorState.withLifecycle, ValidatorState.fromLifecycle, laws,
    exists_unit, not_not] at h
  obtain ⟨habsent, hkey, _, rfl⟩ := h
  exact ⟨habsent, hkey, rfl⟩

theorem registerFirst_registers (hread : validatorState X vs addr = .ok existing)
    (hadmits : Admits X addr pubkey vs) (howner : radicleOwner = 0 ∨ radicleOwner = addr)
    (h : Ok (registerFirst X env addr pubkey nodeId radicleOwner existing) vs u vs') :
    Registers X env addr pubkey vs vs' := by
  simp only [registerFirst, writeRegistry, writePendingSetChange, rules, okOr_eq_ok,
    checkedAdd_eq_some] at h
  obtain ⟨_, _, registered, hregistered, hfree, vs₁, hpersist, rfl⟩ := h
  obtain rfl := validatorState_address hread
  rw [registerFirst.registerAt, dif_neg (Nat.succ_ne_zero _)] at hregistered
  obtain ⟨habsent, -, rfl⟩ := register_eq_ok hregistered
  obtain ⟨_, key, hkey, hindex, rfl⟩ := ok_persistRegistryStateDelta hpersist
  cases hkey
  have henc := (decodeSlots_ok (validatorState_eq_ok.mp hread).1).2.1
  rw [habsent] at henc
  refine ⟨hadmits, ?_, henc, _, nodeId, ?_, rfl⟩
  · rintro hzero
    rw [hzero, or_self] at howner
    exact hfree (howner.trans hzero.symm)
  · rw [habsent]
    exact henc.registered rfl rfl hindex

theorem reregisterValidator_reregisters (hread : validatorState X vs addr = .ok existing)
    (hadmits : Admits X addr pubkey vs)
    (h : Ok (reregisterValidator X env addr pubkey nodeId radicleOwner existing) vs u vs') :
    Reregisters X env addr pubkey vs vs' := by
  unfold reregisterValidator at h
  split at h
  · rename_i inactive hinactive
    simp only [reregister, ValidatorState.withLifecycle, ValidatorState.fromLifecycle,
      writeRegistry, writePendingSetChange, rules, laws] at h
    obtain ⟨_, _, _, _, _, hwindow, vs₁, hpersist, rfl⟩ := h
    obtain rfl := validatorState_address hread
    obtain ⟨_, key, hkey, hindex, rfl⟩ := ok_persistRegistryStateDelta hpersist
    cases hkey
    have henc := (decodeSlots_ok (validatorState_eq_ok.mp hread).1).2.1
    rw [hinactive] at henc
    refine ⟨hadmits, hwindow, inactive, _, henc, ?_, rfl⟩
    rw [hinactive]
    exact henc.registered henc.index_eq rfl hindex
  · exact absurd h ok_fail

/-- A registration that succeeds is a first registration or a re-registration. -/
theorem registerValidatorInner_cases {sig : Option (BitVec 768)} {bootstrap : Bool}
    (h : Ok (registerValidatorInner X env caller addr pubkey nodeId sig bootstrap) vs u vs') :
    Registers X env addr pubkey vs vs' ∨ Reregisters X env addr pubkey vs vs' := by
  simp only [registerValidatorInner, checkSelfRegistrationLimit, registerOrReregister, readState,
    rules, ok_when, ok_ensureNotOperationalDelegate] at h
  obtain ⟨hkey, _, hdelegate, _, hradicle, _, vs₁, hlimit, hkeyOwner, existing, hread, h⟩ := h
  obtain rfl : vs₁ = vs := by
    obtain ⟨_, _, _, _, rfl⟩ | ⟨_, rfl⟩ := hlimit <;> rfl
  have hadmits : Admits X addr pubkey vs₁ := by
    refine ⟨hkey, hdelegate, ?_⟩
    by_contra hother
    rw [not_or] at hother
    exact hkeyOwner hother
  split at h
  · exact .inr (reregisterValidator_reregisters hread hadmits h)
  · refine .inl (registerFirst_registers hread hadmits ?_ h)
    by_contra hother
    rw [not_or] at hother
    exact hradicle hother

end Registration

/-! ### Counters -/

/-- A raw write of the participation counters of a registered validator. -/
def Counts (vs vs' : Store) : Prop :=
  ∃ a missedBlocks missedVotes blocksProposed, Registered vs a ∧
    vs' = vs.setVal a ((vs.val a).withCounters missedBlocks missedVotes blocksProposed)

theorem registered_of_participant {participant : Bool} (hp : participant = true)
    (h : isConsensusParticipant X vs addr = .ok participant) : Registered vs addr := by
  obtain ⟨l, hl, rfl⟩ := map_eq_ok.mp h
  obtain ⟨state, hstate, rfl⟩ := map_eq_ok.mp hl
  refine (registered_iff hstate).mpr fun habsent => ?_
  rw [habsent] at hp
  cases hp

theorem registered_of_isValidator (h : isValidator X vs addr = .ok true) : Registered vs addr := by
  obtain ⟨state, hstate, htrue⟩ := map_eq_ok.mp h
  exact (registered_iff hstate).mpr (of_decide_eq_true htrue.symm)

theorem recordProposer_counts (h : Ok (recordProposer X addr) vs u vs') : Counts vs vs' := by
  simp only [recordProposer, writeVal, rules] at h
  obtain ⟨participant, hread, hparticipant, proposed, _, rfl⟩ := h
  exact ⟨addr, _, _, proposed, registered_of_participant (by simpa using hparticipant) hread, rfl⟩

theorem addMissedVote_counts (hregistered : Registered vs addr)
    (h : Ok (addMissedVote addr) vs u vs') : Counts vs vs' := by
  simp only [addMissedVote, writeVal, rules] at h
  obtain ⟨missed, _, rfl⟩ := h
  exact ⟨addr, _, missed, _, hregistered, rfl⟩

theorem resetRound_counts (h : Ok (do
      let l ← query fun vs => validatorLifecycle X vs addr
      when (l.isCurrentConsensusParticipant = true) (writeVal addr
        ({ · with missedBlocks := 0, missedVotes := 0, blocksProposed := 0 }))) vs u vs') :
    vs' = vs ∨ Counts vs vs' := by
  simp only [writeVal, rules, ok_when] at h
  obtain ⟨l, hl, ⟨hparticipant, rfl⟩ | ⟨_, rfl⟩⟩ := h
  · refine .inr ⟨addr, 0, 0, 0, registered_of_participant (X := X) hparticipant ?_, rfl⟩
    simp [isConsensusParticipant, hl]
  · exact .inl rfl

/-! ### Removal -/

/-- One removal of a cleanup, with `count` entries before it: the record is cleared, the last
entry takes its index, and the last index is dropped. Delegations are not touched. -/
structure Removes (X : Externals) (i count : Nat) (addr : Address) (vs vs' : Store) : Prop where
  entry : vs.registry.indexToAddress i = addr
  ne_zero : addr ≠ 0
  inactive : ∃ s, (vs.val addr).Encodes (vs.registry.addressToIndex addr) (.inactive s)
  window : vs.ocomp.recoveryDeadline addr = 0
  val : ∃ s, s.Encodes 0 .absent ∧ vs'.val = update vs.val addr s
  count_eq : vs'.registry.validatorCount = vs.registry.validatorCount
  addressToIndex : vs'.registry.addressToIndex = update
    (if i < count then
      update vs.registry.addressToIndex (vs.registry.indexToAddress count) i
    else vs.registry.addressToIndex) addr 0
  indexToAddress : vs'.registry.indexToAddress = update
    (if i < count then
      update vs.registry.indexToAddress i (vs.registry.indexToAddress count)
    else vs.registry.indexToAddress) count 0
  owner : vs'.registry.consensusPubkeyHashToAddress =
    update vs.registry.consensusPubkeyHashToAddress
      (consensusPubkeyHash X (vs.val addr).readConsensusPubkey) 0
  delegates : vs'.delegates = vs.delegates
  registration : vs'.ocomp.registration = vs.ocomp.registration
  keyHashToValidator : vs'.ocomp.keyHashToValidator = vs.ocomp.keyHashToValidator
  recoveryDeadline : vs'.ocomp.recoveryDeadline = vs.ocomp.recoveryDeadline
  snapshots : vs'.snapshots = vs.snapshots

section Removal

variable {i count cooldown : Nat}

theorem cleanupDue_eq_ok (h : cleanupDue X env cooldown vs addr = .ok true) :
    (∃ s, (vs.val addr).Encodes (vs.registry.addressToIndex addr) (.inactive s)) ∧
      vs.ocomp.recoveryDeadline addr = 0 := by
  simp only [cleanupDue, bind_eq_ok] at h
  obtain ⟨state, hstate, h⟩ := h
  split at h
  · rename_i inactive hinactive
    simp only [laws] at h
    obtain ⟨_, _, _, _, hdue⟩ := h
    have henc := (decodeSlots_ok (validatorState_eq_ok.mp hstate).1).2.1
    exact ⟨⟨inactive, hinactive ▸ henc⟩, (of_decide_eq_true hdue.symm).2⟩
  · cases h

/-- Clearing a record and closing the gap in the registry is one removal. -/
theorem removes_of_ok {vs₁ : Store} {u₁ : Unit} (hentry : vs.registry.indexToAddress i = addr)
    (hne : addr ≠ 0) (hdue : cleanupDue X env cooldown vs addr = .ok true)
    (hclear : Ok (clearValidatorStorage X addr) vs u₁ vs₁)
    (hswap : Ok (swapRemove i count addr) vs₁ u vs') : Removes X i count addr vs vs' := by
  obtain ⟨hinactive, hwindow⟩ := cleanupDue_eq_ok hdue
  simp only [clearValidatorStorage, writeRegistry, writeVal, writeMissCount, writeRecoveryDeadline,
    Registry.setKeyOwner, rules, ok_when] at hclear
  simp only [swapRemove, writeRegistry, Registry.setIndex, rules, ok_when] at hswap
  obtain ⟨vs₂, hnode, rfl⟩ := hclear
  obtain ⟨vs₃, hlast, rfl⟩ := hswap
  have hdeadline : update vs.ocomp.recoveryDeadline addr 0 = vs.ocomp.recoveryDeadline := by
    rw [← hwindow, update_eq_self]
  have hcleared : ∀ s : ValidatorSlots, ({ s.writeConsensusPubkey 0 with
      stake := 0, status := 0, slashCount := 0, missedBlocks := 0, missedVotes := 0
      blocksProposed := 0, joinedAtHeight := 0, deactivatedAtHeight := 0, unbondingEnd := 0
      hasBlsShare := false, p2pAddressVersion := 0, p2pAddressPayload := []
      joinConfirmed := false, jailedAtHeight := 0 } : ValidatorSlots).Encodes 0 .absent :=
    fun s => encodes_absent_iff.mpr ⟨rfl, joinPubkey_halves 0, rfl, rfl, rfl, rfl, rfl, rfl, rfl,
      rfl, rfl, rfl, rfl, rfl, rfl, rfl⟩
  obtain ⟨_, rfl⟩ | ⟨_, rfl⟩ := hnode <;> obtain ⟨hlt, rfl⟩ | ⟨hlt, rfl⟩ := hlast
  all_goals
    refine ⟨hentry, hne, hinactive, hwindow, ⟨_, hcleared _, rfl⟩, rfl, ?_, ?_, rfl, rfl, rfl, rfl,
      hdeadline, rfl⟩
  all_goals
    simp only [hlt, if_true, if_false, Store.setVal]

/-- A sequence of removals, from one number of entries to another. -/
inductive Removals (X : Externals) : Nat → Store → Nat → Store → Prop
  | nil (count : Nat) (vs : Store) : Removals X count vs count vs
  | cons {i count count' : Nat} {addr : Address} {vs vs₁ vs' : Store} (hlo : 1 ≤ i)
      (hhi : i ≤ count) (h : Removes X i count addr vs vs₁)
      (rest : Removals X (count - 1) vs₁ count' vs') : Removals X count vs count' vs'

/-- The scan of a cleanup is a sequence of removals. -/
theorem cleanupLoop_removals :
    ∀ {rounds i count removed : Nat} {vs vs' : Store} {r : Nat × Nat}, 1 ≤ i →
      Ok (cleanupLoop X env maxRemovals cooldown rounds i count removed) vs r vs' →
      Removals X count vs r.1 vs' := by
  intro rounds
  induction rounds with
  | zero =>
    intro i count removed vs vs' r _ h
    obtain ⟨rfl, rfl⟩ := ok_pure.mp h
    exact .nil _ _
  | succ rounds ih =>
    intro i count removed vs vs' r hi h
    rw [cleanupLoop] at h
    split at h
    · obtain ⟨rfl, rfl⟩ := ok_pure.mp h
      exact .nil _ _
    · rename_i hrange
      simp only [ok_bind, ok_reads, ok_ite, ok_query, and_assoc, ↓existsAndEq, true_and] at h
      obtain ⟨_, h⟩ | ⟨hne, due, hdue, ⟨hd, _, vs₁, hclear, _, vs₂, hswap, h⟩ | ⟨_, h⟩⟩ := h
      · exact ih (by omega) h
      · exact .cons hi (by omega) (removes_of_ok rfl hne (hd ▸ hdue) hclear hswap) (ih hi h)
      · exact ih (by omega) h

theorem cleanupInactiveValidators_removals
    (h : Ok (cleanupInactiveValidators X env maxRemovals) vs n vs') :
    ∃ count vs₁, Removals X vs.registry.validatorCount vs count vs₁ ∧
      vs' = { vs₁ with registry := { vs₁.registry with validatorCount := count } } := by
  simp only [cleanupInactiveValidators, writeRegistry, rules] at h
  obtain ⟨r, vs₁, hloop, _, rfl⟩ := h
  exact ⟨r.1, vs₁, cleanupLoop_removals (le_refl 1) hloop, rfl⟩

end Removal

end Rudis.ValidatorSet
