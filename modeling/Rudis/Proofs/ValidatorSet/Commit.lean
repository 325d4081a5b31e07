import Rudis.Proofs.ValidatorSet.Decode

/-!
# `Rudis.Proofs.ValidatorSet.Commit`: what a committed transition writes

Every lifecycle transition ends in `commitLifecycle`. It succeeds exactly when both states are
valid and hold one registry identity, and then it writes the slots of the one validator and
possibly the pending flag (`ok_commitLifecycle`); the written slots encode the next state
(`Encodes.persisted`). `Commits` packages both with the read that precedes them, so that the
inversion lemma of a call is one `Commits` and the transition it took.
-/

namespace Rudis.ValidatorSet

open ValidatorLifecycle
open Tx

/-! ### Slots of one address -/

@[simp] theorem Store.setVal_setVal (vs : Store) (addr : Address) (s t : ValidatorSlots) :
    (vs.setVal addr s).setVal addr t = vs.setVal addr t := by
  simp [Store.setVal]

@[simp] theorem Store.setVal_val_self (vs : Store) (addr : Address) (s : ValidatorSlots) :
    (vs.setVal addr s).val addr = s := by
  simp [Store.setVal]

@[simp] theorem Store.setVal_val (vs : Store) (addr : Address) :
    vs.setVal addr (vs.val addr) = vs := by
  simp [Store.setVal]

theorem Store.setVal_val_of_ne (vs : Store) {addr a : Address} (s : ValidatorSlots)
    (h : a ≠ addr) : (vs.setVal addr s).val a = vs.val a := by
  simp [Store.setVal, h]

/-! ### Persisting a state -/

/-- The slots after the delta write of a transition. -/
def persisted (before after : ValidatorLifecycle) (s : ValidatorSlots) : ValidatorSlots :=
  writeDelta before after { s with
    stake := ifChanged before.bondedStake after.bondedStake s.stake
    status := if before.storedStatus ≠ after.storedStatus then after.storedStatus.getD s.status
      else s.status }

theorem ifChanged_of_eq {α : Type} [DecidableEq α] {before after old : α} (h : old = before) :
    ifChanged before after old = after := by
  unfold ifChanged
  split <;> simp_all

variable {before after : ValidatorLifecycle} {s : ValidatorSlots} {index index' : Nat}

/-- A delta write over slots that encode the state before, with the key of the state after, gives
slots that encode the state after. -/
theorem ValidatorSlots.Encodes.persisted_withKey
    {lo hi : B256} (h : s.Encodes index before) (hindex : index' = after.storedIndex)
    (hkey : joinPubkey lo hi = after.consensusPubkey.getD 0)
    (hstatus : before.storedStatus ≠ after.storedStatus → after.storedStatus ≠ none) :
    (persisted before after { s with consensusPubkeyLo := lo, consensusPubkeyHi := hi }).Encodes
      index' after where
  index_eq := hindex
  pubkey := hkey
  stake := ifChanged_of_eq h.stake
  status := by
    by_cases hs : before.storedStatus = after.storedStatus
    · simp [ValidatorSet.persisted, writeDelta, hs, h.status]
    · obtain ⟨status, hsome⟩ := Option.ne_none_iff_exists'.mp (hstatus hs)
      simp [ValidatorSet.persisted, writeDelta, hsome, hsome ▸ hs]
  slashCount := ifChanged_of_eq h.slashCount
  missedBlocks := ifChanged_of_eq h.missedBlocks
  missedVotes := ifChanged_of_eq h.missedVotes
  blocksProposed := ifChanged_of_eq h.blocksProposed
  joinedAtHeight := ifChanged_of_eq h.joinedAtHeight
  deactivatedAtHeight := ifChanged_of_eq h.deactivatedAtHeight
  unbondingEnd := ifChanged_of_eq h.unbondingEnd
  hasBlsShare := ifChanged_of_eq h.hasBlsShare
  joinConfirmed := ifChanged_of_eq h.joinConfirmed
  jailedAtHeight := ifChanged_of_eq h.jailedAtHeight
  p2p := by
    by_cases hp : before.storedP2p = after.storedP2p
    · simpa [ValidatorSet.persisted, writeDelta, hp] using h.p2p
    · simp [ValidatorSet.persisted, writeDelta, hp]

/-- The same for a transition that keeps the key. -/
theorem ValidatorSlots.Encodes.persisted (h : s.Encodes index before)
    (hindex : index = after.storedIndex) (hkey : before.consensusPubkey = after.consensusPubkey)
    (hstatus : before.storedStatus ≠ after.storedStatus → after.storedStatus ≠ none) :
    (persisted before after s).Encodes index after :=
  h.persisted_withKey hindex (h.pubkey.trans (by rw [hkey])) hstatus

/-- The status of a state follows from whether it has a registry index. -/
theorem ValidatorLifecycle.storedStatus_eq_none {l : ValidatorLifecycle} :
    l.storedStatus = none ↔ l.registryIndex = none := by
  cases l <;> simp [storedStatus, registryIndex]

/-- A transition that keeps the index of an address does not make a registered one absent. -/
theorem storedStatus_ne_none (h : before.registryIndex = after.registryIndex)
    (hs : ¬ before.storedStatus = after.storedStatus) : ¬ after.storedStatus = none := by
  intro hnone
  refine hs (Eq.trans ?_ hnone.symm)
  rw [storedStatus_eq_none, h]
  exact storedStatus_eq_none.mp hnone

variable {vs vs' : Store} {u : Unit}

/-- The status write fails only when it would make a registered address absent. -/
theorem ok_persistStatus {before after : ValidatorState} :
    Ok (persistStatus before after) vs u vs' ↔
      (before.lifecycle.storedStatus ≠ after.lifecycle.storedStatus →
        after.lifecycle.storedStatus ≠ none) ∧
      vs' = vs.setVal after.address { vs.val after.address with
        status := if before.lifecycle.storedStatus ≠ after.lifecycle.storedStatus then
          after.lifecycle.storedStatus.getD (vs.val after.address).status
          else (vs.val after.address).status } := by
  unfold persistStatus
  by_cases hs : before.lifecycle.storedStatus = after.lifecycle.storedStatus
  · simp only [ok_when, hs, ne_eq, not_true_eq_false, if_false, false_implies, true_and]
    change _ ↔ vs' = vs.setVal after.address (vs.val after.address)
    simp
  · cases hsome : after.lifecycle.storedStatus with
    | none => simp [ok_when, hsome ▸ hs]
    | some status => simp [ok_when, hsome ▸ hs, writeVal]

/-- A delta write that keeps the registry identity. -/
theorem ok_persistValidatorStateDelta {before after : ValidatorState} :
    Ok (persistValidatorStateDelta before after) vs u vs' ↔
      before.lifecycle.validate before.address = .ok () ∧
      after.lifecycle.validate after.address = .ok () ∧
      before.address = after.address ∧
      before.lifecycle.registryIndex = after.lifecycle.registryIndex ∧
      before.lifecycle.consensusPubkey = after.lifecycle.consensusPubkey ∧
      vs' = vs.setVal after.address
        (persisted before.lifecycle after.lifecycle (vs.val after.address)) := by
  unfold persistValidatorStateDelta persistValidatorStateDeltaInner
  simp only [ne_eq, writeVal, rules, not_or, ok_when, Bool.false_eq_true, false_and,
    not_false_eq_true, false_or, ok_persistStatus, ite_not, ↓existsAndEq, Store.setVal_val_self,
    Store.setVal_setVal, persisted]
  refine and_congr_right fun _ => and_congr_right fun _ => and_congr_right fun _ =>
    and_congr_right fun hindex => and_congr_right fun _ => ?_
  exact and_iff_right (storedStatus_ne_none hindex)

@[simp] theorem joinPubkey_halves (pubkey : ConsensusPubkey) :
    joinPubkey (pubkeyLo pubkey) (pubkeyHi pubkey) = pubkey := by
  unfold joinPubkey pubkeyLo pubkeyHi
  ext i hi
  simp only [BitVec.getElem_append, BitVec.getElem_extractLsb', BitVec.getLsbD_append,
    BitVec.getLsbD_extractLsb']
  split
  · have h128 : ¬ 128 + i < 128 := by omega
    simp [h128, ‹i < 128›, ← BitVec.getLsbD_eq_getElem]
  · simp [show 128 + (i - 128) = i by omega, ← BitVec.getLsbD_eq_getElem]

/-- The slots with the key of a registration, written when it changed. -/
def withKey (before : ValidatorLifecycle) (pubkey : ConsensusPubkey) (s : ValidatorSlots) :
    ValidatorSlots :=
  if before.consensusPubkey ≠ some pubkey then s.writeConsensusPubkey pubkey else s

/-- Persisting a registration writes the key, when it changed, and then the delta. -/
theorem ok_persistRegistryStateDelta {before after : ValidatorState}
    (h : Ok (persistRegistryStateDelta before after) vs u vs') :
    after.lifecycle.validate after.address = .ok () ∧
      ∃ pubkey, after.lifecycle.consensusPubkey = some pubkey ∧
        after.lifecycle.registryIndex ≠ none ∧
        vs' = vs.setVal after.address (persisted before.lifecycle after.lifecycle
          (withKey before.lifecycle pubkey (vs.val after.address))) := by
  unfold persistRegistryStateDelta persistValidatorStateDeltaInner at h
  simp only [persistIdentity, writeVal, rules, ok_when, okOr_eq_ok, ok_persistStatus,
    not_true_eq_false, false_and, or_false] at h
  obtain ⟨_, hvalid, _, vs₁, ⟨pubkey, hpubkey, hindex, hkey⟩, _, rfl⟩ := h
  refine ⟨hvalid, pubkey, hpubkey, by simpa using hindex, ?_⟩
  have hvs₁ : vs₁ = vs.setVal after.address
      (withKey before.lifecycle pubkey (vs.val after.address)) := by
    unfold withKey
    obtain ⟨hne, rfl⟩ | ⟨heq, rfl⟩ := hkey
    · rw [if_pos hne]
    · rw [if_neg (not_not.mpr heq), Store.setVal_val]
  rw [hvs₁]
  simp only [Store.setVal_val_self, Store.setVal_setVal]
  rfl

/-- The slots of a persisted registration encode it. -/
theorem ValidatorSlots.Encodes.registered
    {pubkey : ConsensusPubkey} (h : s.Encodes index before)
    (hindex : index' = after.storedIndex) (hkey : after.consensusPubkey = some pubkey)
    (hregistered : after.registryIndex ≠ none) :
    (ValidatorSet.persisted before after (withKey before pubkey s)).Encodes index' after := by
  have hstatus : after.storedStatus ≠ none := fun hnone =>
    hregistered (storedStatus_eq_none.mp hnone)
  unfold withKey
  split
  · exact h.persisted_withKey hindex (by rw [hkey]; exact joinPubkey_halves pubkey)
      fun _ => hstatus
  · rename_i hsame
    refine h.persisted_withKey hindex ?_ fun _ => hstatus
    rw [hkey, ← not_not.mp hsame]
    exact h.pubkey

variable {setChange : Bool}

theorem ok_raisePending :
    Ok (when (setChange = true) (writePendingSetChange true)) vs u vs' ↔
      vs' = { vs with pendingSetChange := setChange || vs.pendingSetChange } := by
  cases setChange <;> simp [ok_when, writePendingSetChange]

/-- The store after a committed transition. -/
def committed (vs : Store) (before : ValidatorState) (next : ValidatorLifecycle)
    (setChange : Bool) : Store :=
  { vs.setVal before.address (persisted before.lifecycle next (vs.val before.address)) with
    pendingSetChange := setChange || vs.pendingSetChange }

/-- A transition of a registered identity commits exactly when both states are valid. -/
theorem ok_commitLifecycle {before : ValidatorState} {next : ValidatorLifecycle} :
    Ok (commitLifecycle before next setChange) vs u vs' ↔
      before.lifecycle.validate before.address = .ok () ∧
      next.validate before.address = .ok () ∧
      before.lifecycle.registryIndex = next.registryIndex ∧
      before.lifecycle.consensusPubkey = next.consensusPubkey ∧
      vs' = committed vs before next setChange := by
  unfold commitLifecycle
  simp only [ValidatorState.withLifecycle, ValidatorState.fromLifecycle, bind_pure_comp, rules,
    map_eq_ok, ok_persistValidatorStateDelta, ok_raisePending, ↓existsAndEq]
  constructor
  · rintro ⟨ha, hb, -, hindex, hkey, rfl⟩
    exact ⟨hb, ha, hindex, hkey, rfl⟩
  · rintro ⟨hb, ha, hindex, hkey, rfl⟩
    exact ⟨ha, hb, ha, hindex, hkey, rfl⟩

/-! ### Reading a state -/

variable {X : Externals} {vs vs' : Store} {addr : Address} {state : ValidatorState}

/-- What the index checks of a registered state establish. -/
theorem checkRegistry_eq_ok :
    checkRegistry X vs addr state = .ok () ↔ ∀ p, state.lifecycle.payload = some p →
      p.registryIndex.val ≤ vs.registry.validatorCount ∧
      vs.registry.indexToAddress p.registryIndex.val = addr ∧
      vs.registry.consensusPubkeyHashToAddress (consensusPubkeyHash X p.consensusPubkey) =
        addr := by
  unfold checkRegistry
  cases hp : state.lifecycle.payload with
  | none => simp [payload_eq_none.mp hp, registryIndex]
  | some p =>
    obtain ⟨hindex, hkey, -⟩ := of_payload hp
    simp [hindex, hkey]

theorem validatorState_eq_ok :
    validatorState X vs addr = .ok state ↔
      decodeSlots addr (vs.registry.addressToIndex addr) (vs.val addr) = .ok state ∧
      checkRegistry X vs addr state = .ok () := by
  simp only [validatorState, laws, exists_unit]
  refine ⟨?_, ?_⟩
  · rintro ⟨_, hdecode, hcheck, rfl⟩
    exact ⟨hdecode, hcheck⟩
  · rintro ⟨hdecode, hcheck⟩
    exact ⟨state, hdecode, hcheck, rfl⟩

theorem validatorState_address (h : validatorState X vs addr = .ok state) : state.address = addr :=
  (decodeSlots_ok (validatorState_eq_ok.mp h).1).1

/-- The state of an address depends on the registry and its own slots. -/
theorem validatorState_congr (hregistry : vs'.registry = vs.registry)
    (hval : vs'.val addr = vs.val addr) : validatorState X vs' addr = validatorState X vs addr := by
  simp only [validatorState, checkRegistry, hregistry, hval]

/-! ### Committed transitions -/

/-- A call read the lifecycle `l` of an address and committed `next`. -/
structure Commits (X : Externals) (addr : Address) (l next : ValidatorLifecycle)
    (setChange : Bool) (vs vs' : Store) : Prop where
  read : validatorState X vs addr = .ok ⟨addr, l⟩
  valid : next.validate addr = .ok ()
  index_eq : l.registryIndex = next.registryIndex
  pubkey_eq : l.consensusPubkey = next.consensusPubkey
  store : vs' = committed vs ⟨addr, l⟩ next setChange

theorem commits_of_ok {before : ValidatorState} {next : ValidatorLifecycle}
    (hread : validatorState X vs addr = .ok before)
    (h : Ok (commitLifecycle before next setChange) vs u vs') :
    Commits X addr before.lifecycle next setChange vs vs' := by
  obtain rfl := validatorState_address hread
  obtain ⟨_, hvalid, hindex, hkey, rfl⟩ := ok_commitLifecycle.mp h
  exact ⟨hread, hvalid, hindex, hkey, rfl⟩

namespace Commits

variable {l next : ValidatorLifecycle} {setChange : Bool}

variable (h : Commits X addr l next setChange vs vs')

include h

/-- The store differs in the slots of the one address and the pending flag. -/
theorem frame :
    vs'.registry = vs.registry ∧ vs'.delegates = vs.delegates ∧ vs'.ocomp = vs.ocomp ∧
      vs'.snapshots = vs.snapshots ∧ ∀ a, a ≠ addr → vs'.val a = vs.val a := by
  rw [h.store]
  exact ⟨rfl, rfl, rfl, rfl, fun a ha => vs.setVal_val_of_ne _ ha⟩

/-- Other addresses keep their state. -/
theorem validatorState_of_ne {a : Address}
    (ha : a ≠ addr) : validatorState X vs' a = validatorState X vs a :=
  validatorState_congr h.frame.1 (h.frame.2.2.2.2 a ha)

/-- The slots before encode the lifecycle that was read. -/
theorem encodes : (vs.val addr).Encodes (vs.registry.addressToIndex addr) l ∧ l.Canonical addr :=
  (decodeSlots_ok (validatorState_eq_ok.mp h.read).1).2

/-- The address reads back as the committed lifecycle. -/
theorem read_next (hp2p : ∀ p, next.p2p = some p → p.Canonical addr) :
    validatorState X vs' addr = .ok ⟨addr, next⟩ := by
  obtain ⟨henc, -⟩ := h.encodes
  have hindex : vs.registry.addressToIndex addr = next.storedIndex := by
    rw [henc.index_eq, storedIndex, h.index_eq]
    rfl
  have hcheck := checkRegistry_eq_ok.mp (validatorState_eq_ok.mp h.read).2
  refine validatorState_eq_ok.mpr ⟨?_, checkRegistry_eq_ok.mpr fun p hp => ?_⟩
  · rw [h.frame.1]
    refine decodeSlots_of_encodes ?_ ⟨h.valid, hp2p⟩
    have hval : vs'.val addr = persisted l next (vs.val addr) := by
      rw [h.store]
      exact vs.setVal_val_self addr _
    rw [hval]
    exact henc.persisted hindex h.pubkey_eq (storedStatus_ne_none h.index_eq)
  · rw [h.frame.1]
    obtain ⟨hpindex, hpkey, -⟩ := of_payload hp
    cases hl : l.payload with
    | none =>
      have hnone := h.index_eq
      rw [payload_eq_none.mp hl, hpindex] at hnone
      cases hnone
    | some q =>
      obtain ⟨hqindex, hqkey, -⟩ := of_payload hl
      have hsame : q.registryIndex = p.registryIndex ∧ q.consensusPubkey = p.consensusPubkey :=
        ⟨Option.some.inj (hqindex.symm.trans (h.index_eq.trans hpindex)),
          Option.some.inj (hqkey.symm.trans (h.pubkey_eq.trans hpkey))⟩
      rw [← hsame.1, ← hsame.2]
      exact hcheck q hl

/-- The same for a transition that keeps the P2P information. -/
theorem read_next_of_p2p (hp2p : next.p2p = l.p2p) : validatorState X vs' addr = .ok ⟨addr, next⟩ :=
  h.read_next fun p hp => h.encodes.2.p2p p (hp2p ▸ hp)

end Commits

end Rudis.ValidatorSet
