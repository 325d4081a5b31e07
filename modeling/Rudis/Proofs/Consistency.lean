import Rudis.Proofs.Changes

/-!
# `Rudis.Proofs.Consistency`: the registry and the stake mirror along every run

`WorldConsistent` holds of a world whose registry is consistent and whose ValidatorSet mirrors the
stake of every address. Each change of the validator set keeps it: a committed transition and a
counter write rewrite one record (`consistentAt_of_commits`, `consistentAt_of_counts`), a
registration adds or renews one (`consistentAt_of_registers`, `consistentAt_of_reregisters`), and a
cleanup removes some (`consistentAt_of_removals`). So it holds along every run
(`worldConsistent_run`), from an empty registry in particular (`worldConsistent_fresh`).
-/

namespace Rudis

open ValidatorSet

variable {X : Externals} {env : BlockEnv} {addr : Address} {vs vs' : ValidatorSet.Store}
  {count : Nat}

/-! ### One record rewritten -/

variable {l l' next : ValidatorLifecycle} {count' i index : Nat} {s : ValidatorSlots}

/-- Slots encode one canonical state. -/
theorem encodes_unique (h : s.Encodes index l) (hl : l.Canonical addr) (h' : s.Encodes index l')
    (hl' : l'.Canonical addr) : l = l' := by
  have hdecode := (decodeSlots_of_encodes h hl).symm.trans (decodeSlots_of_encodes h' hl')
  simpa using hdecode

variable {setChange : Bool}

theorem consistentAt_of_commits (h : Commits X addr l next setChange vs vs')
    (hp2p : ∀ p, next.p2p = some p → p.Canonical addr) (hvs : ConsistentAt X vs count) :
    ConsistentAt X vs' count := by
  obtain ⟨hregistry, -, -, -, hframe⟩ := h.frame
  refine hvs.of_val hregistry fun a l₀ henc hcanon => ?_
  by_cases ha : a = addr
  · subst ha
    obtain rfl := encodes_unique henc hcanon h.encodes.1 h.encodes.2
    have hnext := (decodeSlots_ok (validatorState_eq_ok.mp (h.read_next hp2p)).1).2
    rw [hregistry] at hnext
    exact ⟨next, hnext.1, hnext.2, h.pubkey_eq.symm⟩
  · exact ⟨l₀, hframe a ha ▸ henc, hcanon, rfl⟩

/-- The stake mirror after a committed transition. -/
theorem stake_of_commits (h : Commits X addr l next setChange vs vs')
    (hp2p : ∀ p, next.p2p = some p → p.Canonical addr) (a : Address) :
    (vs'.val a).stake = if a = addr then next.bondedStake else (vs.val a).stake := by
  split
  · rename_i ha
    subst ha
    exact (decodeSlots_ok (validatorState_eq_ok.mp (h.read_next hp2p)).1).2.1.stake
  · rename_i ha
    rw [h.frame.2.2.2.2 a ha]

theorem consistentAt_of_counts (h : Counts vs vs') (hvs : ConsistentAt X vs count) :
    ConsistentAt X vs' count := by
  obtain ⟨addr, missedBlocks, missedVotes, blocksProposed, hreg, rfl⟩ := h
  refine hvs.of_val rfl fun a l henc hcanon => ?_
  by_cases ha : a = addr
  · subst ha
    rw [Store.setVal_val_self]
    refine ⟨_, henc.withCounters hreg missedBlocks missedVotes blocksProposed,
      hcanon.mapRecord fun _ => rfl, ?_⟩
    cases l <;> rfl
  · exact ⟨l, vs.setVal_val_of_ne _ ha ▸ henc, hcanon, rfl⟩

/-! ### One record added, renewed or removed -/

variable {pubkey : ConsensusPubkey}

theorem consistentAt_of_registers
    (h : Registers X env addr pubkey vs vs') (hvs : ConsistentAt X vs vs.registry.validatorCount) :
    ConsistentAt X vs' vs'.registry.validatorCount := by
  obtain ⟨hadmits, hne, habsent, s, nodeId, hs, rfl⟩ := h
  have hindex : vs.registry.addressToIndex addr = 0 := habsent.index_eq
  refine ⟨fun a => ?_, ?_, hvs.dense.push hindex, ?_⟩
  · by_cases ha : a = addr
    · subst ha
      simp only [Registry.setRadicle, Registry.setKeyOwner, Registry.setIndex, update_self]
      exact ⟨_, hs, canonical_fresh hadmits.pubkey_ne_zero⟩
    · simp only [Registry.setRadicle, Registry.setKeyOwner, Registry.setIndex, update_of_ne ha]
      exact hvs.lifecycle a
  · exact (update_of_ne hne.symm _ _).trans hvs.zero
  · refine hvs.owner.claim hne (not_not.mpr hindex) hadmits.owner (fun b => ?_) ?_ fun b hb => ?_
    · by_cases hb : b = addr
      · simp [Registered, Registry.setRadicle, Registry.setKeyOwner, Registry.setIndex, hb]
      · simp [Registered, Registry.setRadicle, Registry.setKeyOwner, Registry.setIndex, hb]
    · simp only [update_self]
      exact congrArg (consensusPubkeyHash X) hs.pubkey
    · simp only [update_of_ne hb]

theorem consistentAt_of_reregisters
    (h : Reregisters X env addr pubkey vs vs') (hvs : ConsistentAt X vs count) :
    ConsistentAt X vs' count := by
  obtain ⟨hadmits, -, inactive, s, hold, hs, rfl⟩ := h
  have hreg : Registered vs addr := by
    rw [Registered, hold.index_eq]
    exact inactive.registryIndex.property
  have hne : addr ≠ 0 := by
    rintro rfl
    exact hreg hvs.zero
  refine ⟨fun a => ?_, hvs.zero, hvs.dense, ?_⟩
  · by_cases ha : a = addr
    · subst ha
      simp only [update_self]
      exact ⟨_, hs, canonical_fresh hadmits.pubkey_ne_zero⟩
    · simp only [update_of_ne ha]
      exact hvs.lifecycle a
  -- The old key is released before the new one is claimed.
  · have hkey : consensusPubkeyHash X inactive.consensusPubkey =
        consensusPubkeyHash X (vs.val addr).readConsensusPubkey :=
      congrArg (consensusPubkeyHash X) hold.pubkey.symm
    have hreleased : Owns _ (fun b => b ≠ addr ∧ Registered vs b) _ :=
      hvs.owner.release hne hreg (fun b => Iff.rfl) fun b _ => rfl
    rw [← hkey] at hreleased
    refine hreleased.claim hne (fun hmem => hmem.1 rfl) ?_ (fun b => ?_) ?_ fun b hb => ?_
    · by_cases hk : consensusPubkeyHash X pubkey = consensusPubkeyHash X inactive.consensusPubkey
      · exact .inl (by rw [hk, update_self])
      · rw [update_of_ne hk]
        exact hadmits.owner
    · by_cases hb : b = addr
      · subst hb
        exact ⟨fun _ => .inl rfl, fun _ => hreg⟩
      · exact ⟨fun hmem => .inr ⟨hb, hmem⟩, fun hmem => (hmem.resolve_left hb).2⟩
    · simp only [update_self]
      exact congrArg (consensusPubkeyHash X) hs.pubkey
    · simp only [update_of_ne hb]

/-- Apart from the removed address every index stays, but that the last entry takes the freed
one. -/
theorem addressToIndex_of_removes (h : Removes X i count addr vs vs') {a : Address}
    (ha : a ≠ addr) : vs'.registry.addressToIndex a =
      if i < count ∧ a = vs.registry.indexToAddress count then i
      else vs.registry.addressToIndex a := by
  rw [h.addressToIndex, update_of_ne ha]
  by_cases hlt : i < count
  · by_cases hal : a = vs.registry.indexToAddress count
    · simp [hlt, hal]
    · simp [hlt, hal]
  · simp [hlt]

/-- A removal unregisters one address and nobody else. -/
theorem registered_of_removes (hlo : 1 ≤ i) (h : Removes X i count addr vs vs')
    (hvs : ConsistentAt X vs count) (b : Address) :
    Registered vs' b ↔ b ≠ addr ∧ Registered vs b := by
  by_cases hb : b = addr
  · subst hb
    simp [Registered, h.addressToIndex]
  · rw [Registered, addressToIndex_of_removes h hb]
    split
    · rename_i hmoved
      have hlast : vs.registry.addressToIndex b = count :=
        hmoved.2 ▸ hvs.dense.entry count (by omega) (le_refl count)
      rw [Registered, hlast]
      exact ⟨fun _ => ⟨hb, by omega⟩, fun _ => by omega⟩
    · exact ⟨fun hreg => ⟨hb, hreg⟩, fun hreg => hreg.2⟩

theorem consistentAt_of_removes (hlo : 1 ≤ i) (hhi : i ≤ count)
    (h : Removes X i count addr vs vs') (hvs : ConsistentAt X vs count) :
    ConsistentAt X vs' (count - 1) := by
  have hi : i ≠ 0 := by omega
  have hindex : vs.registry.addressToIndex addr = i := h.entry ▸ hvs.dense.entry i hi hhi
  have hlast : vs.registry.addressToIndex (vs.registry.indexToAddress count) = count :=
    hvs.dense.entry count (by omega) (le_refl count)
  obtain ⟨s, hs, hval⟩ := h.val
  refine ⟨fun a => ?_, ?_, ?_, ?_⟩
  · by_cases ha : a = addr
    · subst ha
      rw [hval, h.addressToIndex, update_self, update_self]
      exact ⟨.absent, hs, canonical_absent a⟩
    · obtain ⟨l, henc, hcanon⟩ := hvs.lifecycle a
      rw [hval, update_of_ne ha, addressToIndex_of_removes h ha]
      split
      · rename_i hmoved
        rw [hmoved.2, hlast] at henc
        exact ⟨_, hmoved.2 ▸ henc.withIndex (by omega) ⟨i, hi⟩, hcanon.mapRecord fun _ => rfl⟩
      · exact ⟨l, henc, hcanon⟩
  · rw [addressToIndex_of_removes h h.ne_zero.symm, if_neg]
    · exact hvs.zero
    · rintro ⟨_, hzero⟩
      rw [← hzero, hvs.zero] at hlast
      omega
  · rw [h.addressToIndex, h.indexToAddress, ← h.entry]
    exact hvs.dense.swapRemove hi hhi 0
  · rw [h.owner]
    have hreg : Registered vs addr := by
      rw [Registered, hindex]
      exact hi
    exact hvs.owner.release h.ne_zero hreg (registered_of_removes hlo h hvs)
      fun b hb => by rw [hval, update_of_ne hb]

theorem consistentAt_of_removals (h : Removals X count vs count' vs')
    (hvs : ConsistentAt X vs count) : ConsistentAt X vs' count' := by
  induction h with
  | nil => exact hvs
  | cons hlo hhi hremoves _ ih => exact ih (consistentAt_of_removes hlo hhi hremoves hvs)

/-! ### The stake mirror -/

/-- A write of one record whose stake stays leaves the mirror. -/
theorem stake_of_update (hval : vs'.val = update vs.val addr s)
    (hstake : s.stake = (vs.val addr).stake) (a : Address) :
    (vs'.val a).stake = (vs.val a).stake := by
  rw [hval]
  exact field_update ValidatorSlots.stake hstake a

theorem stake_of_removals {count count' : Nat} (h : Removals X count vs count' vs')
    (a : Address) : (vs'.val a).stake = (vs.val a).stake := by
  induction h with
  | nil => rfl
  | cons _ _ hremoves _ ih =>
    obtain ⟨s, hs, hval⟩ := hremoves.val
    obtain ⟨inactive, hinactive⟩ := hremoves.inactive
    exact ih.trans (stake_of_update hval (hs.stake.trans hinactive.stake.symm) a)

/-- The registry is consistent and every stake is mirrored. -/
def View.Consistent (X : Externals) (v : View) : Prop :=
  ConsistentAt X v.store v.store.registry.validatorCount ∧
    ∀ a, (v.store.val a).stake = v.stake a

/-- Every change keeps the registry consistent and the stakes mirrored. -/
theorem View.Consistent.change {op : Op} {v v' : View} (h : Change X env op v v')
    (hv : v.Consistent X) : v'.Consistent X := by
  obtain ⟨hregistry, hmirror⟩ := hv
  cases h with
  | commit h hp2p hbonded =>
    refine ⟨h.frame.1 ▸ consistentAt_of_commits h hp2p hregistry, fun a => ?_⟩
    rw [stake_of_commits h hp2p a]
    split
    · rename_i ha
      rw [hbonded, ← h.encodes.1.stake, ← ha]
      exact hmirror a
    · exact hmirror a
  | restake h hp2p =>
    refine ⟨h.frame.1 ▸ consistentAt_of_commits h hp2p hregistry, fun a => ?_⟩
    simp only [stake_of_commits h hp2p a, update_apply]
    split
    · rfl
    · exact hmirror a
  | count h =>
    have hat := consistentAt_of_counts h hregistry
    obtain ⟨addr, missedBlocks, missedVotes, blocksProposed, -, rfl⟩ := h
    refine ⟨hat, fun a => Eq.trans ?_ (hmirror a)⟩
    exact stake_of_update
      (s := ValidatorSlots.withCounters _ missedBlocks missedVotes blocksProposed) rfl rfl a
  | register h =>
    refine ⟨consistentAt_of_registers h hregistry, fun a => ?_⟩
    obtain ⟨-, -, habsent, s, nodeId, hs, rfl⟩ := h
    exact (stake_of_update rfl (hs.stake.trans habsent.stake.symm) a).trans (hmirror a)
  | reregister h =>
    have hat := consistentAt_of_reregisters h hregistry
    obtain ⟨-, -, inactive, s, hold, hs, rfl⟩ := h
    exact ⟨hat, fun a =>
      (stake_of_update rfl (hs.stake.trans hold.stake.symm) a).trans (hmirror a)⟩
  | cleanup h =>
    obtain ⟨hl, hz, hd, ho⟩ := consistentAt_of_removals h hregistry
    exact ⟨⟨hl, hz, hd, ho⟩, fun a => (stake_of_removals h a).trans (hmirror a)⟩
  | setDelegate _ h =>
    obtain ⟨-, -, -, -, rfl⟩ := h
    exact ⟨hregistry.of_val rfl fun a l henc hcanon => ⟨l, henc, hcanon, rfl⟩, hmirror⟩
  | revokeDelegate _ h =>
    obtain ⟨-, -, rfl⟩ := h
    exact ⟨hregistry.of_val rfl fun a l henc hcanon => ⟨l, henc, hcanon, rfl⟩, hmirror⟩
  | ocomp _ | openWindow _ _ | closeWindow _ _ =>
    exact ⟨hregistry.of_val rfl fun a l henc hcanon => ⟨l, henc, hcanon, rfl⟩, hmirror⟩
  | quiet hval hreg _ _ =>
    refine ⟨hreg ▸ hregistry.of_val hreg fun a l henc hcanon => ⟨l, hval ▸ henc, hcanon, rfl⟩,
      fun a => ?_⟩
    rw [hval]
    exact hmirror a

/-! ### Every run -/

/-- A world whose registry is consistent and whose validator set mirrors Staking. -/
structure WorldConsistent (X : Externals) (w : World) : Prop where
  registry : Consistent X w.validatorSet
  mirror : ∀ a, (w.validatorSet.val a).stake = w.staking.stakeAmount a

theorem worldConsistent_iff {w : World} : WorldConsistent X w ↔ (view w).Consistent X :=
  ⟨fun h => ⟨consistent_iff.mp h.registry, h.mirror⟩, fun h => ⟨consistent_iff.mpr h.1, h.2⟩⟩

theorem worldConsistent_run {w : World} (hw : WorldConsistent X w) (l : List (BlockEnv × Op)) :
    WorldConsistent X (Runs.run (step X) l w) :=
  Runs.run_inv (WorldConsistent X)
    (fun _ _ _ h => worldConsistent_iff.mpr
      (inv_of_step View.Consistent.change (worldConsistent_iff.mp h)))
    (Runs.along_of_forall (fun _ _ => trivial) l w) hw

/-- An empty registry is consistent. -/
theorem worldConsistent_fresh (X : Externals) (configOwner : Address) (configMinStake : Nat)
    (balance : Address → Nat) :
    WorldConsistent X (World.fresh configOwner configMinStake balance) := by
  refine worldConsistent_iff.mpr ⟨⟨fun a => ⟨.absent, ?_, canonical_absent a⟩, rfl, ?_, ?_⟩,
    fun a => rfl⟩
  · refine encodes_absent_iff.mpr ⟨rfl, ?_, rfl, rfl, rfl, rfl, rfl, rfl, rfl, rfl, rfl, rfl, rfl,
      rfl, rfl, rfl⟩
    show joinPubkey 0 0 = 0
    decide +kernel
  · refine ⟨fun a ha => absurd rfl ha, fun i hi hle => ?_⟩
    exact absurd (Nat.le_zero.mp hle) hi
  · intro k a ha
    exact ⟨fun hzero => absurd hzero.symm ha, fun hreg => absurd rfl hreg.1⟩

/-- From a consistent genesis every run keeps the registry consistent and the stakes mirrored: the
state of every address can be read, the dense indices are a bijection, the key map holds the
registered keys and no others, and ValidatorSet agrees with Staking. A key is meant by its hash, so
the key map says which key is registered as long as no registered key collides with it. -/
theorem registry_consistent_of_run {w : World} (hw : WorldConsistent X w)
    (l : List (BlockEnv × Op)) :
    WorldConsistent X (Runs.run (step X) l w) ∧
      ∀ pubkey a, a ≠ 0 →
        (∀ b, Registered (Runs.run (step X) l w).validatorSet b → consensusPubkeyHash X
              ((Runs.run (step X) l w).validatorSet.val b).readConsensusPubkey =
            consensusPubkeyHash X pubkey →
          ((Runs.run (step X) l w).validatorSet.val b).readConsensusPubkey = pubkey) →
        ((Runs.run (step X) l w).validatorSet.registry.consensusPubkeyHashToAddress
            (consensusPubkeyHash X pubkey) = a ↔ Registered (Runs.run (step X) l w).validatorSet a ∧
            ((Runs.run (step X) l w).validatorSet.val a).readConsensusPubkey = pubkey) := by
  have hrun := worldConsistent_run hw l
  refine ⟨hrun, fun pubkey a ha hcollision => ?_⟩
  rw [hrun.registry.owner _ a ha]
  refine and_congr_right fun hreg => ⟨hcollision a hreg, fun hkey => ?_⟩
  rw [hkey]

theorem registry_consistent_of_join :
    Registered (Runs.run (step sampleExternals) aliceJoins sampleGenesis).validatorSet
        alice.address ∧
      WorldConsistent sampleExternals (Runs.run (step sampleExternals) aliceJoins sampleGenesis) :=
  ⟨by decide +kernel,
    (registry_consistent_of_run (worldConsistent_fresh sampleExternals 9 1 fun _ => 10)
      aliceJoins).1⟩

end Rudis
