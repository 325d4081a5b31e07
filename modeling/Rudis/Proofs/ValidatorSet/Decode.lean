import Rudis.Spec.ValidatorSet.Runtime
import Rudis.Proofs.ConsensusP2p

/-!
# `Rudis.Proofs.ValidatorSet.Decode`: raw slots and typed states

`ValidatorSlots.Encodes` says that the slots of an address hold exactly the fields of a lifecycle,
and `ValidatorLifecycle.Canonical` that the lifecycle passes its own validation and that its P2P
information survives a store and a load. `decodeSlots_eq_ok` shows that the adapter accepts
precisely the slots that encode a canonical lifecycle, and then returns it. So every later proof
reads and writes lifecycles and never looks at the ten branches of the adapter again.
-/

namespace Rudis.ValidatorSet

open P2pInfo (decodeStored unset encodeStored v1)
open ValidatorLifecycle Option

/-- The dense index a lifecycle holds; zero for an absent one. -/
def ValidatorLifecycle.storedIndex (l : ValidatorLifecycle) : Nat :=
  (l.registryIndex.map (·.val)).getD 0

/-- The slots hold the fields of the lifecycle. -/
structure ValidatorSlots.Encodes (s : ValidatorSlots) (index : Nat) (l : ValidatorLifecycle) :
    Prop where
  index_eq : index = l.storedIndex
  pubkey : s.readConsensusPubkey = l.consensusPubkey.getD 0
  stake : s.stake = l.bondedStake
  status : s.status = l.storedStatus.getD 0
  slashCount : s.slashCount = l.storedHistory (·.slashCount)
  missedBlocks : s.missedBlocks = l.storedHistory (·.missedBlocks)
  missedVotes : s.missedVotes = l.storedHistory (·.missedVotes)
  blocksProposed : s.blocksProposed = l.storedHistory (·.blocksProposed)
  joinedAtHeight : s.joinedAtHeight = l.storedHistory (·.joinedAtHeight)
  deactivatedAtHeight : s.deactivatedAtHeight = l.storedDeactivatedAt
  unbondingEnd : s.unbondingEnd = l.unbondingEndHint.getD 0
  hasBlsShare : s.hasBlsShare = l.hasBlsShare
  joinConfirmed : s.joinConfirmed = l.joinConfirmed
  jailedAtHeight : s.jailedAtHeight = l.storedJailedAt
  p2p : (s.p2pAddressVersion, s.p2pAddressPayload) = l.storedP2p

/-- Storing the P2P information and loading it gives it back. -/
def P2pInfo.Canonical (addr : Address) (p : P2pInfo) : Prop :=
  decodeStored addr p.encodeStored.1 p.encodeStored.2 = .ok p

/-- The lifecycle passes its validation and its P2P information is canonical. -/
structure ValidatorLifecycle.Canonical (addr : Address) (l : ValidatorLifecycle) : Prop where
  validate : l.validate addr = .ok ()
  p2p : ∀ p, l.p2p = some p → p.Canonical addr

/-! ### P2P information -/

theorem P2pInfo.canonical_unset (addr : Address) : unset.Canonical addr := rfl

variable {addr : Address} {version : Nat}

/-- A decoded payload is the canonical encoding of what it decodes to. -/
theorem P2pInfo.encodeStored_of_decodeStored
    {payload : List UInt8} {p : P2pInfo} (h : decodeStored addr version payload = .ok p) :
    p.encodeStored = (version, payload) := by
  unfold decodeStored at h
  split at h
  · rename_i hboth
    cases h
    rw [hboth.1, hboth.2]
    rfl
  · split at h
    · cases h
    · split at h
      · cases h
        rfl
      · split at h
        · rename_i address haddress
          cases h
          obtain ⟨hversion, hdecode⟩ := decodeVersioned_eq_ok.mp haddress
          rw [encodeStored, encodeV1_of_decodeV1 hdecode, hversion]
        · cases h

/-- What the adapter loads is canonical. -/
theorem P2pInfo.canonical_of_decodeStored
    {payload : List UInt8} {p : P2pInfo} (h : decodeStored addr version payload = .ok p) :
    p.Canonical addr := by
  unfold P2pInfo.Canonical
  rw [P2pInfo.encodeStored_of_decodeStored h]
  exact h

/-- An address a caller submits in its encoded form is canonical. -/
theorem P2pInfo.canonical_v1_of_decodeVersioned
    {encoded : List UInt8} {a : P2pAddress} (h : decodeVersioned version encoded = .ok a) :
    (v1 a).Canonical addr := by
  obtain ⟨rfl, hdecode⟩ := decodeVersioned_eq_ok.mp h
  have henc : encodeV1 a = encoded := encodeV1_of_decodeV1 hdecode
  have hne : encoded ≠ [] := henc ▸ encodeV1_ne_nil a
  simp [P2pInfo.Canonical, decodeStored, encodeStored, henc, hne, h, p2pAddressVersionV1] at *

/-! ### The adapter -/

@[simp] theorem nonZero_getD (x : Nat) : (nonZero x).getD 0 = x := by
  unfold nonZero
  split <;> simp_all

@[simp] theorem nonZero_eq_none {x : Nat} : nonZero x = none ↔ x = 0 := by
  unfold nonZero
  split <;> simp_all

theorem nonZero_ne_some_zero (x : Nat) : nonZero x ≠ some 0 := by
  unfold nonZero
  split <;> simp_all

/-- A stored zero is the absent value, so an option without a zero survives a store and a load. -/
theorem nonZero_of_ne_some_zero {o : Option Nat} (h : o ≠ some 0) : nonZero (o.getD 0) = o := by
  cases o with
  | none => rfl
  | some n => simp_all [nonZero]

/-- The typed payload of registered slots. -/
def ValidatorSlots.payload (s : ValidatorSlots) (index : NonZeroU64) (p2p : P2pInfo) : Payload :=
  ⟨index, s.readConsensusPubkey, p2p, ⟨s.stake, nonZero s.unbondingEnd⟩,
    ⟨s.joinedAtHeight, nonZero s.deactivatedAtHeight, s.slashCount, s.missedBlocks,
      s.missedVotes, s.blocksProposed⟩⟩

variable {l : ValidatorLifecycle} {s : ValidatorSlots}

/-- The slots of a registered address encode the state the adapter reads from them. -/
theorem encodes_of_decodeLifecycle (index : NonZeroU64) {p2p : P2pInfo}
    (hjail : s.status ≠ statusJailed → s.jailedAtHeight = 0)
    (hp2p : p2p.encodeStored = (s.p2pAddressVersion, s.p2pAddressPayload))
    (h : decodeLifecycle addr (s.payload index p2p) s.status s.hasBlsShare s.joinConfirmed
      s.jailedAtHeight = .ok l) : s.Encodes index.val l ∧ l.p2p = some p2p := by
  unfold decodeLifecycle at h
  split at h
  case h_7 hstatus hshare hjoin =>
    -- `Inactive` has no stake fields, so its branch checked that they are zero.
    split at h
    · cases h
    · rename_i hstake
      cases h
      simp only [ValidatorSlots.payload, not_or, not_not, not_isSome_iff_eq_none,
        nonZero_eq_none] at hstake
      exact ⟨⟨rfl, rfl, hstake.1, hstatus, rfl, rfl, rfl, rfl, rfl, (nonZero_getD _).symm,
        hstake.2, hshare, hjoin, hjail (by rw [hstatus]; decide), hp2p.symm⟩, rfl⟩
  all_goals cases h
  all_goals
    rename_i hstatus hshare hjoin
    refine ⟨⟨rfl, rfl, rfl, hstatus, rfl, rfl, rfl, rfl, rfl, (nonZero_getD _).symm,
      (nonZero_getD _).symm, hshare, hjoin, ?_, hp2p.symm⟩, rfl⟩
    first
    | rfl
    | exact hjail (by rw [hstatus]; decide)

/-- The fields every registered state has, with the empty stake of an inactive one. -/
def ValidatorLifecycle.payload : ValidatorLifecycle → Option Payload
  | .absent => none
  | .waitingForStake s | .waitingForReadiness s | .joining s | .active s | .exiting s
  | .unbonding s => some s
  | .jailRetained s | .jail s => some s.toPayload
  | .inactive s => some ⟨s.registryIndex, s.consensusPubkey, s.p2p, .zero, s.history⟩

/-- The adapter rebuilds a state from its payload and its stored flags. -/
theorem decodeLifecycle_payload {p : Payload} (h : l.payload = some p) :
    decodeLifecycle addr p (l.storedStatus.getD 0) l.hasBlsShare l.joinConfirmed l.storedJailedAt =
      .ok l := by
  cases l <;> cases h <;> rfl

theorem ValidatorLifecycle.payload_eq_none : l.payload = none ↔ l = .absent := by
  cases l <;> simp [ValidatorLifecycle.payload]

/-- The fields of a registered state, read off its payload. -/
theorem ValidatorLifecycle.of_payload {p : Payload} (h : l.payload = some p) :
    l.registryIndex = some p.registryIndex ∧ l.consensusPubkey = some p.consensusPubkey ∧
      l.p2p = some p.p2p ∧ l.bondedStake = p.stake.bonded ∧
      l.unbondingEndHint = p.stake.unbondingEndHint ∧ l.history = some p.history := by
  cases l <;> cases h <;> exact ⟨rfl, rfl, rfl, rfl, rfl, rfl⟩

theorem ValidatorLifecycle.storedStatus_le (l : ValidatorLifecycle) :
    l.storedStatus.getD 0 ≤ statusJailed := by
  cases l <;> simp [storedStatus, statusRegistered, statusPending, statusActive, statusExiting,
    statusUnbonding, statusInactive, statusJailed]

/-- Only a jailed state has a jail height. -/
theorem ValidatorLifecycle.storedJailedAt_eq_zero (l : ValidatorLifecycle)
    (h : l.storedStatus.getD 0 ≠ statusJailed) : l.storedJailedAt = 0 := by
  cases l with
  | jailRetained s | jail s => exact absurd rfl h
  | _ => rfl

/-- What validation checks: the three fields whose zero stands for "absent", and the rule of the
state itself. -/
theorem ValidatorLifecycle.validate_eq_ok :
    l.validate addr = .ok () ↔ l.consensusPubkey ≠ some 0 ∧ l.unbondingEndHint ≠ some 0 ∧
      l.history.bind (·.lastDeactivatedAtHeight) ≠ some 0 ∧ l.validateVariant addr = .ok () := by
  have hhint : validateStake addr l.stake = .ok () ↔ l.unbondingEndHint ≠ some 0 := by
    unfold ValidatorLifecycle.unbondingEndHint
    cases l.stake <;> simp [validateStake, validateHint]
  simp only [ValidatorLifecycle.validate, laws, Tx.exists_unit, hhint, ne_eq]

variable {index : Nat}

/-- Slots that encode a canonical registered state hold its payload. -/
theorem ValidatorSlots.Encodes.payload_eq
    {p : Payload} (h : s.Encodes index l) (hl : l.Canonical addr)
    (hp : l.payload = some p) : s.payload p.registryIndex p.p2p = p := by
  obtain ⟨_, hkey, _, hstake, hhint, hhistory⟩ := ValidatorLifecycle.of_payload hp
  obtain ⟨_, hhint0, hdeact0, _⟩ := validate_eq_ok.mp hl.validate
  rw [hhint] at hhint0
  simp only [hhistory, bind_some] at hdeact0
  simp only [ValidatorSlots.payload, h.pubkey, h.stake, h.unbondingEnd, h.joinedAtHeight,
    h.deactivatedAtHeight, h.slashCount, h.missedBlocks, h.missedVotes, h.blocksProposed,
    storedHistory, storedDeactivatedAt, hkey, hstake, hhint, hhistory, getD_some,
    map_some, bind_some, nonZero_of_ne_some_zero hhint0,
    nonZero_of_ne_some_zero hdeact0]

theorem encodes_absent_iff :
    s.Encodes index .absent ↔ index = 0 ∧ s.readConsensusPubkey = 0 ∧ s.stake = 0 ∧
      s.status = 0 ∧ s.slashCount = 0 ∧ s.missedBlocks = 0 ∧ s.missedVotes = 0 ∧
      s.blocksProposed = 0 ∧ s.joinedAtHeight = 0 ∧ s.deactivatedAtHeight = 0 ∧
      s.unbondingEnd = 0 ∧ s.hasBlsShare = false ∧ s.joinConfirmed = false ∧
      s.jailedAtHeight = 0 ∧ s.p2pAddressVersion = 0 ∧ s.p2pAddressPayload = [] := by
  refine ⟨fun h => ?_, fun h => ?_⟩
  · have hp2p := Prod.ext_iff.mp h.p2p
    exact ⟨h.index_eq, h.pubkey, h.stake, h.status, h.slashCount, h.missedBlocks, h.missedVotes,
      h.blocksProposed, h.joinedAtHeight, h.deactivatedAtHeight, h.unbondingEnd, h.hasBlsShare,
      h.joinConfirmed, h.jailedAtHeight, hp2p.1, hp2p.2⟩
  · obtain ⟨h1, h2, h3, h4, h5, h6, h7, h8, h9, h10, h11, h12, h13, h14, h15, h16⟩ := h
    exact ⟨h1, h2, h3, h4, h5, h6, h7, h8, h9, h10, h11, h12, h13, h14, Prod.ext h15 h16⟩

theorem canonical_absent (addr : Address) : ValidatorLifecycle.absent.Canonical addr :=
  ⟨rfl, fun p hp => by cases hp⟩

/-- A payload that decodes to nothing is empty. -/
theorem P2pInfo.decodeStored_unset {payload : List UInt8} :
    decodeStored addr version payload = .ok .unset ↔ version = 0 ∧ payload = [] := by
  refine ⟨fun h => ?_, fun h => ?_⟩
  · have := P2pInfo.encodeStored_of_decodeStored h
    exact ⟨(Prod.ext_iff.mp this).1.symm, (Prod.ext_iff.mp this).2.symm⟩
  · rw [h.1, h.2]
    rfl

/-- The adapter returns only canonical states, and the slots encode them. -/
theorem decodeSlots_ok {st : ValidatorState} (h : decodeSlots addr index s = .ok st) :
    st.address = addr ∧ s.Encodes index st.lifecycle ∧ st.lifecycle.Canonical addr := by
  simp only [decodeSlots, ValidatorState.decodeStored, bind_eq_ok] at h
  obtain ⟨_, _, p2p, hp2p, h⟩ := h
  split at h
  · rename_i hindex
    simp only [laws, not_or, not_not, ValidatorHistory.isZero,
      not_isSome_iff_eq_none, nonZero_eq_none] at h
    obtain ⟨_, ⟨hkey, hstake, hhint, hstatus, rfl, hhistory, hshare, hjoin, hjail⟩, rfl⟩ := h
    obtain ⟨hj, hd, hs, hmb, hmv, hbp⟩ := hhistory
    obtain ⟨hv, hpl⟩ := P2pInfo.decodeStored_unset.mp hp2p
    exact ⟨rfl, encodes_absent_iff.mpr ⟨hindex, hkey, hstake, hstatus, hs, hmb, hmv, hbp, hj, hd,
      hhint, by simpa using hshare, by simpa using hjoin, hjail, hv, hpl⟩, canonical_absent addr⟩
  · rename_i hindex
    simp only [laws, ValidatorState.fromLifecycle] at h
    obtain ⟨_, _, _, _, _, hjail, l, hl, _, hvalid, rfl⟩ := h
    have henc := encodes_of_decodeLifecycle ⟨index, hindex⟩
      (fun hne => by_contra fun hj => hjail ⟨hne, hj⟩)
      (P2pInfo.encodeStored_of_decodeStored hp2p) hl
    refine ⟨rfl, henc.1, hvalid, fun p hp => ?_⟩
    rw [henc.2] at hp
    cases hp
    exact P2pInfo.canonical_of_decodeStored hp2p

theorem decodeSlots_of_encodes (h : s.Encodes index l) (hl : l.Canonical addr) :
    decodeSlots addr index s = .ok ⟨addr, l⟩ := by
  simp only [decodeSlots, ValidatorState.decodeStored, bind_eq_ok]
  have hhint : validateHint addr ⟨s.stake, nonZero s.unbondingEnd⟩ = .ok () :=
    throwIf_eq_ok.mpr (nonZero_ne_some_zero _)
  cases hp : l.payload with
  | none =>
    obtain rfl := ValidatorLifecycle.payload_eq_none.mp hp
    obtain ⟨hindex, hkey, hstake, hstatus, hs, hmb, hmv, hbp, hj, hd, hu, hshare, hjoin, hjail,
      hv, hpl⟩ := encodes_absent_iff.mp h
    refine ⟨(), hhint, .unset, P2pInfo.decodeStored_unset.mpr ⟨hv, hpl⟩, ?_⟩
    rw [dif_pos hindex]
    simp [hkey, hstake, hu, hstatus, ValidatorHistory.isZero, hj, hd, hs, hmb, hmv, hbp, hshare,
      hjoin, hjail, statusRegistered]
  | some p =>
    obtain ⟨hindex, hkey, hp2p, -⟩ := ValidatorLifecycle.of_payload hp
    have hcanon := hl.p2p p.p2p hp2p
    have hstored : l.storedP2p = p.p2p.encodeStored := by
      simp [ValidatorLifecycle.storedP2p, hp2p]
    have hpair := Prod.ext_iff.mp (h.p2p.trans hstored)
    have hne : index = p.registryIndex.val := by
      rw [h.index_eq, ValidatorLifecycle.storedIndex, hindex]
      rfl
    subst hne
    refine ⟨(), hhint, p.p2p, ?_, ?_⟩
    · rw [show s.p2pAddressVersion = _ from hpair.1, show s.p2pAddressPayload = _ from hpair.2]
      exact hcanon
    · rw [dif_neg p.registryIndex.property]
      simp only [laws, not_and]
      refine ⟨(), ?_, (), ?_, (), ?_, l, ?_, ?_⟩
      · rw [h.status]
        exact not_lt.mpr l.storedStatus_le
      · rw [h.pubkey, hkey]
        exact fun h0 => (validate_eq_ok.mp hl.validate).1 (hkey.trans (congrArg some h0))
      · rw [h.status, h.jailedAtHeight]
        exact fun hstatus => not_not.mpr (l.storedJailedAt_eq_zero hstatus)
      · have hpayload := h.payload_eq hl hp
        rw [h.status, h.hasBlsShare, h.joinConfirmed, h.jailedAtHeight]
        exact (congrArg (decodeLifecycle addr · _ _ _ _) hpayload).trans
          (decodeLifecycle_payload hp)
      · simp [ValidatorState.fromLifecycle, hl.validate]

/-- The decoder accepts exactly the encodings of canonical lifecycles and returns what they
encode. -/
theorem decodeSlots_eq_ok {st : ValidatorState} : decodeSlots addr index s = .ok st ↔
    st.address = addr ∧ s.Encodes index st.lifecycle ∧ st.lifecycle.Canonical addr := by
  refine ⟨decodeSlots_ok, ?_⟩
  obtain ⟨_, l⟩ := st
  rintro ⟨rfl, henc, hcanon⟩
  exact decodeSlots_of_encodes henc hcanon

end Rudis.ValidatorSet
