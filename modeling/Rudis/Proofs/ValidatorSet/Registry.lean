import Rudis.Lib.Binding
import Rudis.Lib.Dense
import Rudis.Proofs.ValidatorSet.Calls

/-!
# `Rudis.Proofs.ValidatorSet.Registry`: the dense validator registry

A scan of the registry succeeds exactly when each dense index points to a non-zero address that
points back, and then it returns the entries in order (`registeredValidatorAddresses_eq_ok`).

`Consistent` is the registry invariant: the typed state of every address can be read, the two
index maps are inverse to each other on the registered addresses, and a key hash is owned exactly
by the registered validator with a key of that hash. `ConsistentAt` states the same about the raw
slots and for a given number of entries, which is the form that survives the middle of a cleanup,
where the stored count is stale (`consistent_iff`).
-/

namespace Rudis.ValidatorSet

open List

/-! ### The registry scan -/

variable {a addr : Address}

/-- A dense index resolves to a non-zero address that points back to it. -/
theorem validatorAddressAt_eq_ok {vs : Store} {index : Nat} :
    validatorAddressAt vs index = .ok (some a) ↔
      (index ≠ 0 ∧ index ≤ vs.registry.validatorCount) ∧
      a = vs.registry.indexToAddress index ∧ a ≠ 0 ∧ vs.registry.addressToIndex a = index := by
  unfold validatorAddressAt
  split
  · rename_i hrange
    simp only [Except.ok.injEq, reduceCtorEq, false_iff]
    omega
  · rename_i hrange
    simp only [laws, Tx.exists_unit, Option.some.injEq, not_not]
    refine ⟨?_, ?_⟩
    · rintro ⟨hne, hindex, rfl⟩
      exact ⟨by omega, rfl, hne, hindex⟩
    · rintro ⟨_, rfl, hne, hindex⟩
      exact ⟨hne, hindex, rfl⟩

/-- The dense entries of the registry, in order. -/
def Registry.entries (r : Registry) : List Address :=
  (List.range' 1 r.validatorCount).map r.indexToAddress

/-- The scan of the registry returns the dense entries, and has checked each of them. -/
theorem registeredValidatorAddresses_eq_ok {vs : Store} {l : List Address} :
    registeredValidatorAddresses vs = .ok l ↔ l = vs.registry.entries ∧
      ∀ i, 1 ≤ i → i ≤ vs.registry.validatorCount → vs.registry.indexToAddress i ≠ 0 ∧
        vs.registry.addressToIndex (vs.registry.indexToAddress i) = i := by
  have hentry : ∀ i a, (do
      let address ← validatorAddressAt vs i
      okOr address (.fatal "validator registry index is empty below validator_count")) =
        (.ok a : Result Address) ↔ validatorAddressAt vs i = .ok (some a) := by
    intro i a
    simp
  rw [registeredValidatorAddresses, Except.mapM_eq_ok_map (g := vs.registry.indexToAddress)
    fun i a h => (validatorAddressAt_eq_ok.mp ((hentry i a).mp h)).2.1]
  refine and_congr_right fun _ => ⟨fun h i hlo hhi => ?_, fun h i hi => ?_⟩
  · have hi := h i (mem_range'_1.mpr (by omega))
    exact (validatorAddressAt_eq_ok.mp ((hentry i _).mp hi)).2.2
  · have hrange := mem_range'_1.mp hi
    refine (hentry i _).mpr (validatorAddressAt_eq_ok.mpr ⟨by omega, rfl, ?_⟩)
    exact h i (by omega) (by omega)

theorem ne_zero_of_registeredValidatorAddresses {vs : Store} {l : List Address}
    (h : registeredValidatorAddresses vs = .ok l) : ∀ a ∈ l, a ≠ 0 := by
  obtain ⟨rfl, hentries⟩ := registeredValidatorAddresses_eq_ok.mp h
  intro a ha
  obtain ⟨i, hi, rfl⟩ := mem_map.mp ha
  have hrange := mem_range'_1.mp hi
  exact (hentries i (by omega) (by omega)).1

/-! ### Consistent registries -/

def Registered (vs : Store) (a : Address) : Prop := vs.registry.addressToIndex a ≠ 0

instance (vs : Store) (a : Address) : Decidable (Registered vs a) :=
  inferInstanceAs (Decidable (_ ≠ _))

/-- The registry invariant. -/
structure Consistent (X : Externals) (vs : Store) : Prop where
  /-- No address reads as corrupt. -/
  reads : ∀ a, ∃ state, validatorState X vs a = .ok state
  /-- The zero address is the absent owner of the reverse maps. -/
  zero : ¬ Registered vs 0
  index : ∀ a, Registered vs a → 1 ≤ vs.registry.addressToIndex a ∧
    vs.registry.addressToIndex a ≤ vs.registry.validatorCount ∧
    vs.registry.indexToAddress (vs.registry.addressToIndex a) = a
  entry : ∀ i, 1 ≤ i → i ≤ vs.registry.validatorCount →
    Registered vs (vs.registry.indexToAddress i) ∧
      vs.registry.addressToIndex (vs.registry.indexToAddress i) = i
  owner : ∀ h a, a ≠ 0 → (vs.registry.consensusPubkeyHashToAddress h = a ↔
    Registered vs a ∧ consensusPubkeyHash X (vs.val a).readConsensusPubkey = h)

/-- The registry invariant with `count` entries, about the raw slots. -/
structure ConsistentAt (X : Externals) (vs : Store) (count : Nat) : Prop where
  lifecycle : ∀ a, ∃ l, (vs.val a).Encodes (vs.registry.addressToIndex a) l ∧ l.Canonical a
  zero : vs.registry.addressToIndex 0 = 0
  dense : DenseIndex vs.registry.addressToIndex vs.registry.indexToAddress count
  owner : Owns vs.registry.consensusPubkeyHashToAddress (Registered vs)
    fun a => consensusPubkeyHash X (vs.val a).readConsensusPubkey

variable {X : Externals} {vs vs' : Store} {count : Nat}

/-- The slots of a registered address hold its key and its index. -/
theorem ValidatorSlots.Encodes.of_payload {s : ValidatorSlots} {index : Nat}
    {l : ValidatorLifecycle} {p : Payload} (h : s.Encodes index l) (hp : l.payload = some p) :
    index = p.registryIndex.val ∧ s.readConsensusPubkey = p.consensusPubkey := by
  obtain ⟨hindex, hkey, -⟩ := ValidatorLifecycle.of_payload hp
  refine ⟨?_, ?_⟩
  · rw [h.index_eq, ValidatorLifecycle.storedIndex, hindex]
    rfl
  · rw [h.pubkey, hkey]
    rfl

/-- A registered address is one whose state is not absent. -/
theorem registered_iff {state : ValidatorState} (h : validatorState X vs addr = .ok state) :
    Registered vs addr ↔ state.lifecycle ≠ .absent := by
  have henc := (decodeSlots_ok (validatorState_eq_ok.mp h).1).2.1
  unfold Registered
  cases hp : state.lifecycle.payload with
  | none =>
    have habsent := ValidatorLifecycle.payload_eq_none.mp hp
    rw [habsent] at henc
    have hzero : vs.registry.addressToIndex addr = 0 := henc.index_eq
    simp [habsent, hzero]
  | some p =>
    rw [(henc.of_payload hp).1]
    refine ⟨fun _ habsent => ?_, fun _ => p.registryIndex.property⟩
    rw [habsent] at hp
    cases hp

/-- The state of every address can be read while at most `validatorCount` entries are live. -/
theorem ConsistentAt.reads (h : ConsistentAt X vs count)
    (hcount : count ≤ vs.registry.validatorCount) (a : Address) :
    ∃ l, validatorState X vs a = .ok ⟨a, l⟩ := by
  obtain ⟨l, henc, hcanon⟩ := h.lifecycle a
  refine ⟨l, validatorState_eq_ok.mpr ⟨decodeSlots_of_encodes henc hcanon,
    checkRegistry_eq_ok.mpr fun p hp => ?_⟩⟩
  obtain ⟨hindex, hkey⟩ := henc.of_payload hp
  have hne : vs.registry.addressToIndex a ≠ 0 := hindex ▸ p.registryIndex.property
  have hzero : a ≠ 0 := by
    rintro rfl
    exact hne h.zero
  obtain ⟨hle, hback⟩ := h.dense.index a hne
  refine ⟨by omega, hindex ▸ hback, ?_⟩
  exact (h.owner _ a hzero).mpr ⟨hne, congrArg (consensusPubkeyHash X) hkey⟩

theorem consistent_iff : Consistent X vs ↔ ConsistentAt X vs vs.registry.validatorCount := by
  refine ⟨fun h => ?_, fun h => ?_⟩
  · refine ⟨fun a => ?_, not_not.mp h.zero, ⟨fun a ha => (h.index a ha).2,
      fun i hi hle => (h.entry i (Nat.pos_of_ne_zero hi) hle).2⟩, h.owner⟩
    obtain ⟨state, hstate⟩ := h.reads a
    exact ⟨_, (decodeSlots_ok (validatorState_eq_ok.mp hstate).1).2⟩
  · refine ⟨fun a => ?_, not_not.mpr h.zero,
      fun a ha => ⟨Nat.pos_of_ne_zero ha, h.dense.index a ha⟩, fun i hlo hhi => ?_, h.owner⟩
    · obtain ⟨l, hl⟩ := h.reads le_rfl a
      exact ⟨_, hl⟩
    · have hback := h.dense.entry i (by omega) hhi
      exact ⟨by rw [Registered, hback]; omega, hback⟩

/-- A change of the slots alone keeps the invariant when each address keeps its key and still
encodes a canonical state. -/
theorem ConsistentAt.of_val (h : ConsistentAt X vs count) (hregistry : vs'.registry = vs.registry)
    (hval : ∀ a l, (vs.val a).Encodes (vs.registry.addressToIndex a) l → l.Canonical a →
      ∃ l', (vs'.val a).Encodes (vs.registry.addressToIndex a) l' ∧ l'.Canonical a ∧
        l'.consensusPubkey = l.consensusPubkey) : ConsistentAt X vs' count := by
  have hkey : ∀ a, (vs'.val a).readConsensusPubkey = (vs.val a).readConsensusPubkey := by
    intro a
    obtain ⟨l, henc, hcanon⟩ := h.lifecycle a
    obtain ⟨l', henc', -, hkey⟩ := hval a l henc hcanon
    rw [henc.pubkey, henc'.pubkey, hkey]
  refine ⟨fun a => ?_, ?_, ?_, ?_⟩
  · obtain ⟨l, henc, hcanon⟩ := h.lifecycle a
    obtain ⟨l', henc', hcanon', -⟩ := hval a l henc hcanon
    exact ⟨l', hregistry ▸ henc', hcanon'⟩
  · exact hregistry ▸ h.zero
  · exact hregistry ▸ h.dense
  · intro k a ha
    simp only [Registered, hregistry, hkey]
    exact h.owner k a ha

/-! ### Reads of a registry -/

/-- A registered validator has a record with its address, its status and its share. -/
theorem readValidatorRecord_of_read {l : ValidatorLifecycle} {p : Payload}
    (h : validatorState X vs a = .ok ⟨a, l⟩) (hp : l.payload = some p) :
    ∃ record, readValidatorRecord X vs a = .ok record ∧ record.validatorAddress = a ∧
      l.storedStatus = some record.status ∧ record.hasBlsShare = l.hasBlsShare := by
  obtain ⟨hindex, hkey, -, -, -, hhistory⟩ := ValidatorLifecycle.of_payload hp
  cases hstatus : l.storedStatus with
  | none =>
    rw [ValidatorLifecycle.storedStatus_eq_none, hindex] at hstatus
    cases hstatus
  | some status =>
    simp only [readValidatorRecord, h, hstatus, hhistory, hkey, laws, Except.ok.injEq,
      Option.some.injEq, ↓existsAndEq, true_and]

/-- The records whose lifecycle passes a test, when the scan succeeds and every entry can be
read. -/
theorem getValidatorsMatching_eq (predicate : ValidatorLifecycle → Bool) {g : Address → Bool}
    (hscan : registeredValidatorAddresses vs = .ok vs.registry.entries)
    (hreads : ∀ a ∈ vs.registry.entries, ∃ l, validatorState X vs a = .ok ⟨a, l⟩ ∧
      l ≠ .absent ∧ predicate l = g a) :
    ∃ records, getValidatorsMatching X vs predicate = .ok records ∧
      records.map (·.validatorAddress) = vs.registry.entries.filter g := by
  have hmatching : validatorAddressesMatching X vs predicate =
      .ok (vs.registry.entries.filter g) := by
    simp only [validatorAddressesMatching, hscan, bind_eq_ok, Except.ok.injEq, exists_eq_left']
    refine Except.filterM_of_forall fun a ha => ?_
    obtain ⟨l, hl, -, hg⟩ := hreads a ha
    simp [validatorLifecycle, hl, hg]
  have hrecords : ∀ addresses, addresses ⊆ vs.registry.entries → ∃ records,
      addresses.mapM (readValidatorRecord X vs) = .ok records ∧
        records.map (·.validatorAddress) = addresses := by
    intro addresses
    induction addresses with
    | nil => exact fun _ => ⟨[], rfl, rfl⟩
    | cons a addresses ih =>
      intro hsubset
      rw [cons_subset] at hsubset
      obtain ⟨records, hrecords, hmap⟩ := ih hsubset.2
      obtain ⟨l, hl, hne, -⟩ := hreads a hsubset.1
      obtain ⟨p, hp⟩ := Option.ne_none_iff_exists'.mp
        fun hnone => hne (ValidatorLifecycle.payload_eq_none.mp hnone)
      obtain ⟨record, hrecord, haddr, -⟩ := readValidatorRecord_of_read hl hp
      refine ⟨record :: records, ?_, by rw [map_cons, haddr, hmap]⟩
      simp [hrecord, hrecords]
  obtain ⟨records, hmap, haddr⟩ := hrecords (vs.registry.entries.filter g)
    fun a ha => mem_of_mem_filter ha
  refine ⟨records, ?_, haddr⟩
  simp [getValidatorsMatching, hmatching, hmap]

end Rudis.ValidatorSet
