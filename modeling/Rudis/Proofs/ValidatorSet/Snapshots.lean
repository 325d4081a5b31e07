import Rudis.Proofs.ValidatorSet.Commit
import Rudis.Spec.System

/-!
# `Rudis.Proofs.ValidatorSet.Snapshots`: the committee snapshot ring

A snapshot is spread over a dozen mappings and found through a ring of eight keys. `Ring` is the
refinement: after a history of successful writes the ring holds, for each residue class modulo
eight, the key of the last write of that class, those records hold exactly what was written, and
every other slot is empty. `Ring.write` is the step and `ring_of_written` the run.
`readSnapshot_of_written` reads the claims about the readers off it.

Keys are hashes. What is assumed of them is `KeysDetermine`, for the epochs and the snapshots at
hand only: a key is not zero, and equal keys belong to one epoch and one hashed content.
-/

namespace Rudis

open List
open Tx

/-! ### Bytes of words -/

variable (bytes : List UInt8)

/-- The value of big-endian bytes. -/
def beValue : Nat := bytes.foldl (fun acc (b : UInt8) => acc * 256 + b.toNat) 0

theorem beValue_append (b : UInt8) : beValue (bytes ++ [b]) = beValue bytes * 256 + b.toNat := by
  simp [beValue, foldl_append]

theorem beValue_lt : beValue bytes < 256 ^ bytes.length := by
  induction bytes using List.reverseRecOn with
  | nil => decide
  | append_singleton bytes b ih =>
    have hb : b.toNat < 256 := b.toNat_lt
    rw [beValue_append, length_append, length_singleton, pow_succ]
    omega

theorem beBytes_succ (n m : Nat) (b : UInt8) :
    beBytes (n + 1) (m * 256 + b.toNat) = beBytes n m ++ [b] := by
  have hb : b.toNat < 256 := b.toNat_lt
  unfold beBytes
  rw [range_succ, map_append, map_singleton]
  congr 1
  · refine map_congr_left fun i hi => ?_
    rw [mem_range] at hi
    -- The lowest byte is shifted out of every digit but the last.
    have hexp : n + 1 - 1 - i = (n - 1 - i) + 1 := by omega
    rw [hexp, Nat.pow_succ', ← Nat.div_div_eq_div_mul]
    congr 2
    omega
  · have hmod : UInt8.ofNat (m * 256 + b.toNat) = b := by
      apply UInt8.toNat_inj.mp
      rw [UInt8.toNat_ofNat']
      omega
    simp [hmod]

theorem beBytes_beValue : beBytes bytes.length (beValue bytes) = bytes := by
  induction bytes using List.reverseRecOn with
  | nil => rfl
  | append_singleton bytes b ih =>
    rw [beValue_append, length_append, length_singleton, beBytes_succ, ih]

namespace ValidatorSet

/-- A padded word holds its bytes. -/
theorem bytesOfWord_wordOfBytes {bytes : List UInt8} (h : bytes.length ≤ 32) :
    bytesOfWord (wordOfBytes bytes) = bytes ++ List.replicate (32 - bytes.length) 0 := by
  have hlength : (bytes ++ List.replicate (32 - bytes.length) 0).length = 32 := by
    rw [length_append, length_replicate]
    omega
  have hlt := beValue_lt (bytes ++ List.replicate (32 - bytes.length) 0)
  have hround := beBytes_beValue (bytes ++ List.replicate (32 - bytes.length) 0)
  rw [hlength] at hlt hround
  have hword : (wordOfBytes bytes).toNat =
      beValue (bytes ++ List.replicate (32 - bytes.length) 0) := by
    show (BitVec.ofNat 256 _).toNat = _
    rw [BitVec.toNat_ofNat]
    exact mod_eq_of_lt hlt
  rw [bytesOfWord, hword, hround]

theorem length_chunkAt (i : Nat) : (chunkAt bytes i).length = min 32 (bytes.length - 32 * i) := by
  rw [chunkAt, length_take, length_drop]

/-- The chunks of a byte string, put together. -/
theorem flatMap_chunkAt (n : Nat) :
    (List.range n).flatMap (chunkAt bytes) = bytes.take (32 * n) := by
  induction n with
  | zero => rfl
  | succ n ih =>
    rw [range_succ, flatMap_append, ih, flatMap_singleton, chunkAt, Nat.mul_succ, take_add]

theorem writeRange_apply {α : Type} (slot value : Nat → α) (n i : Nat) :
    writeRange slot value n i = if i < n then value i else slot i := by
  unfold writeRange
  induction n with
  | zero => rfl
  | succ n ih =>
    rw [range_succ, foldl_append]
    simp only [foldl_cons, foldl_nil, update_apply]
    by_cases hi : i = n
    · simp [hi]
    · rw [if_neg hi, ih]
      have hiff : i < n ↔ i < n + 1 := by omega
      simp only [hiff]

/-- Clearing a written range of zero slots leaves them zero. -/
theorem writeRange_clear {α : Type} (zero : α) (value : Nat → α) (n : Nat) :
    writeRange (writeRange (fun _ => zero) value n) (fun _ => zero) n = fun _ => zero := by
  funext i
  rw [writeRange_apply, writeRange_apply]
  split <;> rfl

variable {X : Externals}

namespace SnapshotSlots

/-- Eviction removes every trace of a written snapshot. -/
theorem clear_write (epoch : Nat) (hash : B256) (snapshot : CommitteeSnapshot)
    (members : List OcompSnapshotMember) :
    (empty.write X epoch hash snapshot members).clear = empty := by
  unfold clear
  rw [if_neg (by simp [write])]
  simp only [write, empty, writeRange_clear]

theorem vrfBytes_write (s : SnapshotSlots) (epoch : Nat) (hash : B256)
    (snapshot : CommitteeSnapshot) (members : List OcompSnapshotMember) :
    (s.write X epoch hash snapshot members).vrfBytes = snapshot.vrfGroupPublicKeyBytes := by
  generalize hbytes : snapshot.vrfGroupPublicKeyBytes = bytes
  have hchunk : ∀ i ∈ List.range (numChunks bytes.length),
      (bytesOfWord ((s.write X epoch hash snapshot members).vrfGroupPublicKeyChunkAt i)).take
        (if i + 1 = numChunks bytes.length then
          if bytes.length % 32 = 0 then 32 else bytes.length % 32 else 32) = chunkAt bytes i := by
    intro i hi
    rw [mem_range] at hi
    have hslot : (s.write X epoch hash snapshot members).vrfGroupPublicKeyChunkAt i =
        wordOfBytes (chunkAt bytes i) := by
      simp only [write, hbytes]
      rw [writeRange_apply, if_pos hi]
    have hle : (chunkAt bytes i).length ≤ 32 := by
      rw [length_chunkAt]
      exact min_le_left ..
    -- The number of bytes taken is the length of the chunk.
    have htake : (if i + 1 = numChunks bytes.length then
        if bytes.length % 32 = 0 then 32 else bytes.length % 32 else 32) =
          (chunkAt bytes i).length := by
      rw [length_chunkAt]
      unfold numChunks at hi ⊢
      split
      · split <;> omega
      · omega
    rw [hslot, bytesOfWord_wordOfBytes hle, htake]
    exact take_left ..
  have hlen : (s.write X epoch hash snapshot members).vrfGroupPublicKeyLen = bytes.length := by
    simp only [write, hbytes]
  rw [vrfBytes, hlen, flatMap_congr hchunk, flatMap_chunkAt]
  refine take_of_length_le ?_
  unfold numChunks
  omega

/-- What was written is read back. -/
theorem read_write (s : SnapshotSlots) (epoch : Nat) (hash : B256)
    (snapshot : CommitteeSnapshot) (members : List OcompSnapshotMember) :
    (s.write X epoch hash snapshot members).read = some snapshot := by
  have hcommittee : (List.range snapshot.committee.length).map
      (s.write X epoch hash snapshot members).entryAt = snapshot.committee := by
    refine ext_getElem (by simp) fun i hi hi' => ?_
    simp [entryAt, write, writeRange_apply, hi', atOr]
  have hread : (s.write X epoch hash snapshot members).read =
      some ⟨(List.range snapshot.committee.length).map
        (s.write X epoch hash snapshot members).entryAt, snapshot.vrfMaterialVersion,
        (s.write X epoch hash snapshot members).vrfBytes, snapshot.vrfPublicPolynomialHash⟩ := rfl
  rw [hread, hcommittee, vrfBytes_write]

end SnapshotSlots

/-! ### Histories -/

def snapshotKey (X : Externals) (epoch : Nat) (snapshot : CommitteeSnapshot) : B256 :=
  (snapshotIdentity X epoch snapshot).2

/-- What the key hashes of a snapshot: all but the polynomial hash. -/
def CommitteeSnapshot.hashed (s : CommitteeSnapshot) : List CommitteeEntry × Nat × List UInt8 :=
  (s.committee, s.vrfMaterialVersion, s.vrfGroupPublicKeyBytes)

/-- The keys of some snapshots at some epochs are not zero and tell epoch and content apart. -/
structure KeysDetermine (X : Externals) (epochs : List Nat) (snapshots : List CommitteeSnapshot) :
    Prop where
  ne_zero : ∀ e ∈ epochs, ∀ s ∈ snapshots, snapshotKey X e s ≠ 0
  injective : ∀ e ∈ epochs, ∀ s ∈ snapshots, ∀ e' ∈ epochs, ∀ s' ∈ snapshots,
    snapshotKey X e s = snapshotKey X e' s' → e = e' ∧ s.hashed = s'.hashed

/-- A sequence of successful writes. The rest of the contract's storage, and so the registered
OCOMP keys, may be any at each of them. -/
inductive Written (X : Externals) : List (Nat × CommitteeSnapshot) → SnapshotStore → Prop
  | nil : Written X [] ⟨fun _ => .empty, fun _ => 0⟩
  | write {history : List (Nat × CommitteeSnapshot)} {epoch : Nat} {snapshot : CommitteeSnapshot}
      {vs vs' : Store} {r : B256 × B256} (hprev : Written X history vs.snapshots)
      (hok : Ok (writeCommitteeSnapshot X epoch snapshot) vs r vs') :
      Written X (history ++ [(epoch, snapshot)]) vs'.snapshots

/-- The last write whose epoch is in a residue class. -/
def lastIn (history : List (Nat × CommitteeSnapshot)) (i : Nat) :
    Option (Nat × CommitteeSnapshot) :=
  (history.filter fun p => p.1 % committeeSnapshotRetainEpochs = i).getLast?

theorem lastIn_append_self (history : List (Nat × CommitteeSnapshot)) (e : Nat)
    (s : CommitteeSnapshot) :
    lastIn (history ++ [(e, s)]) (e % committeeSnapshotRetainEpochs) = some (e, s) := by
  simp [lastIn, filter_append]

theorem lastIn_append_of_ne (history : List (Nat × CommitteeSnapshot)) {e i : Nat}
    (s : CommitteeSnapshot) (h : e % committeeSnapshotRetainEpochs ≠ i) :
    lastIn (history ++ [(e, s)]) i = lastIn history i := by
  simp [lastIn, filter_append, h]

variable {s : CommitteeSnapshot} {history : List (Nat × CommitteeSnapshot)}

theorem mem_of_lastIn {i e : Nat} (h : lastIn history i = some (e, s)) :
    (e, s) ∈ history ∧ e % committeeSnapshotRetainEpochs = i := by
  have hmem := mem_of_getLast? h
  simpa using hmem

/-! ### The ring -/

/-- The record written for an epoch: the slots hold the snapshot and nothing else. -/
def HoldsRecord (X : Externals) (slots : SnapshotSlots) (e : Nat) (s : CommitteeSnapshot) : Prop :=
  ∃ members, slots = SnapshotSlots.empty.write X e (committeeSetHashV2 X e s) s members

/-- The store after a history of writes. -/
structure Ring (X : Externals) (history : List (Nat × CommitteeSnapshot)) (store : SnapshotStore) :
    Prop where
  /-- The ring holds the key of the last write of each class. -/
  ring : ∀ i, store.keyRing i = ((lastIn history i).map fun p => snapshotKey X p.1 p.2).getD 0
  /-- That record is stored. -/
  live : ∀ i e s, lastIn history i = some (e, s) →
    HoldsRecord X (store.snapshot (snapshotKey X e s)) e s
  /-- Nothing else is. -/
  empty : ∀ k, (∀ i e s, lastIn history i = some (e, s) → snapshotKey X e s ≠ k) →
    store.snapshot k = .empty

variable {slots : SnapshotSlots} {e : Nat}

theorem HoldsRecord.existsFlag (h : HoldsRecord X slots e s) : slots.existsFlag = true := by
  obtain ⟨members, rfl⟩ := h
  rfl

theorem HoldsRecord.read (h : HoldsRecord X slots e s) : slots.read = some s := by
  obtain ⟨members, rfl⟩ := h
  exact SnapshotSlots.read_write ..

theorem HoldsRecord.clear (h : HoldsRecord X slots e s) : slots.clear = .empty := by
  obtain ⟨members, rfl⟩ := h
  exact SnapshotSlots.clear_write ..

variable {history : List (Nat × CommitteeSnapshot)} {store : SnapshotStore}

/-- A stored record is the last one of its class. -/
theorem Ring.exists_live (h : Ring X history store) {k : B256}
    (hk : (store.snapshot k).existsFlag = true) :
    ∃ i e s, lastIn history i = some (e, s) ∧ snapshotKey X e s = k := by
  by_contra hnone
  rw [h.empty k fun i e s hlast hkey => hnone ⟨i, e, s, hlast, hkey⟩] at hk
  cases hk

variable {r : B256 × B256}

/-- The outcome of a successful write: a replay of what is stored, or a replacement. -/
theorem writeCommitteeSnapshot_cases {epoch : Nat} {snapshot : CommitteeSnapshot} {vs vs' : Store}
    (h : Ok (writeCommitteeSnapshot X epoch snapshot) vs r vs') :
    ((vs.snapshots.snapshot (snapshotKey X epoch snapshot)).existsFlag = true ∧
      (vs.snapshots.snapshot (snapshotKey X epoch snapshot)).read = some snapshot ∧ vs' = vs) ∨
    ((vs.snapshots.snapshot (snapshotKey X epoch snapshot)).existsFlag = false ∧
      ∃ members, vs'.snapshots = vs.snapshots.replace X epoch (committeeSetHashV2 X epoch snapshot)
        (snapshotKey X epoch snapshot) snapshot members) := by
  simp only [writeCommitteeSnapshot, rules, ok_ite] at h
  obtain ⟨members, -, -, ⟨hpresent, hreplay, -, rfl⟩ | ⟨habsent, -, rfl⟩⟩ := h
  · refine .inl ⟨hpresent, ?_, rfl⟩
    simp only [checkReplay, laws, not_or, not_not] at hreplay
    obtain ⟨stored, hread, -, -, -, -, hsame, -⟩ := hreplay
    exact hsame ▸ hread
  · exact .inr ⟨Bool.eq_false_of_not_eq_true habsent, members, rfl⟩

theorem Ring.of_lastIn {history' : List (Nat × CommitteeSnapshot)} (h : Ring X history store)
    (hlast : ∀ i, lastIn history' i = lastIn history i) : Ring X history' store := by
  refine ⟨fun i => ?_, fun i e s hi => ?_, fun k hk => ?_⟩
  · rw [hlast]
    exact h.ring i
  · rw [hlast] at hi
    exact h.live i e s hi
  · exact h.empty k fun i e s hi => hk i e s ((hlast i).trans hi)

theorem KeysDetermine.mono {epochs epochs' : List Nat} {snapshots snapshots' : List CommitteeSnapshot}
    (h : KeysDetermine X epochs snapshots) (he : epochs' ⊆ epochs) (hs : snapshots' ⊆ snapshots) :
    KeysDetermine X epochs' snapshots' :=
  ⟨fun e he' s hs' => h.ne_zero e (he he') s (hs hs'),
    fun e he₁ s hs₁ e' he₂ s' hs₂ => h.injective e (he he₁) s (hs hs₁) e' (he he₂) s' (hs hs₂)⟩

/-- Two writes with one key are of one epoch and one content. -/
theorem KeysDetermine.of_mem
    (h : KeysDetermine X (history.map (·.1)) (history.map (·.2))) {e e' : Nat}
    {s s' : CommitteeSnapshot} (hmem : (e, s) ∈ history) (hmem' : (e', s') ∈ history)
    (hkey : snapshotKey X e s = snapshotKey X e' s') : e = e' ∧ s.hashed = s'.hashed :=
  h.injective e (mem_map_of_mem hmem) s (mem_map_of_mem hmem) e'
    (mem_map_of_mem hmem') s' (mem_map_of_mem hmem') hkey

/-- Replacing a record keeps the ring. -/
theorem Ring.replace (h : Ring X history store)
    (hkeys : KeysDetermine X ((history ++ [(e, s)]).map (·.1)) ((history ++ [(e, s)]).map (·.2)))
    (habsent : (store.snapshot (snapshotKey X e s)).existsFlag = false)
    (members : List OcompSnapshotMember) :
    Ring X (history ++ [(e, s)]) (store.replace X e (committeeSetHashV2 X e s)
      (snapshotKey X e s) s members) := by
  have hmem : (e, s) ∈ history ++ [(e, s)] := by simp
  -- The new key is not stored yet.
  have hnew : ∀ j e' s', lastIn history j = some (e', s') →
      snapshotKey X e' s' ≠ snapshotKey X e s := by
    intro j e' s' hj hkey
    rw [← hkey, (h.live j e' s' hj).existsFlag] at habsent
    cases habsent
  -- What the eviction clears is the last record of the class.
  have hcleared : ∀ k, k ≠ snapshotKey X e s →
      (store.replace X e (committeeSetHashV2 X e s) (snapshotKey X e s) s members).snapshot k =
        if (lastIn history (e % committeeSnapshotRetainEpochs)).map
            (fun p => snapshotKey X p.1 p.2) = some k then .empty else store.snapshot k := by
    intro k hk
    simp only [SnapshotStore.replace, update_of_ne hk, h.ring]
    cases hlast : lastIn history (e % committeeSnapshotRetainEpochs) with
    | none => simp
    | some p =>
      obtain ⟨e', s'⟩ := p
      have hmem' := (mem_of_lastIn hlast).1
      have hne : snapshotKey X e' s' ≠ 0 :=
        hkeys.ne_zero e' (mem_map_of_mem (mem_append_left _ hmem')) s'
          (mem_map_of_mem (mem_append_left _ hmem'))
      simp only [Option.map_some, Option.getD_some, Option.some.injEq]
      rw [if_pos ⟨hne, hnew _ e' s' hlast⟩, update_apply]
      by_cases hkk : k = snapshotKey X e' s'
      · rw [if_pos hkk, if_pos hkk.symm]
        exact (h.live _ e' s' hlast).clear
      · rw [if_neg hkk, if_neg (Ne.symm hkk)]
  have hstored : (store.replace X e (committeeSetHashV2 X e s) (snapshotKey X e s) s
      members).snapshot (snapshotKey X e s) =
        SnapshotSlots.empty.write X e (committeeSetHashV2 X e s) s members := by
    have hempty : store.snapshot (snapshotKey X e s) = .empty := h.empty _ hnew
    simp only [SnapshotStore.replace, update_self]
    split
    · rename_i hevict
      rw [update_of_ne (Ne.symm hevict.2), hempty]
    · rw [hempty]
  refine ⟨fun j => ?_, fun j e' s' hj => ?_, fun k hk => ?_⟩
  · simp only [SnapshotStore.replace, update_apply]
    split
    · rename_i hj
      rw [hj, lastIn_append_self]
      rfl
    · rename_i hj
      rw [lastIn_append_of_ne _ _ (Ne.symm hj)]
      exact h.ring j
  · by_cases hclass : e % committeeSnapshotRetainEpochs = j
    · subst hclass
      rw [lastIn_append_self] at hj
      cases hj
      rw [hstored]
      exact ⟨members, rfl⟩
    · rw [lastIn_append_of_ne _ _ hclass] at hj
      rw [hcleared _ (hnew j e' s' hj), if_neg]
      · exact h.live j e' s' hj
      -- A record of another class has another epoch, hence another key.
      · intro heq
        obtain ⟨⟨e₁, s₁⟩, hlast, hkey⟩ := Option.map_eq_some_iff.mp heq
        obtain ⟨hmem₁, hclass₁⟩ := mem_of_lastIn hlast
        obtain ⟨hmem', hclass'⟩ := mem_of_lastIn hj
        obtain ⟨rfl, -⟩ := hkeys.of_mem (mem_append_left _ hmem₁) (mem_append_left _ hmem') hkey
        exact hclass (hclass₁.symm.trans hclass')
  · have hkne : k ≠ snapshotKey X e s := fun heq => hk _ e s (lastIn_append_self ..) heq.symm
    rw [hcleared k hkne]
    split
    · rfl
    · rename_i hnot
      refine h.empty k fun j e' s' hj hkey => ?_
      by_cases hclass : e % committeeSnapshotRetainEpochs = j
      · subst hclass
        rw [hj] at hnot
        exact hnot (congrArg some hkey)
      · exact hk j e' s' ((lastIn_append_of_ne _ _ hclass).trans hj) hkey

/-- A successful write keeps the ring. -/
theorem Ring.write {vs vs' : Store} (h : Ring X history vs.snapshots)
    (hkeys : KeysDetermine X ((history ++ [(e, s)]).map (·.1)) ((history ++ [(e, s)]).map (·.2)))
    (hok : Ok (writeCommitteeSnapshot X e s) vs r vs') :
    Ring X (history ++ [(e, s)]) vs'.snapshots := by
  obtain ⟨hpresent, hread, rfl⟩ | ⟨habsent, members, hstore⟩ := writeCommitteeSnapshot_cases hok
  · obtain ⟨i, e', s', hlast, hkey⟩ := h.exists_live hpresent
    obtain ⟨hmem, hclass⟩ := mem_of_lastIn hlast
    obtain ⟨rfl, -⟩ := hkeys.of_mem (mem_append_left _ hmem)
      (mem_append_right history (mem_singleton_self (e, s))) hkey
    -- A replay matches the stored record in full, the polynomial hash included.
    have hs : s' = s := by
      have hlive := (h.live i e' s' hlast).read
      rw [hkey, hread] at hlive
      exact (Option.some.inj hlive).symm
    subst hs
    refine h.of_lastIn fun j => ?_
    by_cases hj : e' % committeeSnapshotRetainEpochs = j
    · rw [← hj, lastIn_append_self, hclass, hlast]
    · exact lastIn_append_of_ne _ _ hj
  · rw [hstore]
    exact h.replace hkeys habsent members

/-- After every sequence of successful writes the store is a ring. -/
theorem ring_of_written (hwritten : Written X history store)
    (hkeys : KeysDetermine X (history.map (·.1)) (history.map (·.2))) : Ring X history store := by
  induction hwritten with
  | nil => exact ⟨fun _ => rfl, by rintro _ _ _ ⟨⟩, fun _ _ => rfl⟩
  | write hprev hok ih =>
    refine Ring.write (ih (hkeys.mono ?_ ?_)) hkeys hok <;> simp

/-! ### What readers see -/

/-- The last snapshot written for an epoch, unless another epoch of its class was written later. -/
def lastWritten (history : List (Nat × CommitteeSnapshot)) (e : Nat) : Option CommitteeSnapshot :=
  (lastIn history (e % committeeSnapshotRetainEpochs)).bind fun p =>
    if p.1 = e then some p.2 else none

/-- What the store says about a snapshot and an epoch. -/
structure SnapshotReads (X : Externals) (history : List (Nat × CommitteeSnapshot))
    (store : SnapshotStore) (e : Nat) (s : CommitteeSnapshot) : Prop where
  /-- The record of a key is there exactly while the ring points to it. -/
  exists_iff : (store.snapshot (snapshotKey X e s)).existsFlag = true ↔
    store.keyRing (e % committeeSnapshotRetainEpochs) = snapshotKey X e s
  /-- The reader returns the last snapshot of the epoch and nothing else. -/
  read : readCommitteeSnapshotForEpoch X store e = lastWritten history e
  /-- At most eight keys have any non-zero slot. -/
  bounded : ∀ k, store.snapshot k ≠ .empty →
    k ∈ (List.range committeeSnapshotRetainEpochs).map store.keyRing

theorem Ring.reads (h : Ring X history store)
    (hkeys : KeysDetermine X (e :: history.map (·.1)) (s :: history.map (·.2))) :
    SnapshotReads X history store e s := by
  have hmem : ∀ {i e' s'}, lastIn history i = some (e', s') →
      e' ∈ e :: history.map (·.1) ∧ s' ∈ s :: history.map (·.2) := by
    intro i e' s' hlast
    have hmem := (mem_of_lastIn hlast).1
    exact ⟨mem_cons_of_mem _ (mem_map_of_mem hmem), mem_cons_of_mem _ (mem_map_of_mem hmem)⟩
  refine ⟨⟨fun hexists => ?_, fun hring => ?_⟩, ?_, fun k hk => ?_⟩
  · obtain ⟨i, e', s', hlast, hkey⟩ := h.exists_live hexists
    obtain ⟨he', hs'⟩ := hmem hlast
    obtain ⟨rfl, -⟩ := hkeys.injective e' he' s' hs' e mem_cons_self s mem_cons_self hkey
    rw [h.ring, (mem_of_lastIn hlast).2, hlast]
    exact hkey
  · rw [h.ring] at hring
    cases hlast : lastIn history (e % committeeSnapshotRetainEpochs) with
    | none =>
      rw [hlast] at hring
      exact absurd hring.symm (hkeys.ne_zero e mem_cons_self s mem_cons_self)
    | some p =>
      rw [hlast] at hring
      have hlive := (h.live _ p.1 p.2 hlast).existsFlag
      rw [show snapshotKey X p.1 p.2 = snapshotKey X e s from hring] at hlive
      exact hlive
  · unfold readCommitteeSnapshotForEpoch lastWritten
    simp only [h.ring]
    cases hlast : lastIn history (e % committeeSnapshotRetainEpochs) with
    | none => rfl
    | some p =>
      obtain ⟨e', s'⟩ := p
      obtain ⟨he', hs'⟩ := hmem hlast
      have hne := hkeys.ne_zero e' he' s' hs'
      have hread := (h.live _ e' s' hlast).read
      simp only [Option.map_some, Option.getD_some, Option.bind_some, if_neg hne, hread]
      -- The reader recomputes the key for the epoch it was asked for.
      by_cases hee : e' = e
      · subst hee
        have hkey : ¬ snapshotKey X e' s' ≠ (snapshotIdentity X e' s').2 := not_not.mpr rfl
        rw [if_neg hkey, if_pos rfl]
      · rw [if_pos, if_neg hee]
        intro hkey
        exact hee (hkeys.injective e' he' s' hs' e mem_cons_self s' hs' hkey).1
  · by_contra hnone
    refine hk (h.empty k fun i e' s' hlast hkey => hnone ?_)
    rw [mem_map]
    refine ⟨i, ?_, ?_⟩
    · rw [mem_range, ← (mem_of_lastIn hlast).2]
      exact mod_lt _ (by decide)
    · rw [h.ring, hlast]
      exact hkey

/-- After every sequence of successful writes, for every epoch and snapshot whose keys do not
collide with those of the writes, the stored records are those the ring points to, the reader
returns exactly the last snapshot of an epoch, and at most eight records have storage. -/
theorem readSnapshot_of_written (hwritten : Written X history store) (e : Nat)
    (s : CommitteeSnapshot)
    (hkeys : KeysDetermine X (e :: history.map (·.1)) (s :: history.map (·.2))) :
    SnapshotReads X history store e s :=
  (ring_of_written hwritten (hkeys.mono (subset_cons_self ..) (subset_cons_self ..))).reads hkeys

/-- A hash that adds the bytes. -/
def sumExternals : Externals :=
  { sampleExternals with
    keccak256 := fun bytes => BitVec.ofNat 256 (bytes.map (·.toNat)).sum }

/-- A contract in which every address has an OCOMP registration. -/
def registeredStore : Store :=
  { Store.empty 9 0 0 0 with
    ocomp := { (Store.empty 9 0 0 0).ocomp with registration := fun _ => [1] } }

/-- A committee of one with a VRF key of two chunks. -/
def longSnapshot : CommitteeSnapshot := ⟨[⟨alice.address, 7⟩], 1, List.replicate 40 3, 5⟩

/-- An empty committee with a VRF key of one byte. -/
def shortSnapshot : CommitteeSnapshot := ⟨[], 1, [9], 6⟩

/-- Epoch 9 evicts epoch 1, whose longer record is gone. -/
theorem readSnapshot_of_eviction :
    ∃ store, Written sumExternals [(1, longSnapshot), (9, shortSnapshot)] store ∧
      SnapshotReads sumExternals [(1, longSnapshot), (9, shortSnapshot)] store 1 longSnapshot := by
  obtain ⟨_, hfirst⟩ := ok_of_isOk (m := writeCommitteeSnapshot sumExternals 1 longSnapshot)
    (s := registeredStore) (by decide +kernel)
  obtain ⟨_, hsecond⟩ := ok_of_isOk (m := writeCommitteeSnapshot sumExternals 9 shortSnapshot)
    (s := ((writeCommitteeSnapshot sumExternals 1 longSnapshot).run registeredStore).2)
    (by decide +kernel)
  have hone : Written sumExternals ([] ++ [(1, longSnapshot)]) _ := .write .nil hfirst
  have hwritten : Written sumExternals [(1, longSnapshot), (9, shortSnapshot)] _ :=
    .write hone hsecond
  exact ⟨_, hwritten, readSnapshot_of_written hwritten 1 longSnapshot
    ⟨by decide +kernel, by decide +kernel⟩⟩

end ValidatorSet

end Rudis
