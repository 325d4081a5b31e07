import Mathlib.Tactic.Ring
import Rudis.Spec.SlashIndicator

/-!
# `Rudis.Proofs.SlashIndicator.Votes`: what a valid evidence signature says

The votes a Simplex validator signs, as data (`Vote`), with the bytes it signs for each
(`Vote.message`). `readLeb128_writeLeb128` reads a varint back from any data it starts, so the
round that evidence is filed under is the round of the vote (`round_of_payload`).
`signedPayload_inj` separates the domains: two signed payloads of vote namespaces agree only if
kind and payload agree. A history lists the votes each key has signed; where signatures cannot be
forged, a verified evidence block is one of these votes (`vote_of_verify`).
-/

namespace Rudis.SlashIndicator

open List
open ValidatorSet (ConsensusPubkey asciiBytes)

/-! ### Varints -/

/-- Adding the next seven bits of a varint is an addition as long as the value is a `u64`. -/
theorem or_shiftLeft {r shift value : Nat} (hr : r < 2 ^ shift)
    (hfits : r + value * 2 ^ shift < 2 ^ 64) (b : Nat) (hb : b ≤ value) :
    r ||| (b <<< shift) % 2 ^ 64 = r + b * 2 ^ shift := by
  have hle : b * 2 ^ shift ≤ value * 2 ^ shift := Nat.mul_le_mul_right _ hb
  rw [Nat.shiftLeft_eq, mod_eq_of_lt (by omega), Nat.or_comm, mul_comm,
    ← Nat.two_pow_add_eq_or_of_lt hr, add_comm]

/-- The reader consumes exactly what the writer wrote, whatever follows it. -/
theorem readLeb128Loop_writeLeb128Loop (rest : List UInt8) :
    ∀ {fuel value r shift : Nat}, 0 < fuel → value < 2 ^ (7 * fuel) → r < 2 ^ shift →
      r + value * 2 ^ shift < 2 ^ 64 →
      readLeb128Loop r shift (writeLeb128Loop fuel value ++ rest) =
        .ok (r + value * 2 ^ shift, rest) := by
  intro fuel
  -- the shift grows with the bytes already read, so it is generalised over the fuel
  induction fuel with
  | zero =>
    intro value r shift hpos
    exact absurd hpos (lt_irrefl 0)
  | succ fuel ih =>
    intro value r shift _ hvalue hr hfits
    rw [writeLeb128Loop]
    by_cases hlast : value / 128 = 0
    · have hsmall : value < 128 := by omega
      rw [if_pos hlast]
      have hbyte : (UInt8.ofNat (value % 128)).toNat = value := by
        rw [UInt8.toNat_ofNat']
        omega
      show readLeb128Loop r shift (UInt8.ofNat (value % 128) :: rest) = _
      rw [readLeb128Loop, hbyte, if_pos hsmall,
        or_shiftLeft hr hfits _ (mod_le value 128), mod_eq_of_lt hsmall]
    · rw [if_neg hlast]
      have hbyte : (UInt8.ofNat (value % 128 + 128)).toNat = value % 128 + 128 := by
        rw [UInt8.toNat_ofNat']
        omega
      have hmod : (value % 128 + 128) % 128 = value % 128 := by omega
      have hsplit : value % 128 + 128 * (value / 128) = value := Nat.mod_add_div value 128
      -- a value of more than seven bits leaves room for another byte
      have hroom : ¬ shift + 7 ≥ 64 := by
        intro hge
        have h128 : 128 * 2 ^ shift ≤ value * 2 ^ shift := Nat.mul_le_mul_right _ (by omega)
        have hpow : 2 ^ 64 ≤ 2 ^ (shift + 7) := Nat.pow_le_pow_right (by omega) hge
        rw [pow_add] at hpow
        omega
      show readLeb128Loop r shift
        (UInt8.ofNat (value % 128 + 128) :: (writeLeb128Loop fuel (value / 128) ++ rest)) = _
      rw [readLeb128Loop, hbyte, hmod, if_neg (by omega), if_neg hroom,
        or_shiftLeft hr hfits _ (mod_le value 128)]
      have hpow : 2 ^ (shift + 7) = 2 ^ shift * 128 := by rw [Nat.pow_add]
      have htotal : r + value % 128 * 2 ^ shift + value / 128 * 2 ^ (shift + 7) =
          r + value * 2 ^ shift := by
        rw [hpow]
        conv_rhs => rw [← hsplit]
        ring
      have hlow : value % 128 * 2 ^ shift ≤ 127 * 2 ^ shift := Nat.mul_le_mul_right _ (by omega)
      rw [ih (Nat.pos_of_ne_zero _) _ _ (by rw [htotal]; exact hfits), htotal]
      · intro hzero
        subst hzero
        have h7 : value < 2 ^ 7 := hvalue
        omega
      · rw [show 7 * (fuel + 1) = 7 * fuel + 7 by ring, pow_add] at hvalue
        exact Nat.div_lt_of_lt_mul (by omega)
      · omega

/-- A written `u64` reads back. -/
theorem readLeb128_writeLeb128 {value : Nat} (hvalue : value < 2 ^ 64) (rest : List UInt8) :
    readLeb128 (writeLeb128 value ++ rest) = .ok (value, rest) := by
  have h : readLeb128Loop 0 0 (writeLeb128Loop 10 value ++ rest) = .ok (0 + value * 2 ^ 0, rest) :=
    readLeb128Loop_writeLeb128Loop rest (by omega) (by omega) (by omega) (by omega)
  rw [pow_zero, mul_one, zero_add] at h
  exact h

/-! ### Votes -/

/-- A round of a consensus epoch. -/
@[ext]
structure Round where
  epoch : Nat
  view : Nat
  epoch_lt : epoch < 2 ^ 64
  view_lt : view < 2 ^ 64

structure Proposal where
  round : Round
  parent : Nat
  digest : B256

inductive VoteKind where
  | notarize
  | nullify
  | finalize
  deriving DecidableEq

/-- A vote of the Simplex protocol. -/
inductive Vote where
  | notarize (proposal : Proposal)
  | nullify (round : Round)
  | finalize (proposal : Proposal)

variable (X : Externals) (V : VoteExternals)

/-- The suffix of a kind's namespace. -/
def VoteKind.suffix : VoteKind → String
  | notarize => "_NOTARIZE"
  | nullify => "_NULLIFY"
  | finalize => "_FINALIZE"

def VoteKind.ns (kind : VoteKind) (committee : EvidenceCommittee) : List UInt8 :=
  voteSubNamespace X V kind.suffix committee

namespace Vote

def kind : Vote → VoteKind
  | notarize _ => .notarize
  | nullify _ => .nullify
  | finalize _ => .finalize

def round : Vote → Round
  | notarize p | finalize p => p.round
  | nullify r => r

/-- What follows the round in the payload: parent and digest of a proposal. -/
def tail : Vote → List UInt8
  | notarize p | finalize p => writeLeb128 p.parent ++ beBytes 32 p.digest.toNat
  | nullify _ => []

def payload (vote : Vote) : List UInt8 :=
  writeLeb128 vote.round.epoch ++ (writeLeb128 vote.round.view ++ vote.tail)

/-- The bytes a vote is signed as. -/
def message (vote : Vote) (committee : EvidenceCommittee) : List UInt8 :=
  buildSignedPayloadWithNs (vote.kind.ns X V committee) vote.payload

end Vote

variable {ev : EvidenceBlock}

/-- Evidence that carries a vote's payload is filed under the vote's round. -/
theorem round_of_payload {vote : Vote} (h : vote.payload = ev.proposalBytes) :
    ev.round = .ok (vote.round.epoch, vote.round.view) := by
  rw [EvidenceBlock.round, ← h, Vote.payload, readLeb128_writeLeb128 vote.round.epoch_lt]
  show (do
    let view ← readLeb128 (writeLeb128 vote.round.view ++ vote.tail)
    pure (vote.round.epoch, view.1)) = _
  rw [readLeb128_writeLeb128 vote.round.view_lt]
  rfl

/-! ### Domain separation -/

variable {X V}

theorem beBytes_length (n x : Nat) : (beBytes n x).length = n := by simp [beBytes]

/-- A namespace is short enough for a one-byte length. -/
theorem ns_length_lt (kind : VoteKind) (committee : EvidenceCommittee) :
    (kind.ns X V committee).length < 2 ^ 64 := by
  have hsuffix : (asciiBytes kind.suffix).length ≤ 9 := by cases kind <;> decide
  have hbase : (asciiBytes "outbe").length = 5 := by decide
  simp only [VoteKind.ns, voteSubNamespace, outbeAppNamespace, length_append, beBytes_length, hbase]
  omega

variable {k k' kind : VoteKind}

theorem suffix_inj (h : asciiBytes k.suffix = asciiBytes k'.suffix) : k = k' := by
  revert h
  cases k <;> cases k' <;> decide

variable {c c' committee : EvidenceCommittee}

/-- Two signed payloads of vote namespaces agree only if kind and payload agree. -/
theorem signedPayload_inj {p p' : List UInt8}
    (h : buildSignedPayloadWithNs (k.ns X V c) p = buildSignedPayloadWithNs (k'.ns X V c') p') :
    k = k' ∧ p = p' := by
  -- the length prefix delimits the namespace
  have hread := readLeb128_writeLeb128 (ns_length_lt (X := X) (V := V) k c) (k.ns X V c ++ p)
  have hread' := readLeb128_writeLeb128 (ns_length_lt (X := X) (V := V) k' c') (k'.ns X V c' ++ p')
  rw [buildSignedPayloadWithNs, buildSignedPayloadWithNs, append_assoc, append_assoc] at h
  rw [h, hread'] at hread
  simp only [Except.ok.injEq, Prod.mk.injEq] at hread
  obtain ⟨hns, hp⟩ := append_inj hread.2 hread.1
  refine ⟨?_, hp.symm⟩
  rw [VoteKind.ns, VoteKind.ns, voteSubNamespace, voteSubNamespace, append_assoc,
    append_assoc] at hns
  have hsuffix := append_inj_left' (append_cancel_left hns) (by rw [beBytes_length, beBytes_length])
  exact (suffix_inj hsuffix).symm

/-! ### Signing histories -/

/-- Which votes each key has signed, and for which committee. -/
abbrev History := ConsensusPubkey → EvidenceCommittee → Vote → Prop

variable (X V) in
/-- No signature of the key verifies on a vote payload unless the key has signed it as a vote. -/
def Unforgeable (hist : History) (pk : ConsensusPubkey) : Prop :=
  ∀ (sig : BitVec 768) (kind : VoteKind) (committee : EvidenceCommittee) (payload : List UInt8),
    V.blsVerify pk sig (buildSignedPayloadWithNs (kind.ns X V committee) payload) = true →
    ∃ (committee' : EvidenceCommittee) (vote : Vote), hist pk committee' vote ∧
      vote.message X V committee' = buildSignedPayloadWithNs (kind.ns X V committee) payload

/-- A verified block is a vote of its kind that the key has signed. -/
theorem vote_of_verify {hist : History} {u : Unit} (hU : Unforgeable X V hist ev.pubkey)
    (h : ev.verifyBlsSignature X V (kind.ns X V committee) = .ok u) :
    ∃ committee' vote, hist ev.pubkey committee' vote ∧ vote.kind = kind ∧
      vote.payload = ev.proposalBytes := by
  obtain ⟨-, -, hverify⟩ := by simpa [EvidenceBlock.verifyBlsSignature] using h
  obtain ⟨committee', vote, hsigned, hmessage⟩ := hU _ _ _ _ hverify
  obtain ⟨hkind, hpayload⟩ := signedPayload_inj hmessage
  exact ⟨committee', vote, hsigned, hkind, hpayload⟩

end Rudis.SlashIndicator
