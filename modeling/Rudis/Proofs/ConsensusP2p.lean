import Rudis.Spec.ConsensusP2p

/-!
# `Rudis.Proofs.ConsensusP2p`: the P2P address codec is canonical

An accepted payload is the encoding of the address it decodes to (`encodeV1_of_decodeV1`): the
reader has no slack, so an address read from storage and written back leaves the same bytes.
Each reader has one lemma, that the bytes it consumed are the encoding of what it returned.
-/

namespace Rudis

open Tx

variable {s s' : List UInt8}

theorem readU8_ok {b : UInt8} (h : Ok Cursor.readU8 s b s') : s = b :: s' := by
  cases s with
  | nil => simp [Ok, Tx.run, Cursor.readU8] at h
  | cons c rest =>
    simp only [Ok, Tx.run, Cursor.readU8, Prod.mk.injEq, Except.ok.injEq] at h
    rw [h.1, h.2]

variable {n version : Nat}

theorem readExact_ok {v : Vector UInt8 n}
    (h : Ok (Cursor.readExact n) s v s') : s = v.toList ++ s' := by
  simp only [Ok, Tx.run, Cursor.readExact] at h
  split at h
  · simp only [Prod.mk.injEq, Except.ok.injEq] at h
    rw [← h.1, ← h.2]
    exact (List.take_append_drop n s).symm
  · simp at h

/-- Two bytes read as a big-endian number are that number's encoding. -/
theorem beBytes_two (a b : UInt8) : beBytes 2 (a.toNat * 256 + b.toNat) = [a, b] := by
  have ha := a.toNat_lt
  have hb := b.toNat_lt
  have h₁ : (a.toNat * 256 + b.toNat) / 256 ^ (2 - 1 - 0) = a.toNat := by omega
  have h₂ : UInt8.ofNat ((a.toNat * 256 + b.toNat) / 256 ^ (2 - 1 - 1)) = b := by
    apply UInt8.toNat_inj.mp
    rw [UInt8.toNat_ofNat']
    omega
  show [UInt8.ofNat _, UInt8.ofNat _] = [a, b]
  rw [h₁, h₂, UInt8.ofNat_toNat]

theorem readU16_ok (h : Ok Cursor.readU16 s n s') : s = beBytes 2 n ++ s' ∧ n < 2 ^ 16 := by
  simp only [Cursor.readU16, rules] at h
  obtain ⟨v, t, hv, rfl, rfl⟩ := h
  have hs := readExact_ok hv
  have hl : v.toList = [v[0], v[1]] := by
    apply List.ext_getElem
    · simp
    · intro i h₁ h₂
      rcases i with _ | _ | i
      · simp
      · simp
      · exact absurd h₂ (by simp)
  have h₀ := v[0].toNat_lt
  have h₁ := v[1].toNat_lt
  rw [beBytes_two, ← hl]
  refine ⟨hs, ?_⟩
  omega

theorem readPort_ok (h : Ok Cursor.readPort s n s') : s = beBytes 2 n ++ s' := by
  simp only [Cursor.readPort, rules] at h
  obtain ⟨p, t, hp, _, rfl, rfl⟩ := h
  exact (readU16_ok hp).1

theorem readSocket_ok {a : SocketAddr} (h : Ok Cursor.readSocket s a s') :
    s = encodeSocket a ++ s' := by
  simp only [Cursor.readSocket, rules] at h
  obtain ⟨kind, t, hkind, ip, t', hip, port, t'', hport, rfl, rfl⟩ := h
  rw [readU8_ok hkind]
  rcases ok_ite.mp hip with ⟨rfl, h4⟩ | ⟨_, h6⟩
  · obtain ⟨v, hv, rfl⟩ := ok_map.mp h4
    rw [readExact_ok hv, readPort_ok hport]
    simp [encodeSocket]
  · rcases ok_ite.mp h6 with ⟨rfl, h6⟩ | ⟨_, herr⟩
    · obtain ⟨v, hv, rfl⟩ := ok_map.mp h6
      rw [readExact_ok hv, readPort_ok hport]
      simp [encodeSocket]
    · exact absurd herr ok_fail

theorem readIngress_ok {i : P2pIngress} (h : Ok Cursor.readIngress s i s') :
    s = encodeIngress i ++ s' := by
  obtain ⟨kind, t, hkind, h⟩ := ok_bind.mp h
  rw [readU8_ok hkind]
  rcases ok_ite.mp h with ⟨rfl, hsocket⟩ | ⟨_, h⟩
  · obtain ⟨a, ha, rfl⟩ := ok_map.mp hsocket
    rw [readSocket_ok ha]
    simp [encodeIngress]
  · rcases ok_ite.mp h with ⟨rfl, hdns⟩ | ⟨_, herr⟩
    · simp only [rules] at hdns
      obtain ⟨len, t₁, hlen, host, t₂, hhost, _, port, t₄, hport, rfl, rfl⟩ := hdns
      obtain ⟨hlen, hlt⟩ := readU16_ok hlen
      rw [hlen, readExact_ok hhost, readPort_ok hport]
      have hmod : host.toList.length % 2 ^ 16 = len := by
        rw [Vector.length_toList]
        exact mod_eq_of_lt hlt
      rw [encodeIngress, hmod]
      simp
    · exact absurd herr ok_fail

theorem readAddress_ok {a : P2pAddress} (h : Ok Cursor.readAddress s a s') :
    s = encodeV1 a ++ s' := by
  obtain ⟨kind, t, hkind, h⟩ := ok_bind.mp h
  rw [readU8_ok hkind]
  rcases ok_ite.mp h with ⟨rfl, hone⟩ | ⟨_, h⟩
  · obtain ⟨b, hb, rfl⟩ := ok_map.mp hone
    rw [readSocket_ok hb]
    simp [encodeV1]
  · rcases ok_ite.mp h with ⟨rfl, htwo⟩ | ⟨_, herr⟩
    · simp only [rules] at htwo
      obtain ⟨i, t₁, hi, e, t₂, he, rfl, rfl⟩ := htwo
      rw [readIngress_ok hi, readSocket_ok he]
      simp [encodeV1]
    · exact absurd herr ok_fail

variable {payload : List UInt8}

/-- An accepted payload is the encoding of the address it decodes to. -/
theorem encodeV1_of_decodeV1 {a : P2pAddress}
    (h : decodeV1 payload = .ok a) : encodeV1 a = payload := by
  unfold decodeV1 at h
  split at h
  · cases h
  · split at h
    · cases h
    · rename_i b hb
      cases h
      simpa using (readAddress_ok hb).symm
    · cases h

theorem decodeVersioned_eq_ok {a : P2pAddress} :
    decodeVersioned version payload = .ok a ↔
      version = p2pAddressVersionV1 ∧ decodeV1 payload = .ok a := by
  unfold decodeVersioned
  split <;> simp_all

/-- No two payloads decode to one address. -/
theorem subsingleton_decodeV1 (a : P2pAddress) :
    {payload | decodeV1 payload = .ok a}.Subsingleton := by
  intro payload h payload' h'
  rw [← encodeV1_of_decodeV1 h, ← encodeV1_of_decodeV1 h']

theorem encodeV1_ne_nil (a : P2pAddress) : encodeV1 a ≠ [] := by
  cases a <;> simp [encodeV1]

end Rudis
