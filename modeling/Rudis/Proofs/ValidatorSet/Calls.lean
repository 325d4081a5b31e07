import Rudis.Proofs.ValidatorSet.Commit
import Rudis.Spec.ValidatorSet.Transitions

/-!
# `Rudis.Proofs.ValidatorSet.Calls`: what each lifecycle call commits

First the pure transitions: each keeps the P2P information, and its stake mirror holds either the
amount Staking handed in or what it held before. Then one inversion lemma per call: the call read
a lifecycle, computed the next one by its pure transition and committed it (`Commits`), or left
the store alone.
-/

namespace Rudis.ValidatorSet

open ValidatorLifecycle (of_payload p2p stake bondedStake)
open StateMachine
open Tx

/-! ### Pure transitions -/

/-- The transition keeps the P2P information and mirrors `bonded`. -/
def MirrorsStake (l next : ValidatorLifecycle) (bonded : Nat) : Prop :=
  next.p2p = l.p2p ∧ next.bondedStake = bonded

variable {l next : ValidatorLifecycle} {bonded minimum height : Nat} {setChange : Bool}

variable {stake : StakeProjection}

theorem withStake_ok (h : withStake l stake = .ok next) : MirrorsStake l next stake.bonded := by
  simp only [withStake, bind_eq_ok] at h
  obtain ⟨_, _, h⟩ := h
  cases l <;> cases h <;> exact ⟨rfl, rfl⟩

theorem map_withStake_ok (h : (·, false) <$> withStake l stake = .ok (next, setChange)) :
    MirrorsStake l next stake.bonded := by
  obtain ⟨_, hstake, he⟩ := map_eq_ok.mp h
  cases he
  exact withStake_ok hstake

/-- A transition between two payloads that replaces the stake and keeps the P2P information. -/
def SetsStake (x : Result Payload) (s : Payload) (stake : StakeProjection) : Prop :=
  ∀ p, x = .ok p → p.p2p = s.p2p ∧ p.stake = stake

namespace SetsStake

variable {s p : Payload}

theorem ok (hp2p : p.p2p = s.p2p) (hstake : p.stake = stake) : SetsStake (.ok p) s stake := by
  rintro _ ⟨⟩
  exact ⟨hp2p, hstake⟩

theorem bind {α : Type} {x : Result α} {f : α → Result Payload}
    (hf : ∀ a, SetsStake (f a) s stake) : SetsStake (x >>= f) s stake := by
  intro p h
  obtain ⟨a, -, h⟩ := bind_eq_ok.mp h
  exact hf a p h

end SetsStake

theorem setsStake_beginExit (s : Payload) (stake : StakeProjection) :
    SetsStake (beginExit s stake height) s stake := .bind fun _ => .bind fun _ => .ok rfl rfl

variable {b jailIt : Bool}

/-- The state built from such a payload mirrors the amount, as one that only takes the stake. -/
theorem SetsStake.mirrors {x : Result Payload} {s : Payload}
    {f : Payload → ValidatorLifecycle} {c : Prop} [Decidable c]
    (hl : l.payload = some s) (hf : ∀ p, (f p).payload = some p) (hx : SetsStake x s stake)
    (h : (if c then do let p ← x; pure (f p, b) else (·, false) <$> withStake l stake)
      = (.ok (next, setChange) : Result _)) : MirrorsStake l next stake.bonded := by
  split at h
  rotate_left
  · exact map_withStake_ok h
  simp only [laws] at h
  obtain ⟨p, hp, he⟩ := h
  cases he
  obtain ⟨hp2p, hstake⟩ := hx p hp
  obtain ⟨-, -, hl2p, -⟩ := of_payload hl
  obtain ⟨-, -, hf2p, hfstake, -⟩ := of_payload (hf p)
  exact ⟨by rw [hf2p, hl2p, hp2p], by rw [hfstake, hstake]⟩

theorem stakeIncreaseNext_ok (h : stakeIncreaseNext l bonded minimum = .ok (next, setChange)) :
    MirrorsStake l next bonded := by
  unfold stakeIncreaseNext at h
  cases l with
  | waitingForStake s =>
    refine SetsStake.mirrors rfl (fun _ => rfl) ?_ h
    exact .bind fun _ => .ok rfl rfl
  | waitingForReadiness s | joining s | active s | jailRetained s | jail s =>
    exact map_withStake_ok h
  | _ => cases h

theorem unstakeNext_ok {hint : Nat}
    (h : unstakeNext l bonded minimum hint height = .ok (next, setChange)) :
    MirrorsStake l next bonded := by
  unfold unstakeNext at h
  cases l with
  | absent | inactive s => cases h
  | waitingForStake s | exiting s | unbonding s => exact map_withStake_ok h
  | waitingForReadiness s | joining s | jailRetained s | jail s =>
    refine SetsStake.mirrors rfl (fun _ => rfl) ?_ h
    exact .bind fun _ => .ok rfl rfl
  | active s => exact SetsStake.mirrors rfl (fun _ => rfl) (setsStake_beginExit s _) h

theorem stakeSlashNext_ok {hint : Option Nat}
    (h : stakeSlashNext l bonded minimum hint height = .ok (next, setChange)) :
    MirrorsStake l next bonded := by
  unfold stakeSlashNext at h
  cases l with
  | absent | inactive s => cases h
  | waitingForReadiness s | joining s =>
    refine SetsStake.mirrors rfl (fun _ => rfl) ?_ h
    exact .bind fun _ => .ok rfl rfl
  | active s => exact SetsStake.mirrors rfl (fun _ => rfl) (setsStake_beginExit s _) h
  | _ => exact map_withStake_ok h

theorem withP2p_ok {p : P2pInfo} (h : withP2p l p = .ok next) :
    next.p2p = some p ∧ next.bondedStake = l.bondedStake := by
  cases l <;> cases h <;> exact ⟨rfl, rfl⟩

theorem jail_ok {s : Payload} {p : JailPayload} (h : jail s height = .ok p) :
    height ≠ 0 ∧ p.toPayload =
      { s with history := { s.history with lastDeactivatedAtHeight := some height } } ∧
      p.jailedAt = height := by
  simp only [jail, laws] at h
  obtain ⟨_, hne, rfl⟩ := h
  exact ⟨hne, rfl, rfl⟩

theorem withHistory_ok {history : ValidatorHistory} (h : withHistory l history = .ok next) :
    next.p2p = l.p2p ∧ next.stake = l.stake ∧ next.isActiveStatus = l.isActiveStatus ∧
      next.history = some history := by
  simp only [withHistory, bind_eq_ok] at h
  obtain ⟨_, _, h⟩ := h
  cases l <;> simp only [laws] at h
  all_goals first
    | cases h; done
    | subst h; exact ⟨rfl, rfl, rfl, rfl⟩
    | obtain ⟨_, _, rfl⟩ := h; exact ⟨rfl, rfl, rfl, rfl⟩

theorem punishTarget_ok {s : Payload} (h : punishTarget s jailIt height = .ok next) :
    next.p2p = some s.p2p ∧ next.stake = some s.stake ∧ next.isActiveStatus = false := by
  unfold punishTarget at h
  split at h
  · obtain ⟨p, hp, rfl⟩ := map_eq_ok.mp h
    obtain ⟨_, hpay, _⟩ := jail_ok hp
    exact ⟨by simp [p2p, hpay], by simp [stake, hpay], rfl⟩
  · obtain ⟨p, hp, rfl⟩ := map_eq_ok.mp h
    obtain ⟨hp2p, hstake⟩ := setsStake_beginExit s _ p hp
    exact ⟨congrArg some hp2p, congrArg some hstake, rfl⟩

/-- A punishment that commits takes an active validator out of the active state. -/
theorem punishNext_ok (h : punishNext l jailIt height = .ok (some next)) :
    l.isActiveStatus = true ∧ next.isActiveStatus = false ∧
      MirrorsStake l next l.bondedStake := by
  unfold punishNext at h
  cases l with
  | active s =>
    simp only [bind_eq_ok, map_eq_ok] at h
    obtain ⟨target, htarget, _, _, l', hl', he⟩ := h
    cases he
    obtain ⟨hp2p, hstake, hactive⟩ := punishTarget_ok htarget
    obtain ⟨hp2p', hstake', hactive', _⟩ := withHistory_ok hl'
    refine ⟨rfl, hactive'.trans hactive, hp2p'.trans hp2p, ?_⟩
    rw [bondedStake, hstake', hstake]
    rfl
  | jailRetained s | jail s => cases jailIt <;> cases h
  | absent | waitingForStake s | waitingForReadiness s | joining s | exiting s | unbonding s
  | inactive s => cases h

/-! ### Calls -/

variable {X : Externals} {env : BlockEnv} {addr : Address} {vs vs' : Store} {u : Unit}

variable {a caller : Address} {encoded : List UInt8}

theorem setP2pAddress_commits {version : Nat}
    (h : Ok (setP2pAddress X caller addr version encoded) vs u vs') :
    ∃ l next, Commits X addr l next false vs vs' ∧ next.bondedStake = l.bondedStake ∧
      ∀ p, next.p2p = some p → p.Canonical addr := by
  simp only [setP2pAddress, readState, rules] at h
  obtain ⟨_, _, _, _, address, hdecode, before, hread, next, hnext, hcommit⟩ := h
  refine ⟨_, next, commits_of_ok hread hcommit, (withP2p_ok hnext).2, fun p hp => ?_⟩
  rw [(withP2p_ok hnext).1] at hp
  cases hp
  cases hd : decodeVersioned version encoded with
  | error e => simp [hd, Except.mapError] at hdecode
  | ok a =>
    simp only [hd, Except.mapError, Except.ok.injEq] at hdecode
    exact P2pInfo.canonical_v1_of_decodeVersioned (hdecode ▸ hd)

theorem recordStakeIncrease_commits (h : Ok (recordStakeIncrease X addr bonded minimum) vs u vs') :
    ∃ l next setChange, Commits X addr l next setChange vs vs' ∧
      stakeIncreaseNext l bonded minimum = .ok (next, setChange) := by
  simp only [recordStakeIncrease, readState, rules] at h
  obtain ⟨before, hread, ⟨next, setChange⟩, hnext, hcommit⟩ := h
  exact ⟨_, next, setChange, commits_of_ok hread hcommit, hnext⟩

theorem recordUnstake_commits {hint : Nat}
    (h : Ok (recordUnstake X env addr bonded minimum hint) vs u vs') :
    ∃ l next setChange, Commits X addr l next setChange vs vs' ∧
      unstakeNext l bonded minimum hint env.blockNumber = .ok (next, setChange) := by
  simp only [recordUnstake, readState, rules] at h
  obtain ⟨before, hread, ⟨next, setChange⟩, hnext, hcommit⟩ := h
  exact ⟨_, next, setChange, commits_of_ok hread hcommit, hnext⟩

theorem recordStakeSlash_commits {hint : Option Nat}
    (h : Ok (recordStakeSlash X env addr bonded minimum hint) vs u vs') :
    ∃ l next setChange, Commits X addr l next setChange vs vs' ∧
      stakeSlashNext l bonded minimum hint env.blockNumber = .ok (next, setChange) := by
  simp only [recordStakeSlash, readState, rules] at h
  obtain ⟨before, hread, ⟨next, setChange⟩, hnext, hcommit⟩ := h
  exact ⟨_, next, setChange, commits_of_ok hread hcommit, hnext⟩

theorem completeUnbonding_commits (h : Ok (completeUnbonding X addr) vs u vs') :
    vs' = vs ∨ ∃ l next, Commits X addr l next false vs vs' ∧
      MirrorsStake l next 0 ∧ l.bondedStake = 0 := by
  simp only [completeUnbonding, readState, rules] at h
  obtain ⟨before, hread, h⟩ := h
  split at h
  · rename_i s hs
    simp only [ok_bind, ok_ofExcept, laws, StateMachine.completeUnbonding] at h
    obtain ⟨_, _, ⟨⟨_, _, rfl⟩, rfl⟩, _, _, ⟨⟨_, hzero, rfl⟩, rfl⟩, hcommit⟩ := h
    refine .inr ⟨_, _, commits_of_ok hread hcommit, ?_, ?_⟩
    · rw [hs]
      exact ⟨rfl, rfl⟩
    · simpa using hzero
  · exact .inl (ok_pure.mp h).2

/-- Completing one exit leaves the other validators' states. -/
theorem completeUnbonding_validatorState_of_ne (h : Ok (completeUnbonding X addr) vs u vs')
    (ha : a ≠ addr) : validatorState X vs' a = validatorState X vs a := by
  rcases completeUnbonding_commits h with rfl | ⟨_, _, hcommit, _⟩
  · rfl
  · exact hcommit.validatorState_of_ne ha

theorem unjailAfterStakeCheck_commits (h : Ok (unjailAfterStakeCheck X env addr) vs u vs') :
    ∃ l next, Commits X addr l next true vs vs' ∧ MirrorsStake l next l.bondedStake := by
  simp only [unjailAfterStakeCheck, readState, rules] at h
  obtain ⟨before, hread, jailed, hjailed, pending, hpending, hcommit⟩ := h
  refine ⟨_, _, commits_of_ok hread hcommit, ?_⟩
  have hl : before.lifecycle = .jail jailed := by
    unfold unjailAfterStakeCheck.jailedOf at hjailed
    split at hjailed
    · rename_i hl
      rw [hl, pure_eq_ok.mp hjailed]
    all_goals simp at hjailed
  simp only [unjail, laws] at hpending
  obtain ⟨_, _, _, _, _, _, rfl⟩ := hpending
  rw [hl]
  exact ⟨rfl, rfl⟩

/-- The one OCOMP slash mirrors the bonded stake of an active validator with an open window. -/
theorem recordOcompBondedSlash_commits (h : Ok (recordOcompBondedSlash X addr bonded) vs u vs') :
    vs.ocomp.recoveryDeadline addr ≠ 0 ∧
      ∃ l next, Commits X addr l next false vs vs' ∧ l.isActiveStatus = true ∧
        withStake l ⟨bonded, l.unbondingEndHint⟩ = .ok next := by
  simp only [recordOcompBondedSlash, readState, rules] at h
  obtain ⟨hdeadline, before, hread, hactive, next, hnext, hcommit⟩ := h
  exact ⟨hdeadline, _, next, commits_of_ok hread hcommit, by simpa using hactive, hnext⟩

theorem checkPinnedKey_ok {keyHash : B256} {existing : Option OcompKeyRegistration}
    (h : Ok (checkPinnedKey X addr keyHash existing) vs u vs') : vs' = vs := by
  cases existing with
  | none => exact (ok_pure.mp h).2
  | some existing =>
    simp only [checkPinnedKey, rules] at h
    obtain ⟨_, _, ⟨_, rfl⟩, _, _, ⟨rfl, rfl⟩, _, rfl⟩ := h
    rfl

theorem readyNext_ok (h : confirmValidatorReady.readyNext l = .ok next) :
    MirrorsStake l next l.bondedStake := by
  unfold confirmValidatorReady.readyNext at h
  split at h
  · cases h
    exact ⟨rfl, rfl⟩
  · cases h
    exact ⟨rfl, rfl⟩
  all_goals simp at h

def withOcompRegistration (vs : Store) (addr : Address) (encoded : List UInt8) (keyHash : B256) :
    Store :=
  { vs with ocomp := { vs.ocomp with
    registration := update vs.ocomp.registration addr encoded
    keyHashToValidator := update vs.ocomp.keyHashToValidator keyHash addr } }

/-- A confirmed readiness stores the OCOMP registration and commits. -/
theorem confirmValidatorReady_commits (h : Ok (confirmValidatorReady X env addr encoded) vs u vs') :
    ∃ l next keyHash, Commits X addr l next true (withOcompRegistration vs addr encoded keyHash)
        vs' ∧ MirrorsStake l next l.bondedStake := by
  simp only [confirmValidatorReady, readState, rules, writeOcompRegistration] at h
  obtain ⟨before, hread, next, hnext, registration, _, _, _, _, _, _, _, _, existing, _, vs₁,
    hpinned, _, hcommit⟩ := h
  obtain rfl := checkPinnedKey_ok hpinned
  refine ⟨_, next, _, commits_of_ok ?_ hcommit, readyNext_ok hnext⟩
  exact (validatorState_congr rfl rfl).trans hread

theorem deactivateValidator_commits (h : Ok (deactivateValidator X env caller addr) vs u vs') :
    ∃ l next, Commits X addr l next true vs vs' ∧ MirrorsStake l next l.bondedStake := by
  simp only [deactivateValidator, readState, rules] at h
  obtain ⟨_, before, hread, active, hactive, next, hnext, hcommit⟩ := h
  refine ⟨_, _, commits_of_ok hread hcommit, ?_⟩
  have hl : before.lifecycle = .active active := by
    unfold deactivateValidator.activeOf at hactive
    split at hactive
    · rename_i hl
      rw [hl, pure_eq_ok.mp hactive]
    all_goals simp at hactive
  obtain ⟨hp2p, hstake⟩ := setsStake_beginExit active _ next hnext
  rw [hl]
  exact ⟨congrArg some hp2p, congrArg StakeProjection.bonded hstake⟩

theorem punishValidator_commits {r : Option DeferredValidatorPunishment}
    (h : Ok (punishValidator X env addr jailIt) vs r vs') :
    (r = none ∧ vs' = vs) ∨ (r.isSome ∧ ∃ l next, Commits X addr l next true vs vs' ∧
      punishNext l jailIt env.blockNumber = .ok (some next)) := by
  simp only [punishValidator, readState, rules] at h
  obtain ⟨before, hread, next, hnext, h⟩ := h
  cases next with
  | none => exact .inl (ok_pure.mp h)
  | some next =>
    simp only [ok_bind, ok_pure] at h
    obtain ⟨_, _, hcommit, rfl, rfl⟩ := h
    exact .inr ⟨rfl, _, next, commits_of_ok hread hcommit, hnext⟩

theorem jailValidatorForTeeExpiry_commits {r : Bool}
    (h : Ok (jailValidatorForTeeExpiry X env addr) vs r vs') :
    vs' = vs ∨ ∃ l next, Commits X addr l next true vs vs' ∧
      MirrorsStake l next l.bondedStake := by
  simp only [jailValidatorForTeeExpiry, readState, rules] at h
  obtain ⟨before, hread, next, hnext, h⟩ := h
  cases next with
  | none => exact .inl (ok_pure.mp h).2
  | some next =>
    simp only [ok_bind, ok_pure] at h
    obtain ⟨_, _, hcommit, rfl, rfl⟩ := h
    refine .inr ⟨_, next, commits_of_ok hread hcommit, ?_⟩
    unfold jailValidatorForTeeExpiry.expiryNext at hnext
    split at hnext
    · rename_i active hl
      obtain ⟨jailed, hjail, he⟩ := map_eq_ok.mp hnext
      cases he
      obtain ⟨_, hpay, _⟩ := jail_ok hjail
      rw [hl]
      exact ⟨by simp [p2p, hpay], by simp [bondedStake, stake, hpay]⟩
    all_goals simp at hnext

end Rudis.ValidatorSet
