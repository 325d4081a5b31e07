import Rudis.Proofs.Staking.Calls
import Rudis.Proofs.ValidatorSet.Boundary
import Rudis.Proofs.ValidatorSet.Delegates
import Rudis.Proofs.ValidatorSet.Records
import Rudis.Spec.System

/-!
# `Rudis.Proofs.Changes`: what a call can do to the validator set

Every successful call changes the ValidatorSet storage, and the stakes Staking keeps beside it, in
a sequence of small changes (`changes_of_call`). `Change` lists them with the conditions under
which the code makes them. An invariant of the validator set is then one lemma per kind of change,
whatever calls there are.
-/

namespace Rudis

open Staking (onValidatorSet stakePayable slashBonded resolveDue)
open ValidatorSet
open Tx

/-- The validator set and the stakes it mirrors. -/
structure View where
  store : Store
  stake : Address → Nat

def view (w : World) : View := ⟨w.validatorSet, w.staking.stakeAmount⟩

/-- The store with one recovery deadline written. -/
def withDeadline (vs : Store) (addr : Address) (deadline : Nat) : Store :=
  { vs with ocomp := { vs.ocomp with
    recoveryDeadline := update vs.ocomp.recoveryDeadline addr deadline } }

/-- The operations that can resolve the recovery window of an address. -/
def Op.Resolves (op : Op) (addr : Address) : Prop :=
  op = .resolveDueOcompRecoveryWindow addr ∨ op = .closeDueOcompRecoveryWindows

/-- One change an operation makes at a block. -/
inductive Change (X : Externals) (env : BlockEnv) (op : Op) : View → View → Prop
  /-- A transition that keeps the bonded stake. -/
  | commit {addr : Address} {l next : ValidatorLifecycle} {setChange : Bool}
      {vs vs' : Store} {stake : Address → Nat}
      (h : Commits X addr l next setChange vs vs')
      (hp2p : ∀ p, next.p2p = some p → p.Canonical addr)
      (hbonded : next.bondedStake = l.bondedStake) : Change X env op ⟨vs, stake⟩ ⟨vs', stake⟩
  /-- A transition that mirrors the stake Staking has just written. -/
  | restake {addr : Address} {l next : ValidatorLifecycle} {setChange : Bool}
      {vs vs' : Store} {stake : Address → Nat}
      (h : Commits X addr l next setChange vs vs')
      (hp2p : ∀ p, next.p2p = some p → p.Canonical addr) :
      Change X env op ⟨vs, stake⟩ ⟨vs', update stake addr next.bondedStake⟩
  | count {vs vs' : Store} {stake : Address → Nat} (h : Counts vs vs') :
      Change X env op ⟨vs, stake⟩ ⟨vs', stake⟩
  | register {addr : Address} {pubkey : ConsensusPubkey} {vs vs' : Store}
      {stake : Address → Nat} (h : Registers X env addr pubkey vs vs') :
      Change X env op ⟨vs, stake⟩ ⟨vs', stake⟩
  | reregister {addr : Address} {pubkey : ConsensusPubkey} {vs vs' : Store}
      {stake : Address → Nat} (h : Reregisters X env addr pubkey vs vs') :
      Change X env op ⟨vs, stake⟩ ⟨vs', stake⟩
  | cleanup {count : Nat} {vs vs₁ : Store} {stake : Address → Nat}
      (h : Removals X vs.registry.validatorCount vs count vs₁) : Change X env op ⟨vs, stake⟩
        ⟨{ vs₁ with registry := { vs₁.registry with validatorCount := count } }, stake⟩
  | setDelegate {sender : Sender} {role : ValidatorDelegateRole} {delegate : Address}
      {vs vs' : Store} {stake : Address → Nat}
      (hop : op = .setDelegate sender role delegate)
      (h : Assigns sender.address role delegate vs vs') :
      Change X env op ⟨vs, stake⟩ ⟨vs', stake⟩
  | revokeDelegate {sender : Sender} {role : ValidatorDelegateRole}
      {vs vs' : Store} {stake : Address → Nat}
      (hop : op = .revokeDelegate sender role) (h : Revokes sender.address role vs vs') :
      Change X env op ⟨vs, stake⟩ ⟨vs', stake⟩
  /-- An accepted OCOMP key, or a counted miss. -/
  | ocomp {vs : Store} {stake : Address → Nat} {ocomp : OcompStore}
      (hwindow : ocomp.recoveryDeadline = vs.ocomp.recoveryDeadline) :
      Change X env op ⟨vs, stake⟩ ⟨{ vs with ocomp := ocomp }, stake⟩
  | openWindow {addr : Address} {vs : Store} {stake : Address → Nat}
      (hop : op = .recordOcompMiss addr) (hclosed : vs.ocomp.recoveryDeadline addr = 0) :
      Change X env op ⟨vs, stake⟩
        ⟨withDeadline vs addr (env.blockNumber + ocompRecoveryWindowBlocks), stake⟩
  | closeWindow {addr : Address} {vs : Store} {stake : Address → Nat}
      (hop : op.Resolves addr) (hdue : vs.ocomp.recoveryDeadline addr ≤ env.blockNumber) :
      Change X env op ⟨vs, stake⟩ ⟨withDeadline vs addr 0, stake⟩
  /-- Flags, hashes, guards and snapshots. -/
  | quiet {vs vs' : Store} {stake : Address → Nat} (hval : vs'.val = vs.val)
      (hregistry : vs'.registry = vs.registry) (hdelegates : vs'.delegates = vs.delegates)
      (hocomp : vs'.ocomp = vs.ocomp) : Change X env op ⟨vs, stake⟩ ⟨vs', stake⟩

abbrev Changes (X : Externals) (env : BlockEnv) (op : Op) : View → View → Prop :=
  Relation.ReflTransGen (Change X env op)

variable {X : Externals} {env : BlockEnv} {op : Op} {addr : Address}
  {vs vs' : Store} {stake : Address → Nat} {u : Unit}

/-- Changes of the store, with the stakes as they are. -/
def Rewrites (X : Externals) (env : BlockEnv) (op : Op) (stake : Address → Nat) (vs vs' : Store) :
    Prop := Changes X env op ⟨vs, stake⟩ ⟨vs', stake⟩

instance : IsPreorder Store (Rewrites X env op stake) where
  refl _ := .refl
  trans _ _ _ := Relation.ReflTransGen.trans

/-- Changes of the view of a world. -/
def Alters (X : Externals) (env : BlockEnv) (op : Op) (w w' : World) : Prop :=
  Changes X env op (view w) (view w')

instance : IsPreorder World (Alters X env op) where
  refl _ := .refl
  trans _ _ _ := Relation.ReflTransGen.trans

/-! ### ValidatorSet calls -/

variable {jailIt setChange : Bool}

theorem changes_commit {l next : ValidatorLifecycle}
    (h : Commits X addr l next setChange vs vs') (hmirror : MirrorsStake l next l.bondedStake) :
    Changes X env op ⟨vs, stake⟩ ⟨vs', stake⟩ :=
  .single (.commit h (fun p hp => h.encodes.2.p2p p (hmirror.1 ▸ hp)) hmirror.2)

variable {amount bonded epoch percent slash timestamp total version : Nat}

theorem changes_restake {l next : ValidatorLifecycle}
    (h : Commits X addr l next setChange vs vs') (hmirror : MirrorsStake l next bonded) :
    Changes X env op ⟨vs, stake⟩ ⟨vs', update stake addr bonded⟩ := by
  have hchange : Change X env op ⟨vs, stake⟩ ⟨vs', update stake addr next.bondedStake⟩ :=
    .restake h fun p hp => h.encodes.2.p2p p (hmirror.1 ▸ hp)
  rw [hmirror.2] at hchange
  exact .single hchange

theorem changes_completeUnbonding : Keeps (Rewrites X env op stake) (completeUnbonding X addr) := by
  intro vs u vs' h
  rcases completeUnbonding_commits h with rfl | ⟨l, next, hcommit, hmirror, hzero⟩
  · exact .refl
  · exact changes_commit hcommit (hzero ▸ hmirror)

theorem changes_punishValidator :
    Keeps (Rewrites X env op stake) (punishValidator X env addr jailIt) := by
  intro vs r vs' h
  obtain ⟨_, rfl⟩ | ⟨_, l, next, hcommit, hnext⟩ := punishValidator_commits h
  · exact .refl
  · exact changes_commit hcommit (punishNext_ok hnext).2.2

variable {fbHash nodeId : B256}

theorem changes_recordGuard : Keeps (Rewrites X env op stake) (recordGuard fbHash) := by
  have hwrite : ∀ f, Keeps (Rewrites X env op stake) (writeGuard f) :=
    fun _ => .modify fun _ => .single (.quiet rfl rfl rfl rfl)
  refine .bind (hwrite _) fun _ => .read (fun _ => rfl) fun _ => .read (fun _ => rfl) fun _ => ?_
  refine .bind (.when (hwrite _)) fun _ => .bind (hwrite _) fun _ => ?_
  exact .read readOnly_ofExcept fun _ => hwrite _

variable {absent voters : List Address}

theorem changes_recordFinalizedParticipation :
    Keeps (Rewrites X env op stake) (recordFinalizedParticipation X voters absent) := by
  refine .bind (.forM fun _ => .read readOnly_query fun _ => .of_readOnly readOnly_failIf)
    fun _ => .forM fun a vs u vs' hok => ?_
  simp only [rules, ↓existsAndEq, Bool.not_eq_false] at hok
  obtain ⟨hread, hadd⟩ := hok
  exact .single (.count (addMissedVote_counts (registered_of_isValidator hread) hadd))

theorem changes_recordFinalizedParticipationHook :
    Keeps (Rewrites X env op stake) (recordFinalizedParticipationHook X fbHash voters absent) :=
  .read (fun _ => rfl) fun _ => .when (.bind changes_recordFinalizedParticipation fun _ =>
    changes_recordGuard)

theorem changes_resetEpochCounters : Keeps (Rewrites X env op stake) (resetEpochCounters X) := by
  refine .read readOnly_query fun _ => .forM fun a vs u vs' hok => ?_
  rcases resetRound_counts hok with rfl | hcounts
  · exact .refl
  · exact .single (.count hcounts)

theorem changes_recordProposerHook {beneficiary : Address} :
    Keeps (Rewrites X env op stake) (recordProposerHook X beneficiary) :=
  .read readOnly_query fun _ => .when fun _ _ _ h => .single (.count (recordProposer_counts h))

theorem changes_writeCommitteeSnapshot {snapshot : CommitteeSnapshot} :
    Keeps (Rewrites X env op stake) (writeCommitteeSnapshot X epoch snapshot) := by
  refine .read readOnly_query fun _ => .read readOnly_failIf fun _ => .read (fun _ => rfl) fun _ => ?_
  refine .ite (.read readOnly_query fun _ => .pure) (.bind (.modify fun _ => ?_) fun _ => .pure)
  exact .single (.quiet rfl rfl rfl rfl)

theorem changes_commitsAll {ts : List (ValidatorState × ValidatorState)}
    (h : CommitsAll X ts vs vs') (hkeeps : ∀ t ∈ ts, BoundaryKeeps t.1.lifecycle t.2.lifecycle) :
    Changes X env op ⟨vs, stake⟩ ⟨vs', stake⟩ := by
  induction h with
  | nil => exact .refl
  | cons _ hcommit _ ih =>
    rw [List.forall_mem_cons] at hkeeps
    exact (changes_commit hcommit hkeeps.1.mirrors).trans (ih hkeeps.2)

theorem changes_activateBoundaryAtomic {inputs : BoundaryActivationInputs} :
    Keeps (Rewrites X env op stake) (activateBoundaryAtomic X inputs) := by
  refine .checkpoint (.bind ?_ fun _ => .bind (fun vs u vs' hactivate => ?_) fun _ =>
    .bind changes_writeCommitteeSnapshot fun _ => .pure)
  · unfold writeOutgoing
    split
    · intro _ _ _ h
      obtain ⟨_, hwrite, _⟩ := ok_map.mp h
      exact changes_writeCommitteeSnapshot hwrite
    · exact .pure
  · obtain ⟨ts, hactivates⟩ := activateValidated_activates hactivate
    obtain ⟨vs₃, hash, pending, hcommits, rfl⟩ := hactivates.commits
    exact (changes_commitsAll hcommits fun t ht => (hactivates.next_ok ht).1).tail
      (.quiet rfl rfl rfl rfl)

variable {caller : Address}

theorem changes_registerValidatorWithSig {pubkey : ConsensusPubkey} {sig : Option (BitVec 768)} :
    Keeps (Rewrites X env op stake)
      (registerValidatorWithSig X env caller addr pubkey nodeId sig) := by
  intro vs u vs' h
  rcases registerValidatorInner_cases h with hfirst | hagain
  · exact .single (.register hfirst)
  · exact .single (.reregister hagain)

variable {encoded : List UInt8}

theorem changes_confirmValidatorReady :
    Keeps (Rewrites X env op stake) (confirmValidatorReady X env addr encoded) := by
  intro vs u vs' h
  obtain ⟨l, next, keyHash, hcommit, hmirror⟩ := confirmValidatorReady_commits h
  refine Relation.ReflTransGen.head (b := ⟨withOcompRegistration vs addr encoded keyHash, stake⟩) ?_
    (changes_commit hcommit hmirror)
  exact .ocomp rfl

theorem changes_setP2pAddress :
    Keeps (Rewrites X env op stake) (setP2pAddress X caller addr version encoded) := by
  intro vs u vs' h
  obtain ⟨l, next, hcommit, hbonded, hp2p⟩ := setP2pAddress_commits h
  exact .single (.commit hcommit hp2p hbonded)

/-! ### OCOMP windows -/

/-- A recorded miss counts, and opens a window when none is open. -/
theorem recordOcompMiss_vs_cases {r : OcompMissRecord}
    (h : Ok (recordOcompMiss X env addr) vs r vs') :
    (∃ s, validatorState X vs addr = .ok ⟨addr, .active s⟩) ∧
      ∃ missCount, missCount = vs.ocomp.missCount addr + 1 ∧
      ∃ vs₁, vs₁ = { vs with ocomp := { vs.ocomp with
          missCount := update vs.ocomp.missCount addr missCount } } ∧
        ((vs.ocomp.recoveryDeadline addr = 0 ∧
            r = .opened missCount (env.blockNumber + ocompRecoveryWindowBlocks) ∧
            vs' = withDeadline vs₁ addr (env.blockNumber + ocompRecoveryWindowBlocks)) ∨
          (vs.ocomp.recoveryDeadline addr ≠ 0 ∧
            r = .repeated missCount (vs.ocomp.recoveryDeadline addr) ∧ vs' = vs₁)) := by
  simp only [recordOcompMiss, readState, openOrRepeat, writeMissCount,
    writeRecoveryDeadline, rules, ok_ite, okOr_eq_ok, checkedAdd_eq_some] at h
  obtain ⟨⟨a, l⟩, hread, hactive, _, hwindow⟩ := h
  obtain rfl : a = addr := validatorState_address hread
  refine ⟨?_, _, rfl, _, rfl, ?_⟩
  · cases l with
    | active s => exact ⟨s, hread⟩
    | _ => exact absurd rfl hactive
  · obtain ⟨hclosed, _, rfl, rfl⟩ | ⟨hopen, rfl, rfl⟩ := hwindow
    · exact .inl ⟨hclosed, rfl, rfl⟩
    · exact .inr ⟨hopen, rfl, rfl⟩

variable {deadline : Nat}

theorem ok_resolveOcompRecoveryWindow :
    Ok (resolveOcompRecoveryWindow addr deadline) vs u vs' ↔
      vs.ocomp.recoveryDeadline addr = deadline ∧ vs' = withDeadline vs addr 0 := by
  simp [resolveOcompRecoveryWindow, writeRecoveryDeadline, withDeadline]

/-! ### Staking calls -/

variable {w w' : World}

/-- A ValidatorSet call inside a Staking call. -/
theorem changes_onValidatorSet {α : Type} {m : Call Store α}
    (hm : ∀ stake, Keeps (Rewrites X env op stake) m) :
    Keeps (Alters X env op) (onValidatorSet m) := by
  intro w r w' h
  obtain ⟨vs', hok, rfl⟩ := Staking.ok_onValidatorSet.mp h
  exact hm _ hok

theorem view_enqueueUnbonding (s : Staking.Store) (v : Address) (amount time : Nat) :
    (s.enqueueUnbonding v amount time).stakeAmount = s.stakeAmount := by
  unfold Staking.Store.enqueueUnbonding
  split <;> rfl

theorem changes_stake {caller validator : Address}
    (h : Ok (Staking.stake X caller validator amount) w u w') :
    Changes X env op (view w) (view w') := by
  obtain ⟨_, _, _, vs, hmirror, rfl⟩ := Staking.ok_stake.mp h
  obtain ⟨l, next, setChange, hcommit, hnext⟩ := recordStakeIncrease_commits hmirror
  exact changes_restake hcommit (stakeIncreaseNext_ok hnext)

variable {validator : Address}

theorem changes_stakePayable {sender : Sender}
    (h : Ok (stakePayable X sender validator amount) w u w') :
    Changes X env op (view w) (view w') := by
  simp only [stakePayable, rules, Staking.ok_onBalances_transfer] at h
  obtain ⟨_, _, hstake⟩ := h
  have hchanges : Changes X env op _ _ := changes_stake hstake
  exact hchanges

theorem changes_unstake (h : Ok (Staking.unstake X env caller amount) w u w') :
    Changes X env op (view w) (view w') := by
  obtain ⟨_, _, _, _, vs, hmirror, rfl⟩ := Staking.ok_unstake.mp h
  obtain ⟨l, next, setChange, hcommit, hnext⟩ := recordUnstake_commits hmirror
  simp only [view, view_enqueueUnbonding]
  exact changes_restake hcommit (unstakeNext_ok hnext)

theorem changes_finalizeInactiveIfComplete :
    Keeps (Alters X env op) (Staking.finalizeInactiveIfComplete X validator) :=
  .read readOnly_query fun _ => .when (changes_onValidatorSet fun _ => changes_completeUnbonding)

theorem changes_claimUnbonded (h : Ok (Staking.claimUnbonded X env caller) w u w') :
    Changes X env op (view w) (view w') := by
  obtain ⟨c, _, w₁, w₂, rfl, hpay, hfinal⟩ := Staking.ok_claimUnbonded.mp h
  have hchanges : Changes X env op (view w₂) (view w') := changes_finalizeInactiveIfComplete hfinal
  obtain ⟨_, hpay⟩ | ⟨_, rfl⟩ := ok_when.mp hpay
  · obtain ⟨_, _, rfl⟩ := Staking.ok_onBalances_transfer.mp hpay
    exact hchanges
  · exact hchanges

/-- The slash writes the stake it then mirrors. -/
theorem slashBonded_stakeAmount (s : Staking.Store) (validator : Address) (percent : Nat) :
    (slashBonded s validator percent).1.stakeAmount = update s.stakeAmount
      validator ((slashBonded s validator percent).1.stakeAmount validator) := by
  rw [Staking.slashBonded_eq]
  split
  · simp
  · simp [Staking.Store.setBonded]

theorem changes_slashStake (h : Ok (Staking.slashStake X env validator percent) w total w') :
    Changes X env op (view w) (view w') := by
  obtain ⟨_, queued, hqueued, w₁, hburn, vs, hmirror, rfl⟩ := Staking.ok_slashStake.mp h
  obtain ⟨_, _, entries, _, _, _, rfl⟩ := Staking.ok_slashQueue.mp hqueued
  obtain ⟨l, next, setChange, hcommit, hnext⟩ := recordStakeSlash_commits hmirror
  have hstaking : w₁.staking.stakeAmount =
        (slashBonded w.staking validator percent).1.stakeAmount ∧
      w₁.validatorSet = w.validatorSet := by
    obtain ⟨_, hburn⟩ | ⟨_, rfl⟩ := ok_when.mp hburn
    · obtain ⟨_, rfl⟩ := Staking.ok_onBalances_burn.mp hburn
      exact ⟨rfl, rfl⟩
    · exact ⟨rfl, rfl⟩
  have hchanges : Changes X env op (view w) ⟨vs, update w.staking.stakeAmount validator
      (w₁.staking.stakeAmount validator)⟩ :=
    changes_restake (hstaking.2 ▸ hcommit) (stakeSlashNext_ok hnext)
  rw [hstaking.1, ← slashBonded_stakeAmount] at hchanges
  simp only [view, hstaking.1]
  exact hchanges

theorem changes_ocompBondedSlash (h : Ok (Staking.ocompBondedSlash X validator) w slash w') :
    Changes X env op (view w) (view w') := by
  obtain ⟨_, _, w₁, hburn, vs, hmirror, rfl⟩ := Staking.ok_ocompBondedSlash.mp h
  obtain ⟨_, l, next, hcommit, _, hnext⟩ := recordOcompBondedSlash_commits hmirror
  obtain ⟨_, hburn⟩ | ⟨_, rfl⟩ := ok_when.mp hburn
  · obtain ⟨_, rfl⟩ := Staking.ok_onBalances_burn.mp hburn
    exact changes_restake hcommit (withStake_ok hnext)
  · exact changes_restake hcommit (withStake_ok hnext)

theorem changes_recordOcompMiss_vs {r : OcompMissRecord}
    (h : Ok (recordOcompMiss X env addr) vs r vs') :
    Changes X env (.recordOcompMiss addr) ⟨vs, stake⟩ ⟨vs', stake⟩ := by
  obtain ⟨_, missCount, _, vs₁, hvs₁, hwindow⟩ := recordOcompMiss_vs_cases h
  have hcount : Changes X env (.recordOcompMiss addr) ⟨vs, stake⟩ ⟨vs₁, stake⟩ := by
    subst hvs₁
    exact .single (.ocomp rfl)
  obtain ⟨hclosed, _, rfl⟩ | ⟨_, _, rfl⟩ := hwindow
  · refine hcount.tail (.openWindow rfl ?_)
    rw [hvs₁]
    exact hclosed
  · exact hcount

theorem changes_recordOcompMiss {penalty : Staking.OcompMissPenalty}
    (h : Ok (Staking.recordOcompMiss X env validator) w penalty w') :
    Changes X env (.recordOcompMiss validator) (view w) (view w') := by
  obtain ⟨miss, vs, hmiss, hrest⟩ := Staking.recordOcompMiss_cases h
  have hfirst : Changes X env (.recordOcompMiss validator) (view w)
      (view { w with validatorSet := vs }) := changes_recordOcompMiss_vs hmiss
  obtain ⟨_, _, _, _, hslash, _⟩ | ⟨_, _, _, rfl, _⟩ := hrest
  · exact hfirst.trans (changes_ocompBondedSlash hslash)
  · exact hfirst

variable {r : Staking.OcompRecoveryResolution}

/-- A due window is closed, after a jail of an active validator below the minimum. -/
theorem resolveDue_cases (h : Ok (resolveDue X env validator deadline) w r w') :
    ∃ l vs, validatorState X w.validatorSet validator = .ok ⟨validator, l⟩ ∧
      Ok (resolveOcompRecoveryWindow validator deadline) vs () w'.validatorSet ∧
      ((vs = w.validatorSet ∧ (l.isActiveStatus = false ∨
          w.staking.configMinStake ≤ w.staking.stakeAmount validator)) ∨
        (w.staking.stakeAmount validator < w.staking.configMinStake ∧
          ∃ report, Ok (jailValidatorDeferred X env validator) w.validatorSet (some report) vs)) ∧
      w'.staking = w.staking := by
  have hstaking := (Staking.sameLedger_resolveDue h).1
  simp only [resolveDue, rules, ok_ite, Staking.ok_onValidatorSet, ↓existsAndEq] at h
  obtain ⟨l, hl, h⟩ := h
  obtain ⟨⟨a, _⟩, hread, rfl⟩ := map_eq_ok.mp hl
  obtain rfl : a = validator := validatorState_address hread
  obtain ⟨hactive, vs, hresolve, -, rfl⟩ | ⟨-, ⟨hge, vs, hresolve, -, rfl⟩ |
    ⟨hlt, report, vs, hjail, hsome, vs₂, hresolve, -, rfl⟩⟩ := h
  · exact ⟨l, _, hread, hresolve, .inl ⟨rfl, .inl hactive⟩, hstaking⟩
  · exact ⟨l, _, hread, hresolve, .inl ⟨rfl, .inr hge⟩, hstaking⟩
  · obtain ⟨report, rfl⟩ := Option.ne_none_iff_exists'.mp (by simpa using hsome)
    exact ⟨l, vs, hread, hresolve, .inr ⟨not_le.mp hlt, report, hjail⟩, hstaking⟩

theorem changes_resolveDue (hop : op.Resolves validator) (hdue : deadline ≤ env.blockNumber)
    (h : Ok (resolveDue X env validator deadline) w r w') :
    Changes X env op (view w) (view w') := by
  obtain ⟨l, vs, -, hresolve, hcases, hstaking⟩ := resolveDue_cases h
  obtain ⟨rfl, hvs⟩ := ok_resolveOcompRecoveryWindow.mp hresolve
  rw [view, view, hstaking, hvs]
  refine .trans ?_ (.single (.closeWindow hop hdue))
  obtain ⟨rfl, -⟩ | ⟨-, report, hjail⟩ := hcases
  · exact .refl
  · exact changes_punishValidator hjail

theorem changes_resolveDueOcompRecoveryWindow (hop : op.Resolves validator)
    (h : Ok (Staking.resolveDueOcompRecoveryWindow X env validator) w r w') :
    Changes X env op (view w) (view w') := by
  simp only [Staking.resolveDueOcompRecoveryWindow, rules, ok_ite] at h
  obtain ⟨_, _, rfl⟩ | ⟨_, ⟨_, _, rfl⟩ | ⟨hdue, h⟩⟩ := h
  · exact .refl
  · exact .refl
  · exact changes_resolveDue hop (not_lt.mp hdue) h

theorem changes_closeDueOcompRecoveryWindows (hop : op = .closeDueOcompRecoveryWindows) :
    Keeps (Alters X env op) (Staking.closeDueOcompRecoveryWindows X env) := by
  refine .checkpoint (.read (fun _ => rfl) fun _ => .read readOnly_failIf fun _ =>
    .read readOnly_query fun _ => .foldlM fun _ _ => .read (fun _ => rfl) fun _ => .ite .pure ?_)
  exact .bind (fun _ _ _ => changes_resolveDueOcompRecoveryWindow (.inr hop)) fun _ => .pure

theorem changes_processValidator
    (h : Ok (Staking.processValidator X env timestamp validator) w u w') :
    Changes X env op (view w) (view w') := by
  obtain ⟨_, _, _, _, _, hmove⟩ | ⟨_, hfinal⟩ | ⟨_, rfl⟩ := Staking.processValidator_cases h
  · obtain ⟨_, _, _, _, _, vs, hmirror, rfl⟩ := Staking.ok_moveToQueue.mp hmove
    obtain ⟨l, next, setChange, hcommit, hnext⟩ := recordUnstake_commits hmirror
    simp only [view, view_enqueueUnbonding]
    exact changes_restake hcommit (unstakeNext_ok hnext)
  · exact changes_finalizeInactiveIfComplete hfinal
  · exact .refl

theorem changes_processUnbonding :
    Keeps (Alters X env op) (Staking.processUnbonding X env timestamp) :=
  .read readOnly_query fun _ => .bind (.forM fun _ _ _ _ => changes_processValidator) fun _ =>
    .modify fun _ => .refl

/-! ### Every call -/

/-- Every successful call is a sequence of changes. -/
theorem changes_of_call (h : Ok (op.call X env) w () w') : Changes X env op (view w) (view w') := by
  cases op with
  | stake sender validator amount => exact changes_stakePayable h
  | unstake sender amount => exact changes_unstake h
  | claimUnbonded sender => exact changes_claimUnbonded h
  | unjailValidator sender =>
    simp only [Op.call, Staking.unjailValidator, rules] at h
    refine changes_onValidatorSet (fun stake vs _ vs' hok => ?_) h.2
    obtain ⟨l, next, hcommit, hmirror⟩ := unjailAfterStakeCheck_commits hok
    exact changes_commit hcommit hmirror
  | slashStake validator percent =>
    obtain ⟨_, h⟩ := ok_discard.mp h
    exact changes_slashStake h
  | recordOcompMiss validator =>
    obtain ⟨_, h⟩ := ok_discard.mp h
    exact changes_recordOcompMiss h
  | resolveDueOcompRecoveryWindow validator =>
    obtain ⟨_, h⟩ := ok_discard.mp h
    exact changes_resolveDueOcompRecoveryWindow (.inl rfl) h
  | closeDueOcompRecoveryWindows =>
    obtain ⟨_, h⟩ := ok_discard.mp h
    exact changes_closeDueOcompRecoveryWindows rfl h
  | processUnbonding timestamp => exact changes_processUnbonding h
  | registerValidator sender validator pubkey radicleNodeId sig =>
    exact changes_onValidatorSet (fun _ => changes_registerValidatorWithSig) h
  | setP2pAddress sender validator version encoded =>
    exact changes_onValidatorSet (fun _ => changes_setP2pAddress) h
  | confirmValidatorReady sender encoded =>
    exact changes_onValidatorSet (fun _ => changes_confirmValidatorReady) h
  | deactivateValidator sender validator =>
    refine changes_onValidatorSet (fun stake vs _ vs' hok => ?_) h
    obtain ⟨l, next, hcommit, hmirror⟩ := deactivateValidator_commits hok
    exact changes_commit hcommit hmirror
  | setDelegate sender role delegate =>
    refine changes_onValidatorSet (fun stake vs _ vs' hok => ?_) h
    rcases setDelegate_cases hok with rfl | hassigns
    · exact .refl
    · exact .single (.setDelegate rfl hassigns)
  | revokeDelegate sender role =>
    refine changes_onValidatorSet (fun stake vs _ vs' hok => ?_) h
    rcases revokeDelegate_cases hok with rfl | hrevokes
    · exact .refl
    · exact .single (.revokeDelegate rfl hrevokes)
  | forceExitValidator validator | jailValidator validator =>
    exact changes_onValidatorSet (fun _ => .bind changes_punishValidator fun _ => .pure) h
  | jailValidatorForTeeExpiry validator =>
    refine changes_onValidatorSet (fun stake vs _ vs' hok => ?_) h
    obtain ⟨_, hok⟩ := ok_discard.mp hok
    rcases jailValidatorForTeeExpiry_commits hok with rfl | ⟨l, next, hcommit, hmirror⟩
    · exact .refl
    · exact changes_commit hcommit hmirror
  | recordProposer beneficiary =>
    exact changes_onValidatorSet (fun _ => changes_recordProposerHook) h
  | recordFinalizedParticipation fbHash voters absent =>
    exact changes_onValidatorSet (fun _ => changes_recordFinalizedParticipationHook) h
  | resetEpochCounters =>
    exact changes_onValidatorSet (fun _ => changes_resetEpochCounters) h
  | completeUnbonding validator =>
    exact changes_onValidatorSet (fun _ => changes_completeUnbonding) h
  | activateBoundary inputs =>
    refine changes_onValidatorSet (fun stake vs _ vs' hok => ?_) h
    obtain ⟨_, hok⟩ := ok_discard.mp hok
    exact changes_activateBoundaryAtomic hok
  | cleanupInactiveValidators maxRemovals =>
    refine changes_onValidatorSet (fun stake vs _ vs' hok => ?_) h
    obtain ⟨_, hok⟩ := ok_discard.mp hok
    obtain ⟨count, vs₁, hremovals, rfl⟩ := cleanupInactiveValidators_removals hok
    exact .single (.cleanup hremovals)

/-- An invariant of the validator set that every change keeps is kept by every step. -/
theorem inv_of_step {I : View → Prop} (hI : ∀ {v v'}, Change X env op v v' → I v → I v')
    (hw : I (view w)) : I (view (step X (env, op) w)) := by
  rcases step_cases X (env, op) w with hok | hsame
  · have hchanges := changes_of_call hok
    generalize view (step X (env, op) w) = v at hchanges
    induction hchanges with
    | refl => exact hw
    | tail _ hchange ih => exact hI hchange ih
  · rw [hsame]
    exact hw

end Rudis
