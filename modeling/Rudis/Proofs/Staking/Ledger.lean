import Rudis.Proofs.Staking.Calls
import Rudis.Proofs.ValidatorSet.Registry
import Rudis.Spec.System

/-!
# `Rudis.Proofs.Staking.Ledger`: the ledger moves of the calls

The ledger is the Staking storage together with the native balances. `Move` lists the seven
things a call can do to it, with what the call has checked by then, and `Moves n` is a sequence
of moves of which `n` append an unbonding entry. `moves_of_call` shows that every successful call
of the system is such a sequence, and bounds its appends by `newEntries`. So an invariant of the
queue or of the books is proved move by move, and never call by call.
-/

namespace Rudis.Staking

open ValidatorSet List
open Tx

/-- What Staking accounts for: its storage and the native balances. -/
structure Ledger where
  staking : Store
  balance : Address → Nat

def ledger (w : World) : Ledger := ⟨w.staking, w.balance⟩

/-- One ledger effect of a call; the number counts appended unbonding entries. -/
inductive Move : Nat → Ledger → Ledger → Prop
  /-- Value comes in and is bonded. -/
  | stake (L : Ledger) (v : Address) (amount : Nat) (hv : v ≠ stakingAddress)
      (hfunds : amount ≤ L.balance v) (hroom : L.balance stakingAddress + amount < 2 ^ 256) :
      Move 0 L
        ⟨L.staking.setBonded v (wrappingAdd 256 (L.staking.stakeAmount v) amount)
          (wrappingAdd 256 L.staking.totalStaked amount),
          moveBalance L.balance v stakingAddress amount⟩
  /-- Bonded value goes to the queue. -/
  | unbond (L : Ledger) (v : Address) (amount completeTime total : Nat) (hv : v ≠ 0)
      (hamount : amount ≠ 0) (hle : amount ≤ L.staking.stakeAmount v)
      (htotal : amount ≤ L.staking.totalStaked → L.staking.totalStaked < 2 ^ 256 →
        total = L.staking.totalStaked - amount) :
      Move 1 L
        ⟨(L.staking.setBonded v (L.staking.stakeAmount v - amount) total).enqueueUnbonding v amount
          completeTime, L.balance⟩
  /-- Mature entries are paid out. -/
  | claim (L : Ledger) (v : Address) (timestamp : Nat) (c : ClaimState) (hv : v ≠ stakingAddress)
      (hloop : claimLoop timestamp walkFuel ⟨L.staking.entries, 0, 0, 0⟩
        (L.staking.perValUnbondingHead v) = .ok c)
      (hfunds : c.totalClaimable ≤ L.balance stakingAddress) :
      Move 0 L
        ⟨{ L.staking with
            entries := c.terminate
            perValUnbondingHead := update L.staking.perValUnbondingHead v c.newHead },
          moveBalance L.balance stakingAddress v c.totalClaimable⟩
  /-- A percentage of stake and queue is burned. -/
  | slash (L : Ledger) (v : Address) (percent time total : Nat) (entries : Nat → UnbondingEntry)
      (hpercent : percent ≤ 100)
      (hloop : slashLoop percent time walkFuel L.staking.entries
        (slashBonded L.staking v percent).2 (L.staking.perValUnbondingHead v) =
          .ok (entries, total))
      (hfunds : total ≤ L.balance stakingAddress) :
      Move 0 L
        ⟨{ (slashBonded L.staking v percent).1 with entries },
          update L.balance stakingAddress (L.balance stakingAddress - total)⟩
  /-- A part of one stake is burned. -/
  | burn (L : Ledger) (v : Address) (amount : Nat) (hle : amount ≤ L.staking.stakeAmount v)
      (hfunds : amount ≤ L.balance stakingAddress) :
      Move 0 L
        ⟨L.staking.setBonded v (L.staking.stakeAmount v - amount) (L.staking.totalStaked - amount),
          update L.balance stakingAddress (L.balance stakingAddress - amount)⟩
  /-- The tail of the queue is trimmed. -/
  | trim (L : Ledger) (ops : Nat) :
      Move 0 L
        ⟨{ L.staking with
            unbondingCount := trimTail L.staking.entries ops L.staking.unbondingCount },
          L.balance⟩

/-- A sequence of moves with its number of appended entries. -/
inductive Moves : Nat → Ledger → Ledger → Prop
  | refl (L : Ledger) : Moves 0 L L
  | cons {k n : Nat} {L L' L'' : Ledger} (hmove : Move k L L') (hmoves : Moves n L' L'') :
      Moves (k + n) L L''

variable {amount k m n percent slash timestamp total : Nat}

theorem Moves.single {L L' : Ledger} (h : Move k L L') : Moves k L L' :=
  .cons h (.refl L')

theorem Moves.append {L L' L'' : Ledger} (h : Moves m L L') (h' : Moves n L' L'') :
    Moves (m + n) L L'' := by
  induction h with
  | refl L => simpa using h'
  | cons hmove _ ih => exact Nat.add_assoc _ _ _ ▸ .cons hmove (ih h')

theorem moves_of_sameLedger {w w' : World} (h : SameLedger w w') :
    Moves 0 (ledger w) (ledger w') := by
  have hledger : ledger w' = ledger w := by
    unfold ledger
    rw [h.1, h.2]
  exact hledger ▸ .refl _

variable {validator : Address}

/-- Moving nothing changes no balance. -/
@[simp] theorem moveBalance_zero (balance : Address → Nat) (src dst : Address) :
    moveBalance balance src dst 0 = balance := by
  simp [moveBalance]

variable {X : Externals} {env : BlockEnv} {w w' : World} {u : Unit}

/-! ### One lemma per call -/

variable {sender : Sender}

theorem moves_stakePayable
    (h : Ok (stakePayable X sender validator amount) w u w') : Moves 0 (ledger w) (ledger w') := by
  simp only [stakePayable, ok_bind, ok_onBalances_transfer, ok_stake] at h
  obtain ⟨_, _, ⟨hfunds, hroom, rfl⟩, _, hcaller, _, vs, _, rfl⟩ := h
  subst hcaller
  have hheld : w.balance stakingAddress + amount < 2 ^ 256 := by
    rwa [update_of_ne sender.ne_staking.symm] at hroom
  exact .single (.stake (ledger w) sender.address amount sender.ne_staking hfunds hheld)

theorem moves_unstake
    (h : Ok (unstake X env sender.address amount) w u w') : Moves 1 (ledger w) (ledger w') := by
  obtain ⟨hamount, hle, completeTime, _, vs, _, rfl⟩ := ok_unstake.mp h
  exact .single (.unbond (ledger w) sender.address amount completeTime _ sender.ne_zero hamount hle
    fun hsub hlt => wrappingSub_eq hsub hlt)

theorem moves_claimUnbonded (h : Ok (claimUnbonded X env sender.address) w u w') :
    Moves 0 (ledger w) (ledger w') := by
  obtain ⟨c, hloop, w₁, w₂, rfl, hpay, hfinal⟩ := ok_claimUnbonded.mp h
  have hpaid : Moves 0 (ledger w) (ledger w₂) := by
    by_cases hzero : c.totalClaimable = 0
    · rw [ok_when] at hpay
      obtain ⟨hne, _⟩ | ⟨_, rfl⟩ := hpay
      · exact absurd hzero hne
      · have hmove := Move.claim (ledger w) sender.address env.timestamp c sender.ne_staking hloop
          (hzero ▸ Nat.zero_le _)
        rw [hzero, moveBalance_zero] at hmove
        exact .single hmove
    · rw [ok_when] at hpay
      obtain ⟨_, hpay⟩ | ⟨hne, _⟩ := hpay
      · obtain ⟨hfunds, _, rfl⟩ := ok_onBalances_transfer.mp hpay
        exact .single
          (.claim (ledger w) sender.address env.timestamp c sender.ne_staking hloop hfunds)
      · exact absurd hzero hne
  exact hpaid.append (moves_of_sameLedger (sameLedger_finalizeInactiveIfComplete hfinal))

/-- Burning from the contract's balance; a zero burn is skipped. -/
theorem ok_burnUnlessZero
    (h : Ok (when (amount ≠ 0) (onBalances (decreaseBalance stakingAddress amount))) w u w') :
    amount ≤ w.balance stakingAddress ∧ w' = { w with
      balance := update w.balance stakingAddress
        (w.balance stakingAddress - amount) } := by
  obtain ⟨_, hburn⟩ | ⟨hzero, rfl⟩ := ok_when.mp h
  · exact ok_onBalances_burn.mp hburn
  · rw [not_not.mp hzero]
    exact ⟨Nat.zero_le _, by simp⟩

theorem moves_slashStake
    (h : Ok (slashStake X env validator percent) w total w') : Moves 0 (ledger w) (ledger w') := by
  obtain ⟨hpercent, queued, hqueue, w₁, hburn, vs, _, rfl⟩ := ok_slashStake.mp h
  obtain ⟨delay, time, entries, _, _, hloop, rfl⟩ := ok_slashQueue.mp hqueue
  obtain ⟨hfunds, rfl⟩ := ok_burnUnlessZero hburn
  have hstore := slashBonded_frame w.staking validator percent
  rw [hstore.1, hstore.2.1] at hloop
  exact .single (.slash (ledger w) validator percent time total entries hpercent hloop hfunds)

theorem moves_ocompBondedSlash
    (h : Ok (ocompBondedSlash X validator) w slash w') : Moves 0 (ledger w) (ledger w') := by
  obtain ⟨rfl, _, w₁, hburn, vs, _, rfl⟩ := ok_ocompBondedSlash.mp h
  obtain ⟨hfunds, rfl⟩ := ok_burnUnlessZero hburn
  exact .single (.burn (ledger w) validator _ (Nat.div_le_self _ _) hfunds)

theorem moves_recordOcompMiss {penalty : OcompMissPenalty}
    (h : Ok (recordOcompMiss X env validator) w penalty w') : Moves 0 (ledger w) (ledger w') := by
  obtain ⟨miss, vs, _, ⟨_, _, slashed, _, hslash, _⟩ | ⟨_, _, _, rfl, _⟩⟩ :=
    recordOcompMiss_cases h
  · have hmoves : Moves 0 (ledger { w with validatorSet := vs }) (ledger w') :=
      moves_ocompBondedSlash hslash
    exact hmoves
  · exact .refl _

/-! ### The per-block call -/

/-- Whether the per-block call moves a validator's stake into the queue. -/
def movesStake (X : Externals) (w : World) (v : Address) : Bool :=
  match validatorLifecycle X w.validatorSet v with
  | .ok (.unbonding _) => decide (w.staking.stakeAmount v ≠ 0)
  | _ => false

variable {a v : Address}

theorem movesStake_eq_true :
    movesStake X w v = true ↔
      (∃ s, validatorLifecycle X w.validatorSet v = .ok (.unbonding s)) ∧
        w.staking.stakeAmount v ≠ 0 := by
  unfold movesStake
  split
  · rename_i s hs
    simp [hs]
  · rename_i hother
    simp only [Bool.false_eq_true, false_iff, not_and]
    rintro ⟨s, hs⟩
    exact absurd hs (hother s)

/-- Whether a validator's stake moves depends on its own state and stake. -/
theorem movesStake_congr (hstate : validatorState X w'.validatorSet a =
      validatorState X w.validatorSet a)
    (hstake : w'.staking.stakeAmount a = w.staking.stakeAmount a) :
    movesStake X w' a = movesStake X w a := by
  simp only [movesStake, validatorLifecycle, hstate, hstake]

/-- One validator's turn appends an entry only for a validator whose stake it moves, and no other
validator becomes due by it. -/
theorem moves_processValidator (hv : v ≠ 0) (h : Ok (processValidator X env timestamp v) w u w') :
    Moves (movesStake X w v).toNat (ledger w) (ledger w') ∧
      ∀ a, movesStake X w' a = true → movesStake X w a = true ∧ a ≠ v := by
  obtain ⟨state, s, hstate, hs, hstake, hmove⟩ | ⟨hstake, hfinal⟩ | ⟨hother, rfl⟩ :=
    processValidator_cases h
  · have hdue : movesStake X w v = true :=
      movesStake_eq_true.mpr ⟨⟨s, by simp [validatorLifecycle, hstate, hs]⟩, hstake⟩
    obtain ⟨hle, _, _, completeTime, _, vs, hunstake, rfl⟩ := ok_moveToQueue.mp hmove
    obtain ⟨l, next, setChange, hcommit, _⟩ := recordUnstake_commits hunstake
    refine ⟨?_, fun a ha => ?_⟩
    · have hunbond := Move.unbond (ledger w) v (w.staking.stakeAmount v) completeTime
        (w.staking.totalStaked - w.staking.stakeAmount v) hv hstake (Nat.le_refl _) fun _ _ => rfl
      simp only [ledger, Nat.sub_self] at hunbond
      rw [hdue]
      exact .single hunbond
    · by_cases hav : a = v
      · have hzero := (movesStake_eq_true.mp ha).2
        simp [hav, Store.enqueueUnbonding, hstake, Store.setBonded] at hzero
      · refine ⟨?_, hav⟩
        rw [← ha]
        refine (movesStake_congr (hcommit.validatorState_of_ne hav) ?_).symm
        simp [Store.enqueueUnbonding, hstake, Store.setBonded, hav]
  · have hnot : movesStake X w v = false := by
      by_contra hdue
      exact (movesStake_eq_true.mp (by simpa using hdue)).2 hstake
    have hsame := sameLedger_finalizeInactiveIfComplete hfinal
    refine ⟨hnot ▸ moves_of_sameLedger hsame, fun a ha => ?_⟩
    have hav : a ≠ v := by
      rintro rfl
      exact (movesStake_eq_true.mp ha).2 (by rw [hsame.1]; exact hstake)
    refine ⟨?_, hav⟩
    obtain ⟨complete, vs, _, hcomplete, rfl⟩ := ok_finalizeInactiveIfComplete.mp hfinal
    have hstate : validatorState X vs a = validatorState X w.validatorSet a := by
      obtain ⟨_, hcomplete⟩ | ⟨_, rfl⟩ := ok_when.mp hcomplete
      · exact completeUnbonding_validatorState_of_ne hcomplete hav
      · rfl
    have hdue : movesStake X { w with validatorSet := vs } a = movesStake X w a :=
      movesStake_congr hstate rfl
    exact hdue ▸ ha
  · have hnot : movesStake X w' v = false := by
      by_contra hdue
      obtain ⟨⟨s, hs⟩, _⟩ := movesStake_eq_true.mp (by simpa using hdue)
      obtain ⟨state, hstate, he⟩ := map_eq_ok.mp hs
      exact hother state s hstate he.symm
    refine ⟨hnot ▸ .refl _, fun a ha => ⟨ha, ?_⟩⟩
    rintro rfl
    rw [hnot] at ha
    cases ha

/-- The loop appends at most one entry for each validator whose stake is due. -/
theorem moves_processLoop :
    ∀ {l : List Address} {w w' : World}, (∀ v ∈ l, v ≠ 0) →
      Ok (l.forM (processValidator X env timestamp)) w () w' →
      ∃ n ≤ l.countP (movesStake X w), Moves n (ledger w) (ledger w') := by
  intro l
  induction l with
  | nil =>
    intro w w' _ h
    obtain rfl := (ok_pure.mp h).2
    exact ⟨0, Nat.zero_le _, .refl _⟩
  | cons v l ih =>
    intro w w' hne h
    simp only [forM_eq_forM, forM_cons, rules] at h
    obtain ⟨w₁, hv, hrest⟩ := h
    obtain ⟨hmoves, hdue⟩ := moves_processValidator (hne v mem_cons_self) hv
    obtain ⟨n, hn, hmoves'⟩ := ih (fun a ha => hne a (mem_cons_of_mem v ha)) hrest
    -- Nobody else's stake became due, so the count over the rest has not grown.
    have hmono : l.countP (movesStake X w₁) ≤ l.countP (movesStake X w) :=
      countP_mono_left fun a _ ha => (hdue a ha).1
    refine ⟨(movesStake X w v).toNat + n, ?_, hmoves.append hmoves'⟩
    rw [countP_cons]
    cases movesStake X w v <;> simp <;> omega

/-! ### Every call -/

/-- Unbonding entries an operation appends when it succeeds. -/
def newEntries (X : Externals) (w : World) : Op → Nat
  | .unstake _ _ => 1
  | .processUnbonding _ =>
    match registeredValidatorAddresses w.validatorSet with
    | .ok validators => validators.countP (movesStake X w)
    | .error _ => 0
  | _ => 0

theorem moves_processUnbonding (h : Ok (processUnbonding X env timestamp) w u w') :
    ∃ n ≤ newEntries X w (.processUnbonding timestamp), Moves n (ledger w) (ledger w') := by
  obtain ⟨validators, hvalidators, w₁, hloop, rfl⟩ := ok_processUnbonding.mp h
  obtain ⟨n, hn, hmoves⟩ := moves_processLoop
    (ne_zero_of_registeredValidatorAddresses hvalidators) hloop
  refine ⟨n, ?_, hmoves.append (.single (.trim (ledger w₁) maxCompactionPerBlock))⟩
  rw [newEntries, hvalidators]
  exact hn

/-- Every successful call is a sequence of ledger moves. -/
theorem moves_of_call {op : Op} (h : Ok (op.call X env) w () w') :
    ∃ n ≤ newEntries X w op, Moves n (ledger w) (ledger w') := by
  have hzero : Moves 0 (ledger w) (ledger w') →
      ∃ n ≤ newEntries X w op, Moves n (ledger w) (ledger w') :=
    fun hmoves => ⟨0, Nat.zero_le _, hmoves⟩
  cases op with
  | stake sender validator amount => exact hzero (moves_stakePayable h)
  | unstake sender amount => exact ⟨1, le_refl 1, moves_unstake h⟩
  | claimUnbonded sender => exact hzero (moves_claimUnbonded h)
  | unjailValidator sender =>
    simp only [Op.call, unjailValidator, rules] at h
    obtain ⟨_, h⟩ := h
    exact hzero (moves_of_sameLedger (sameLedger_onValidatorSet h))
  | slashStake validator percent =>
    obtain ⟨_, h⟩ := ok_discard.mp h
    exact hzero (moves_slashStake h)
  | recordOcompMiss validator =>
    obtain ⟨_, h⟩ := ok_discard.mp h
    exact hzero (moves_recordOcompMiss h)
  | resolveDueOcompRecoveryWindow validator =>
    obtain ⟨_, h⟩ := ok_discard.mp h
    exact hzero (moves_of_sameLedger (sameLedger_resolveDueOcompRecoveryWindow h))
  | closeDueOcompRecoveryWindows =>
    obtain ⟨_, h⟩ := ok_discard.mp h
    exact hzero (moves_of_sameLedger (sameLedger_closeDueOcompRecoveryWindows h))
  | processUnbonding timestamp => exact moves_processUnbonding h
  | _ => exact hzero (moves_of_sameLedger (sameLedger_onValidatorSet h))

end Rudis.Staking
