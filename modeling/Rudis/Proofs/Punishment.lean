import Rudis.Proofs.Staking.Solvency
import Rudis.Proofs.Consistency

/-!
# `Rudis.Proofs.Punishment`: jailing and slashing one validator

What `jail_validator` and `slash_stake` do to the validator they name, when they succeed, and
that they leave everybody else alone. Jailing succeeds for an active validator and is a no-op
for one that is jailed or on its way out (`jails_iff`); a slash needs a state with stake, a
withdrawal time that fits and a solvent contract (`slashStake_succeeds`).
-/

namespace Rudis

open Staking
open Tx
open ValidatorSet (ValidatorLifecycle Payload JailPayload validatorState Commits jailValidator stakeSlashNext punishNext commitLifecycle readState decodeSlots_ok validatorState_eq_ok ok_commitLifecycle recordStakeSlash)

variable {X : Externals} {env : BlockEnv} {addr : Address} {u : Unit} {w w' : World}
  {vs vs' : ValidatorSet.Store}

/-! ### Frames -/

theorem jailValidator_frame (h : Ok (jailValidator X env addr) vs u vs') :
    vs'.registry = vs.registry ∧ ∀ a, a ≠ addr → vs'.val a = vs.val a := by
  simp only [jailValidator, rules] at h
  obtain ⟨_, _, hpunish, _, rfl⟩ := h
  rcases ValidatorSet.punishValidator_commits hpunish with ⟨_, rfl⟩ | ⟨_, l, next, hcommit, _⟩
  · exact ⟨rfl, fun _ _ => rfl⟩
  · exact ⟨hcommit.frame.1, hcommit.frame.2.2.2.2⟩

variable {percent total : Nat}

/-- What a slash has written: the books of the validator, and the mirror of its stake. -/
theorem slashStake_cases (h : Ok (slashStake X env addr percent) w total w') :
    ∃ time entries l next setChange,
      (∃ delay, w.staking.slashedWithdrawalDelay = .ok delay ∧
        checkedCompleteTime env.timestamp delay = .ok time) ∧
      slashLoop percent time walkFuel w.staking.entries
        (slashBonded w.staking addr percent).2 (w.staking.perValUnbondingHead addr) =
          .ok (entries, total) ∧
      w'.staking = { (slashBonded w.staking addr percent).1 with entries } ∧
      Commits X addr l next setChange w.validatorSet w'.validatorSet ∧
      stakeSlashNext l (w'.staking.stakeAmount addr) w'.staking.configMinStake none
        env.blockNumber = .ok (next, setChange) := by
  obtain ⟨_, queued, hqueued, w₁, hburn, vs, hmirror, rfl⟩ := ok_slashStake.mp h
  obtain ⟨delay, time, entries, hdelay, htime, hloop, rfl⟩ := ok_slashQueue.mp hqueued
  obtain ⟨l, next, setChange, hcommit, hnext⟩ := ValidatorSet.recordStakeSlash_commits hmirror
  obtain ⟨_, rfl⟩ := ok_burnUnlessZero hburn
  have hstore := slashBonded_frame w.staking addr percent
  rw [hstore.1, hstore.2.1] at hloop
  have hconfig : (slashBonded w.staking addr percent).1.slashedWithdrawalDelay =
      w.staking.slashedWithdrawalDelay := by
    rw [slashBonded_eq]
    split <;> rfl
  rw [hconfig] at hdelay
  exact ⟨time, entries, l, next, setChange, ⟨delay, hdelay, htime⟩, hloop, rfl, hcommit, hnext⟩

theorem slashBonded_stakeAmount_of_ne {a : Address} (ha : a ≠ addr) (s : Store) (percent : Nat) :
    (slashBonded s addr percent).1.stakeAmount a = s.stakeAmount a := by
  rw [slashBonded_eq]
  split
  · rfl
  · exact update_of_ne ha _ _

theorem slashBonded_stakeAmount_self (s : Store) (percent : Nat) :
    (slashBonded s addr percent).1.stakeAmount addr =
      s.stakeAmount addr - wrappingMul 256 (s.stakeAmount addr) percent / 100 := by
  rw [slashBonded_eq]
  split
  · rename_i hzero
    rw [hzero, Nat.zero_sub]
  · exact update_self _ _ _

theorem slashStake_frame (h : Ok (slashStake X env addr percent) w total w') :
    w'.validatorSet.registry = w.validatorSet.registry ∧
      (∀ a, a ≠ addr → w'.validatorSet.val a = w.validatorSet.val a) ∧
      (∀ a, a ≠ addr → w'.staking.stakeAmount a = w.staking.stakeAmount a) ∧
      w'.staking.slashedWithdrawalDelay = w.staking.slashedWithdrawalDelay ∧
      ∀ {lists : Address → List Nat}, Queue w.staking lists →
        Queue w'.staking lists ∧
          ∀ a, a ≠ addr → ∀ i ∈ lists a, w'.staking.entries i = w.staking.entries i := by
  obtain ⟨time, entries, l, next, setChange, -, hloop, hstaking, hcommit, -⟩ := slashStake_cases h
  have hstore := slashBonded_frame w.staking addr percent
  refine ⟨hcommit.frame.1, hcommit.frame.2.2.2.2, fun a ha => ?_, ?_, fun hq => ?_⟩
  · rw [hstaking]
    exact slashBonded_stakeAmount_of_ne ha w.staking percent
  · rw [hstaking, slashBonded_eq]
    split <;> rfl
  · have hbonded := slashBonded_queue w.staking addr percent hq
    rw [← hstore.1, ← hstore.2.1] at hloop
    obtain ⟨rfl, -⟩ := slash_of_queue hbonded (slashBonded_snd_lt w.staking addr percent) hloop
    rw [hstaking]
    refine ⟨hbonded.slash addr percent time, fun a ha i hi => ?_⟩
    have hnotin : i ∉ _ := fun hmem => ha (hbonded.disjoint hi hmem)
    show slashAt percent time _ _ i = _
    rw [slashAt, if_neg hnotin, hstore.1]

/-! ### Jailing -/

/-- The record of an active validator after it was jailed. -/
def jailedFrom (p : Payload) (height : Nat) : JailPayload :=
  { p with
    history := { p.history with
      lastDeactivatedAtHeight := some height, slashCount := p.history.slashCount + 1 }
    jailedAt := height }

/-- What jailing does to a state: the next state of an active validator whose slash count can
still grow, nothing for one already on its way out; the rest are refused. -/
def jailOutcome (height : Nat) : ValidatorLifecycle → Option (Option ValidatorLifecycle)
  | .active p =>
    if p.history.slashCount + 1 < 2 ^ 64 then some (some (.jailRetained (jailedFrom p height)))
    else none
  | .jailRetained _ | .jail _ | .exiting _ | .unbonding _ | .inactive _ => some none
  | _ => none

variable {l : ValidatorLifecycle} {amount height : Nat}

theorem punishNext_eq_outcome (hheight : height ≠ 0)
    {r : Option ValidatorLifecycle} :
    punishNext l true height = .ok r ↔ jailOutcome height l = some r := by
  cases l with
  | active p =>
    have hbody : punishNext (.active p) true height = (do
        let slashCount ← okOr (checkedAdd 64 p.history.slashCount 1) (.fatal "slash count overflow")
        pure (some (.jailRetained { jailedFrom p height with
          history := { p.history with
            lastDeactivatedAtHeight := some height, slashCount } }))) := by
      simp [punishNext, ValidatorSet.punishTarget, ValidatorSet.StateMachine.jail,
        ValidatorSet.StateMachine.withHistory, throwIf, hheight, jailedFrom, bind,
        Except.bind, pure, Except.pure, Functor.map, Except.map]
    rw [hbody]
    simp only [laws, checkedAdd_eq_some, jailOutcome]
    split
    · rename_i hlt
      constructor
      · rintro ⟨_, ⟨_, rfl⟩, rfl⟩
        rfl
      · intro h
        exact ⟨_, ⟨hlt, rfl⟩, (Option.some.inj h).symm⟩
    · rename_i hlt
      constructor
      · rintro ⟨_, ⟨hlt', rfl⟩, _⟩
        exact absurd hlt' hlt
      · intro h
        cases h
  | absent | waitingForStake s | waitingForReadiness s | joining s =>
    simp [punishNext, punishNext.refuse, jailOutcome]
  | jailRetained s | jail s | exiting s | unbonding s | inactive s =>
    simp only [punishNext, if_true, pure_eq_ok, jailOutcome, Option.some.injEq]
    exact eq_comm

/-- Jailing writes what it does to the state it reads. -/
theorem ok_jailValidator
    (hread : validatorState X vs addr = .ok ⟨addr, l⟩) (hheight : env.blockNumber ≠ 0) :
    Ok (jailValidator X env addr) vs u vs' ↔
      (jailOutcome env.blockNumber l = some none ∧ vs' = vs) ∨
        ∃ next, jailOutcome env.blockNumber l = some (some next) ∧
          Ok (commitLifecycle ⟨addr, l⟩ next true) vs () vs' := by
  simp only [jailValidator, ValidatorSet.punishValidator, readState, rules, hread, Except.ok.injEq,
    ↓existsAndEq, punishNext_eq_outcome hheight, Option.exists]
  simp

/-- A jailed active validator is a valid state. -/
theorem validate_jailedFrom {p : Payload} (hheight : height ≠ 0)
    (h : (ValidatorLifecycle.active p).validate addr = .ok ()) :
    (ValidatorLifecycle.jailRetained (jailedFrom p height)).validate addr = .ok () := by
  obtain ⟨hkey, hhint, -, -⟩ := ValidatorLifecycle.validate_eq_ok.mp h
  refine ValidatorLifecycle.validate_eq_ok.mpr ⟨hkey, hhint, ?_, ?_⟩
  · exact fun he => hheight (Option.some.inj he)
  · simp [ValidatorLifecycle.validateVariant, jailedFrom, hheight]

/-- The state after jailing. -/
def jailed (height : Nat) : ValidatorLifecycle → ValidatorLifecycle
  | .active p => .jailRetained (jailedFrom p height)
  | l => l

/-- Whether jailing accepts a state. -/
def Jailable : ValidatorLifecycle → Prop
  | .active p => p.history.slashCount + 1 < 2 ^ 64
  | .jailRetained _ | .jail _ | .exiting _ | .unbonding _ | .inactive _ => True
  | _ => False

/-- Jailing succeeds exactly for the states it accepts, and the address reads as jailed. -/
theorem jails_iff (hread : validatorState X vs addr = .ok ⟨addr, l⟩)
    (hheight : env.blockNumber ≠ 0) :
    (Jailable l ↔ ∃ vs', Ok (jailValidator X env addr) vs () vs') ∧
      ∀ vs', Ok (jailValidator X env addr) vs u vs' →
        validatorState X vs' addr = .ok ⟨addr, jailed env.blockNumber l⟩ := by
  have hcanon := (decodeSlots_ok (validatorState_eq_ok.mp hread).1).2.2
  cases l with
  | active p =>
    by_cases hlt : p.history.slashCount + 1 < 2 ^ 64
    · have houtcome : jailOutcome env.blockNumber (.active p) =
          some (some (.jailRetained (jailedFrom p env.blockNumber))) := if_pos hlt
      refine ⟨⟨fun _ => ?_, fun _ => hlt⟩, fun vs' h => ?_⟩
      · have hcommit : Ok (commitLifecycle ⟨addr, .active p⟩
            (.jailRetained (jailedFrom p env.blockNumber)) true) vs () _ :=
          ok_commitLifecycle.mpr ⟨hcanon.validate,
            validate_jailedFrom hheight hcanon.validate, rfl, rfl, rfl⟩
        exact ⟨_, (ok_jailValidator hread hheight).mpr (.inr ⟨_, houtcome, hcommit⟩)⟩
      · rcases (ok_jailValidator hread hheight).mp h with ⟨hnone, _⟩ | ⟨next, hnext, hcommit⟩
        · rw [houtcome] at hnone
          cases hnone
        · rw [houtcome] at hnext
          cases hnext
          exact (ValidatorSet.commits_of_ok hread hcommit).read_next_of_p2p rfl
    · have houtcome : jailOutcome env.blockNumber (.active p) = none := if_neg hlt
      have hfails : ∀ vs' u, ¬ Ok (jailValidator X env addr) vs u vs' := by
        intro vs' u h
        rcases (ok_jailValidator hread hheight).mp h with ⟨hnone, _⟩ | ⟨_, hnext, _⟩
        · rw [houtcome] at hnone
          cases hnone
        · rw [houtcome] at hnext
          cases hnext
      exact ⟨⟨fun hl => absurd hl hlt, fun ⟨vs', h⟩ => absurd h (hfails vs' ())⟩,
        fun vs' h => absurd h (hfails vs' u)⟩
  | absent | waitingForStake s | waitingForReadiness s | joining s =>
    have hfails : ∀ vs' u, ¬ Ok (jailValidator X env addr) vs u vs' := by
      intro vs' u h
      rcases (ok_jailValidator hread hheight).mp h with ⟨hnone, _⟩ | ⟨_, hnext, _⟩
      · cases hnone
      · cases hnext
    exact ⟨⟨False.elim, fun ⟨vs', h⟩ => hfails vs' () h⟩, fun vs' h => absurd h (hfails vs' u)⟩
  | jailRetained s | jail s | exiting s | unbonding s | inactive s =>
    refine ⟨⟨fun _ => ⟨vs, (ok_jailValidator hread hheight).mpr (.inl ⟨rfl, rfl⟩)⟩,
      fun _ => trivial⟩, fun vs' h => ?_⟩
    rcases (ok_jailValidator hread hheight).mp h with ⟨_, rfl⟩ | ⟨_, hnext, _⟩
    · exact hread
    · cases hnext

/-! ### Slashing -/

/-- The withdrawal time that a slash gives the entries it touches fits its `u64`. -/
def SlashTimeFits (env : BlockEnv) (s : Store) : Prop :=
  ∃ delay time, s.slashedWithdrawalDelay = .ok delay ∧
    checkedCompleteTime env.timestamp delay = .ok time

/-- The same state with another bonded stake. -/
def withBonded (bonded : Nat) : ValidatorLifecycle → ValidatorLifecycle
  | .jailRetained s => .jailRetained { s with stake := ⟨bonded, s.stake.unbondingEndHint⟩ }
  | .jail s => .jail { s with stake := ⟨bonded, s.stake.unbondingEndHint⟩ }
  | .exiting s => .exiting { s with stake := ⟨bonded, s.stake.unbondingEndHint⟩ }
  | .unbonding s => .unbonding { s with stake := ⟨bonded, s.stake.unbondingEndHint⟩ }
  | l => l

/-- A state that a slash leaves in place. -/
def Settled : ValidatorLifecycle → Prop
  | .jailRetained _ | .jail _ | .exiting _ | .unbonding _ => True
  | _ => False

theorem stakeSlashNext_settled (hl : Settled l)
    (hvalid : l.validate addr = .ok ()) (bonded minimum height : Nat) :
    stakeSlashNext l bonded minimum none height = .ok (withBonded bonded l, false) := by
  obtain ⟨-, hhint, -, -⟩ := ValidatorLifecycle.validate_eq_ok.mp hvalid
  cases l with
  | jailRetained s | jail s | exiting s | unbonding s =>
    have hhint : s.stake.unbondingEndHint ≠ some 0 := hhint
    simp [stakeSlashNext, ValidatorSet.StateMachine.withStake,
      ValidatorSet.StateMachine.requireCanonicalStake, ValidatorLifecycle.unbondingEndHint,
      ValidatorLifecycle.stake, throwIf, hhint, withBonded, bind, Except.bind, pure,
      Except.pure, Functor.map, Except.map]
  | absent | waitingForStake s | waitingForReadiness s | joining s | active s | inactive s =>
    exact False.elim hl

theorem validate_withBonded (hvalid : l.validate addr = .ok ())
    (bonded : Nat) : (withBonded bonded l).validate addr = .ok () := by
  obtain ⟨hkey, hhint, hdeactivated, hvariant⟩ := ValidatorLifecycle.validate_eq_ok.mp hvalid
  refine ValidatorLifecycle.validate_eq_ok.mpr ?_
  cases l <;> exact ⟨hkey, hhint, hdeactivated, hvariant⟩

variable {lists : Address → List Nat}

/-- The funds of a solvent contract cover every slash. -/
theorem slash_le_balance {percent time total : Nat}
    {entries : Nat → UnbondingEntry} (hs : Solvent (ledger w) lists) (hpercent : percent ≤ 100)
    (hloop : slashLoop percent time walkFuel w.staking.entries
      (slashBonded w.staking addr percent).2 (w.staking.perValUnbondingHead addr) =
        .ok (entries, total)) : total ≤ w.balance stakingAddress := by
  obtain ⟨hbonded, hslashed⟩ := hs.books.slashBonded addr hpercent hs.total_lt
  have hstore := slashBonded_frame w.staking addr percent
  rw [← hstore.1, ← hstore.2.1] at hloop
  obtain ⟨-, htotal⟩ := slash_of_queue hbonded.queue
    (slashBonded_snd_lt w.staking addr percent) hloop
  have hqueued := hbonded.sum_slashOf_le addr hpercent
  have hsame : queued (slashBonded w.staking addr percent).1 = queued w.staking := by
    rw [queued, queued, hstore.1, hstore.2.2]
  have hheld : w.balance stakingAddress = w.staking.totalStaked + queued w.staking :=
    hs.books.held_eq
  have hstake : w.staking.stakeAmount addr ≤ w.staking.totalStaked := hs.books.stake_le addr
  have hslashed : (slashBonded w.staking addr percent).2 ≤ w.staking.stakeAmount addr :=
    hslashed
  rw [htotal]
  refine (mod_le _ _).trans ?_
  have hqueued := le_of_le_of_eq hqueued hsame
  omega

/-- The slash writes the mirror of the stake it has left. -/
theorem recordStakeSlash_settled (hl : Settled l)
    (hread : validatorState X vs addr = .ok ⟨addr, l⟩) (bonded minimum : Nat) :
    ∃ vs', Ok (recordStakeSlash X env addr bonded minimum none) vs () vs' := by
  have hcanon := (decodeSlots_ok (validatorState_eq_ok.mp hread).1).2.2
  have hcommit : Ok (commitLifecycle ⟨addr, l⟩ (withBonded bonded l) false) vs () _ :=
    ok_commitLifecycle.mpr ⟨hcanon.validate,
      validate_withBonded hcanon.validate bonded, by cases l <;> rfl, by cases l <;> rfl, rfl⟩
  simp only [recordStakeSlash, readState, ok_bind, ok_query, ok_ofExcept, hread]
  exact ⟨_, _, _, ⟨rfl, rfl⟩, (withBonded bonded l, false), _,
    ⟨stakeSlashNext_settled hl hcanon.validate bonded minimum env.blockNumber, rfl⟩, hcommit⟩

/-- A burn that the balance covers succeeds; a zero burn is skipped. -/
theorem burn_succeeds (h : amount ≤ w.balance stakingAddress) :
    Ok (when (amount ≠ 0) (onBalances (decreaseBalance stakingAddress amount))) w ()
      { w with
        balance := update w.balance stakingAddress
          (w.balance stakingAddress - amount) } := by
  by_cases hzero : amount = 0
  · refine ok_when.mpr (.inr ⟨not_not.mpr hzero, ?_⟩)
    rw [hzero, Nat.sub_zero, update_eq_self]
  · exact ok_when.mpr (.inl ⟨hzero, ok_onBalances_burn.mpr ⟨h, rfl⟩⟩)

/-- A slash of a settled state succeeds when the withdrawal time fits. -/
theorem slashStake_succeeds {percent : Nat}
    (hread : validatorState X w.validatorSet addr = .ok ⟨addr, l⟩) (hl : Settled l)
    (hs : Solvent (ledger w) lists) (hpercent : percent ≤ 100)
    (hfits : SlashTimeFits env w.staking) :
    ∃ total w', Ok (slashStake X env addr percent) w total w' := by
  obtain ⟨delay, time, hdelay, htime⟩ := hfits
  have hq : Queue w.staking lists := hs.books.queue
  have hstore := slashBonded_frame w.staking addr percent
  obtain ⟨entries, total, hloop⟩ : ∃ entries total,
      slashLoop percent time walkFuel w.staking.entries
        (slashBonded w.staking addr percent).2 (w.staking.perValUnbondingHead addr) =
          .ok (entries, total) :=
    ⟨_, _, slashLoop_eq (hq.nodup addr) (hq.seg addr) (hq.length_lt_walkFuel addr)
      (slashBonded_snd_lt w.staking addr percent)⟩
  have hfunds := slash_le_balance hs hpercent hloop
  have hconfig : (slashBonded w.staking addr percent).1.slashedWithdrawalDelay =
      w.staking.slashedWithdrawalDelay := by
    rw [slashBonded_eq]
    split <;> rfl
  rw [← hstore.1, ← hstore.2.1] at hloop
  obtain ⟨vs', hmirror⟩ : ∃ vs', Ok (recordStakeSlash X env addr _ _ none)
      w.validatorSet () vs' := recordStakeSlash_settled hl hread
    ((slashBonded w.staking addr percent).1.stakeAmount addr)
    (slashBonded w.staking addr percent).1.configMinStake
  exact ⟨_, _, ok_slashStake.mpr ⟨hpercent, _, ok_slashQueue.mpr
    ⟨delay, time, _, hconfig.trans hdelay, htime, hloop, rfl⟩, _, burn_succeeds hfunds, vs',
    hmirror, rfl⟩⟩

/-- What a slash that succeeded has required, and the state it leaves. -/
theorem slashStake_read (hread : validatorState X w.validatorSet addr = .ok ⟨addr, l⟩)
    (h : Ok (slashStake X env addr percent) w total w') :
    SlashTimeFits env w.staking ∧ (∀ s, l ≠ .inactive s) ∧
      w'.staking.stakeAmount addr =
        w.staking.stakeAmount addr - wrappingMul 256 (w.staking.stakeAmount addr) percent / 100 ∧
      (Settled l → validatorState X w'.validatorSet addr =
        .ok ⟨addr, withBonded (w'.staking.stakeAmount addr) l⟩) := by
  obtain ⟨time, entries, l', next, setChange, ⟨delay, hdelay, htime⟩, hloop, hstaking, hcommit,
    hnext⟩ := slashStake_cases h
  have hcanon := (decodeSlots_ok (validatorState_eq_ok.mp hread).1).2.2
  have hsame : l' = l := by
    have hboth := hcommit.read.symm.trans hread
    cases hboth
    rfl
  subst hsame
  refine ⟨⟨delay, time, hdelay, htime⟩, fun s hs => ?_, ?_, fun hl => ?_⟩
  · rw [hs] at hnext
    cases hnext
  · rw [hstaking]
    exact slashBonded_stakeAmount_self w.staking percent
  · rw [stakeSlashNext_settled hl hcanon.validate] at hnext
    cases hnext
    exact hcommit.read_next_of_p2p (by cases l' <;> rfl)

/-! ### Invariants of the world -/

/-- Every sequence of changes keeps the world consistent. -/
theorem worldConsistent_of_changes {op : Op} (h : Changes X env op (view w) (view w'))
    (hw : WorldConsistent X w) : WorldConsistent X w' := by
  refine worldConsistent_iff.mpr ?_
  have hstart := worldConsistent_iff.mp hw
  generalize view w' = v at h
  induction h with
  | refl => exact hstart
  | tail _ hchange ih => exact View.Consistent.change hchange ih

theorem jailValidator_consistent {vs' : ValidatorSet.Store} (hw : WorldConsistent X w)
    (h : Ok (jailValidator X env addr) w.validatorSet u vs') :
    WorldConsistent X { w with validatorSet := vs' } := by
  simp only [jailValidator, rules] at h
  obtain ⟨_, _, hpunish, _, rfl⟩ := h
  have hchanges : Changes X env .resetEpochCounters (view w)
      (view { w with validatorSet := vs' }) := changes_punishValidator hpunish
  exact worldConsistent_of_changes hchanges hw

theorem slashStake_consistent (hw : WorldConsistent X w)
    (h : Ok (slashStake X env addr percent) w total w') : WorldConsistent X w' := by
  have hchanges : Changes X env .resetEpochCounters (view w) (view w') := changes_slashStake h
  exact worldConsistent_of_changes hchanges hw

end Rudis
