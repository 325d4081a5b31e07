import Rudis.Proofs.Changes

/-!
# `Rudis.Proofs.OcompWindows`: recovery windows over whole runs

A validator that misses an OCOMP vote gets a recovery window. `WindowStep` says what one call can
do to it: a window is opened by a recorded miss, with one slash of a tenth of the bonded stake;
while it is open its deadline stands and further misses cost nothing; it is closed by a resolution
at or after the deadline, which jails a still active validator exactly when its stake is below the
minimum. Every step of every run is one (`windowStep`), and `ocompWindow_of_run` reads off what
happens between the opening of a window and its resolution.
-/

namespace Rudis

open Staking (OcompMissPenalty OcompRecoveryResolution)
open ValidatorSet
open Tx

variable {X : Externals} {env : BlockEnv} {op : Op} {v : Address} {vs vs' : ValidatorSet.Store}
  {w w' : World}

/-- The recovery deadline of a validator; zero when no window is open. -/
def deadlineOf (w : World) (v : Address) : Nat := w.validatorSet.ocomp.recoveryDeadline v

/-- Whether an address is jailed and still holds its share. -/
def IsJailed (X : Externals) (vs : ValidatorSet.Store) (a : Address) : Prop :=
  ∃ s, validatorState X vs a = .ok ⟨a, .jailRetained s⟩

/-- The penalty an operation records against a validator. -/
def penaltyOf (X : Externals) (v : Address) (i : BlockEnv × Op) (w : World) :
    Option OcompMissPenalty :=
  match i.2 with
  | .recordOcompMiss u =>
    if u = v then ((Staking.recordOcompMiss X i.1 u).run w).1.toOption else none
  | _ => none

/-- The OCOMP slashes of a validator's bonded stake along a run, in order. -/
def slashesOf (X : Externals) (v : Address) : List (BlockEnv × Op) → World → List Nat
  | [], _ => []
  | i :: l, w =>
    (((penaltyOf X v i w).filter (·.firstInWindow)).map (·.slashedBonded)).toList ++
      slashesOf X v l (step X i w)

/-! ### Deadlines -/

variable {count count' d deadline height : Nat}

theorem recoveryDeadline_of_removals (h : Removals X count vs count' vs') :
    vs'.ocomp.recoveryDeadline = vs.ocomp.recoveryDeadline := by
  induction h with
  | nil => rfl
  | cons _ _ hremoves _ ih => exact ih.trans hremoves.recoveryDeadline

/-- A change leaves a deadline, sets it for a window that was closed, or clears it when due. -/
theorem Change.deadline_cases {x x' : View} (h : Change X env op x x') (v : Address) :
    x'.store.ocomp.recoveryDeadline v = x.store.ocomp.recoveryDeadline v ∨
    (op = .recordOcompMiss v ∧ x.store.ocomp.recoveryDeadline v = 0 ∧
      x'.store.ocomp.recoveryDeadline v = env.blockNumber + ocompRecoveryWindowBlocks) ∨
    (op.Resolves v ∧ x.store.ocomp.recoveryDeadline v ≤ env.blockNumber ∧
      x'.store.ocomp.recoveryDeadline v = 0) := by
  cases h with
  | commit h _ _ | restake h _ =>
    left
    rw [h.frame.2.2.1]
  | count h =>
    obtain ⟨addr, missedBlocks, missedVotes, blocksProposed, -, rfl⟩ := h
    exact .inl rfl
  | register h =>
    obtain ⟨-, -, -, s, nodeId, -, rfl⟩ := h
    exact .inl rfl
  | reregister h =>
    obtain ⟨-, -, -, -, -, -, rfl⟩ := h
    exact .inl rfl
  | cleanup h => exact .inl (congrFun (recoveryDeadline_of_removals h) v)
  | setDelegate _ h =>
    obtain ⟨-, -, -, -, rfl⟩ := h
    exact .inl rfl
  | revokeDelegate _ h =>
    obtain ⟨-, -, rfl⟩ := h
    exact .inl rfl
  | ocomp hwindow => exact .inl (congrFun hwindow v)
  | @openWindow addr vs stake hop hclosed =>
    by_cases hv : v = addr
    · subst hv
      exact .inr (.inl ⟨hop, hclosed, update_self ..⟩)
    · exact .inl (update_of_ne hv ..)
  | @closeWindow addr vs stake hop hdue =>
    by_cases hv : v = addr
    · subst hv
      exact .inr (.inr ⟨hop, hdue, update_self ..⟩)
    · exact .inl (update_of_ne hv ..)
  | quiet _ _ _ hocomp =>
    left
    rw [hocomp]

/-- While a window is open a step leaves its deadline or, when it is due, resolves it. -/
theorem deadline_of_open (X : Externals) (env : BlockEnv) (op : Op) (hopen : deadlineOf w v ≠ 0) :
    deadlineOf (step X (env, op) w) v = deadlineOf w v ∨
      (op.Resolves v ∧ deadlineOf w v ≤ env.blockNumber ∧
        deadlineOf (step X (env, op) w) v = 0) := by
  refine inv_of_step (I := fun x => x.store.ocomp.recoveryDeadline v = deadlineOf w v ∨
    (op.Resolves v ∧ deadlineOf w v ≤ env.blockNumber ∧ x.store.ocomp.recoveryDeadline v = 0))
    (fun {x x'} hchange hx => ?_) (.inl rfl)
  obtain hsame | ⟨hop, hclosed, -⟩ | ⟨hop, hdue, hzero⟩ := hchange.deadline_cases v
  · rw [hsame]
    exact hx
  -- A miss opens no window while one is open, and it is not a resolution.
  · obtain hd | ⟨hresolves, -⟩ := hx
    · exact absurd (hd.symm.trans hclosed) hopen
    · obtain heq | heq := hresolves <;> cases hop.symm.trans heq
  · right
    obtain hd | ⟨-, hd, -⟩ := hx
    · exact ⟨hop, hd ▸ hdue, hzero⟩
    · exact ⟨hop, hd, hzero⟩

variable {penalty : OcompMissPenalty}

/-- A step opens a window only by a recorded miss, for the full recovery time. -/
theorem deadline_of_closed (X : Externals) (env : BlockEnv) (op : Op)
    (hclosed : deadlineOf w v = 0) : deadlineOf (step X (env, op) w) v = 0 ∨
      (op = .recordOcompMiss v ∧
        deadlineOf (step X (env, op) w) v = env.blockNumber + ocompRecoveryWindowBlocks) := by
  refine inv_of_step (I := fun x => x.store.ocomp.recoveryDeadline v = 0 ∨
    (op = .recordOcompMiss v ∧
      x.store.ocomp.recoveryDeadline v = env.blockNumber + ocompRecoveryWindowBlocks))
    (fun {x x'} hchange hx => ?_) (.inl hclosed)
  obtain hsame | ⟨hop, -, hset⟩ | ⟨-, -, hzero⟩ := hchange.deadline_cases v
  · rw [hsame]
    exact hx
  · exact .inr ⟨hop, hset⟩
  · exact .inl hzero

/-! ### Penalties -/

theorem penaltyOf_eq_some {i : BlockEnv × Op} (h : penaltyOf X v i w = some penalty) :
    i.2 = .recordOcompMiss v ∧ Ok (Staking.recordOcompMiss X i.1 v) w penalty (step X i w) := by
  obtain ⟨env, op⟩ := i
  unfold penaltyOf at h
  split at h
  · rename_i u hop
    obtain rfl : op = .recordOcompMiss u := hop
    split at h
    · rename_i hu
      subst hu
      have hok : Ok (Staking.recordOcompMiss X env u) w penalty
          ((Staking.recordOcompMiss X env u).run w).2 := by
        refine Prod.ext ?_ rfl
        revert h
        cases ((Staking.recordOcompMiss X env u).run w).1 with
        | ok a => exact fun h => congrArg Except.ok (Option.some.inj h)
        | error e => exact fun h => nomatch h
      refine ⟨rfl, ?_⟩
      have hcall : Ok ((Op.recordOcompMiss u).call X env) w ()
          ((Staking.recordOcompMiss X env u).run w).2 := ok_discard.mpr ⟨penalty, hok⟩
      rw [step_of_ok hcall]
      exact hok
    · cases h
  · cases h

/-- The miss that opens a window takes a tenth of the bonded stake. -/
theorem penalty_of_closed
    (h : Ok (Staking.recordOcompMiss X env v) w penalty w') (hclosed : deadlineOf w v = 0) :
    penalty.firstInWindow = true ∧
      penalty.slashedBonded = w.staking.stakeAmount v / 10 ∧
      w'.staking.stakeAmount v = w.staking.stakeAmount v - w.staking.stakeAmount v / 10 := by
  obtain ⟨miss, vs, hmiss, hrest⟩ := Staking.recordOcompMiss_cases h
  obtain ⟨-, missCount, -, vs₁, -, ⟨-, rfl, -⟩ | ⟨hopen, -⟩⟩ := recordOcompMiss_vs_cases hmiss
  · obtain ⟨_, _, slashed, -, hslash, rfl⟩ | ⟨_, _, hrepeated, -⟩ := hrest
    · obtain ⟨hslashed, -, w₁, hburn, vs₂, -, rfl⟩ := Staking.ok_ocompBondedSlash.mp hslash
      refine ⟨rfl, hslashed, ?_⟩
      have hstaking : w₁.staking.stakeAmount v = w.staking.stakeAmount v - slashed := by
        obtain ⟨-, hburn⟩ | ⟨-, rfl⟩ := ok_when.mp hburn
        · obtain ⟨-, rfl⟩ := Staking.ok_onBalances_burn.mp hburn
          exact update_self ..
        · exact update_self ..
      rw [hslashed] at hstaking
      exact hstaking
    · cases hrepeated
  · exact absurd hclosed hopen

/-- A further miss costs nothing. -/
theorem penalty_of_open
    (h : Ok (Staking.recordOcompMiss X env v) w penalty w') (hopen : deadlineOf w v ≠ 0) :
    penalty.firstInWindow = false ∧ penalty.slashedBonded = 0 ∧ w'.staking = w.staking ∧
      w'.balance = w.balance := by
  obtain ⟨miss, vs, hmiss, hrest⟩ := Staking.recordOcompMiss_cases h
  obtain ⟨-, missCount, -, vs₁, -, ⟨hclosed, -⟩ | ⟨-, rfl, -⟩⟩ := recordOcompMiss_vs_cases hmiss
  · exact absurd hclosed hopen
  · obtain ⟨_, _, _, hopened, -⟩ | ⟨_, _, -, rfl, rfl⟩ := hrest
    · cases hopened
    · exact ⟨rfl, rfl, rfl, rfl⟩

/-! ### Resolutions -/

theorem punishNext_jail {l next : ValidatorLifecycle}
    (h : punishNext l true height = .ok (some next)) : ∃ s, next = .jailRetained s := by
  have hactive := (punishNext_ok h).1
  cases l with
  | active s =>
    simp only [punishNext, punishTarget, ↓reduceIte, bind_eq_ok, map_eq_ok] at h
    obtain ⟨target, ⟨jailed, -, rfl⟩, _, -, l', hhistory, he⟩ := h
    cases he
    simp only [StateMachine.withHistory, laws] at hhistory
    obtain ⟨_, -, _, -, rfl⟩ := hhistory
    exact ⟨_, rfl⟩
  | _ => cases hactive

theorem jailValidatorDeferred_jails {report : DeferredValidatorPunishment}
    (h : Ok (jailValidatorDeferred X env v) vs (some report) vs') :
    IsJailed X vs' v ∧ vs'.ocomp = vs.ocomp ∧
      ∀ a, a ≠ v → validatorState X vs' a = validatorState X vs a := by
  obtain ⟨hnone, -⟩ | ⟨-, l, next, hcommit, hnext⟩ := punishValidator_commits h
  · cases hnone
  · obtain ⟨s, rfl⟩ := punishNext_jail hnext
    have hp2p := (punishNext_ok hnext).2.2.1
    refine ⟨⟨s, hcommit.read_next fun p hp => ?_⟩, hcommit.frame.2.2.1,
      fun a ha => hcommit.validatorState_of_ne ha⟩
    exact hcommit.encodes.2.p2p p (hp2p ▸ hp)

/-- A due window is closed, and an active validator below the minimum is jailed. -/
structure Closes (X : Externals) (v : Address) (w w' : World) : Prop where
  closed : deadlineOf w' v = 0
  staking : w'.staking = w.staking
  jailed : IsActive X w.validatorSet v →
    w.staking.stakeAmount v < w.staking.configMinStake → IsJailed X w'.validatorSet v
  kept : w.staking.configMinStake ≤ w.staking.stakeAmount v →
    validatorState X w'.validatorSet v = validatorState X w.validatorSet v

/-- What one resolution does: it closes a window, and everybody else stays as they are. -/
structure Resolved (X : Externals) (v : Address) (w w' : World) : Prop extends
    Closes X v w w' where
  others : ∀ a, a ≠ v → deadlineOf w' a = deadlineOf w a ∧
    validatorState X w'.validatorSet a = validatorState X w.validatorSet a

/-- Closing a window leaves the other windows and every state. -/
theorem closed_of_resolve {vs₁ : ValidatorSet.Store} {u : Unit}
    (h : Ok (resolveOcompRecoveryWindow v deadline) vs₁ u w'.validatorSet) :
    deadlineOf w' v = 0 ∧
      (∀ a, a ≠ v → deadlineOf w' a = vs₁.ocomp.recoveryDeadline a) ∧
      ∀ a, validatorState X w'.validatorSet a = validatorState X vs₁ a := by
  obtain ⟨-, hvs⟩ := ok_resolveOcompRecoveryWindow.mp h
  simp only [deadlineOf, hvs]
  refine ⟨update_self .., fun a ha => update_of_ne ha .., fun a => ?_⟩
  exact validatorState_congr rfl rfl

theorem resolveDue_resolved {r : OcompRecoveryResolution}
    (h : Ok (Staking.resolveDue X env v deadline) w r w') : Resolved X v w w' := by
  obtain ⟨l, vs, hread, hresolve, hcases, hstaking⟩ := resolveDue_cases h
  obtain ⟨hclosed, hothers, hstate⟩ := closed_of_resolve (X := X) hresolve
  obtain ⟨rfl, hkeeps⟩ | ⟨hmin, report, hjail⟩ := hcases
  · refine ⟨⟨hclosed, hstaking, fun ⟨s, hs⟩ hlt => ?_, fun _ => hstate v⟩,
      fun a ha => ⟨hothers a ha, hstate a⟩⟩
    obtain hactive | hge := hkeeps
    · cases hread.symm.trans hs
      cases hactive
    · exact absurd hge (not_le.mpr hlt)
  · obtain ⟨⟨s, hs⟩, hocomp, hframe⟩ := jailValidatorDeferred_jails hjail
    rw [hocomp] at hothers
    exact ⟨⟨hclosed, hstaking, fun _ _ => ⟨s, (hstate v).trans hs⟩,
        fun hge => absurd hge (not_le.mpr hmin)⟩,
      fun a ha => ⟨hothers a ha, (hstate a).trans (hframe a ha)⟩⟩

/-- The call either leaves the world or resolves the window. -/
theorem resolveDueOcompRecoveryWindow_cases {r : OcompRecoveryResolution}
    (h : Ok (Staking.resolveDueOcompRecoveryWindow X env v) w r w') :
    w' = w ∨ Resolved X v w w' := by
  simp only [Staking.resolveDueOcompRecoveryWindow, rules, ok_ite] at h
  obtain ⟨-, -, rfl⟩ | ⟨-, ⟨-, -, rfl⟩ | ⟨-, h⟩⟩ := h
  · exact .inl rfl
  · exact .inl rfl
  · exact .inr (resolveDue_resolved h)

/-- During a sweep a window is untouched or resolved. -/
def Swept (X : Externals) (v : Address) (w w' : World) : Prop :=
  (deadlineOf w' v = deadlineOf w v ∧ w'.staking = w.staking ∧
      validatorState X w'.validatorSet v = validatorState X w.validatorSet v) ∨
    Closes X v w w'

/-- One round of a sweep. A window that is already resolved is skipped. -/
theorem swept_sweepOne {sweep sweep' : Staking.OcompRecoverySweep} {u : Address} {w₁ w₂ : World}
    (h : Ok (Staking.closeDueOcompRecoveryWindows.sweepOne X env sweep u) w₁ sweep' w₂)
    (hw : Swept X v w w₁) : Swept X v w w₂ := by
  simp only [Staking.closeDueOcompRecoveryWindows.sweepOne, rules, ok_ite, ↓existsAndEq] at h
  obtain ⟨-, -, rfl⟩ | ⟨hopen, _, hone, -⟩ := h
  · exact hw
  obtain rfl | hresolved := resolveDueOcompRecoveryWindow_cases hone
  · exact hw
  by_cases hu : v = u
  · subst hu
    obtain ⟨-, hstaking, hstate⟩ | hcloses := hw
    · have hactive : IsActive X w.validatorSet v → IsActive X w₁.validatorSet v :=
        Exists.imp fun s hs => hstate.trans hs
      have hjailed := hresolved.jailed
      have hkept := hresolved.kept
      rw [hstaking] at hjailed hkept
      exact .inr ⟨hresolved.closed, hresolved.staking.trans hstaking,
        fun ha hlt => hjailed (hactive ha) hlt, fun hge => (hkept hge).trans hstate⟩
    · exact absurd hcloses.closed hopen
  · obtain ⟨hdeadline, hframe⟩ := hresolved.others v hu
    rw [Swept, hdeadline, hresolved.staking, hframe]
    refine hw.imp id fun hw => ⟨hdeadline.trans hw.closed, hresolved.staking.trans hw.staking,
      fun ha hlt => (hw.jailed ha hlt).imp fun s hs => hframe.trans hs,
      fun hge => hframe.trans (hw.kept hge)⟩

theorem swept_closeDueOcompRecoveryWindows {r : Staking.OcompRecoverySweep}
    (h : Ok (Staking.closeDueOcompRecoveryWindows X env) w r w') : Swept X v w w' := by
  simp only [Staking.closeDueOcompRecoveryWindows, rules] at h
  obtain ⟨-, addresses, -, h⟩ := h
  exact Ok.foldlM_inv (fun _ w' => Swept X v w w')
    (fun _ _ _ _ _ _ hw hround => swept_sweepOne hround hw) h (.inl ⟨rfl, rfl, rfl⟩)

/-- A resolved window leaves an active validator jailed exactly when its stake is short. -/
theorem jailed_iff_of_swept (h : Swept X v w w') (hopen : deadlineOf w v ≠ 0)
    (hclosed : deadlineOf w' v = 0) (hactive : IsActive X w.validatorSet v) :
    (IsJailed X w'.validatorSet v ↔ w.staking.stakeAmount v < w.staking.configMinStake) ∧
      (IsActive X w'.validatorSet v ↔ w.staking.configMinStake ≤ w.staking.stakeAmount v) := by
  obtain ⟨hsame, -⟩ | hcloses := h
  · exact absurd (hsame.symm.trans hclosed) hopen
  have hexclusive : IsJailed X w'.validatorSet v → ¬ IsActive X w'.validatorSet v := by
    rintro ⟨s, hs⟩ ⟨t, ht⟩
    rw [hs] at ht
    cases ht
  by_cases hlt : w.staking.stakeAmount v < w.staking.configMinStake
  · have hj := hcloses.jailed hactive hlt
    exact ⟨iff_of_true hj hlt, iff_of_false (hexclusive hj) (not_le.mpr hlt)⟩
  · have hge := not_lt.mp hlt
    have ha : IsActive X w'.validatorSet v := hactive.imp fun s hs => (hcloses.kept hge).trans hs
    exact ⟨iff_of_false (fun hj => hexclusive hj ha) hlt, iff_of_true ha hge⟩

/-! ### Steps and runs -/

/-- What one step does to the recovery window of a validator. -/
structure WindowStep (X : Externals) (v : Address) (i : BlockEnv × Op) (w : World) : Prop where
  /-- A window is opened by a miss that takes a tenth of the bonded stake. -/
  opened : deadlineOf w v = 0 → deadlineOf (step X i w) v ≠ 0 →
    deadlineOf (step X i w) v = i.1.blockNumber + ocompRecoveryWindowBlocks ∧
      ∃ penalty, penaltyOf X v i w = some penalty ∧ penalty.firstInWindow = true ∧
        penalty.slashedBonded = w.staking.stakeAmount v / 10 ∧
        (step X i w).staking.stakeAmount v = w.staking.stakeAmount v - w.staking.stakeAmount v / 10
  /-- While it is open the deadline stands, and it is not closed before the deadline. -/
  held : deadlineOf w v ≠ 0 → deadlineOf (step X i w) v = deadlineOf w v ∨
    (deadlineOf (step X i w) v = 0 ∧ deadlineOf w v ≤ i.1.blockNumber)
  /-- While it is open a miss costs nothing. -/
  free : deadlineOf w v ≠ 0 → ∀ penalty, penaltyOf X v i w = some penalty →
    penalty.firstInWindow = false ∧ penalty.slashedBonded = 0 ∧
      (step X i w).staking = w.staking ∧ (step X i w).balance = w.balance
  /-- Its resolution jails a still active validator exactly when its stake is short. -/
  resolved : deadlineOf w v ≠ 0 → deadlineOf (step X i w) v = 0 → IsActive X w.validatorSet v →
    (IsJailed X (step X i w).validatorSet v ↔ w.staking.stakeAmount v < w.staking.configMinStake) ∧
      (IsActive X (step X i w).validatorSet v ↔ w.staking.configMinStake ≤ w.staking.stakeAmount v)

theorem swept_of_resolves (hop : op.Resolves v) : Swept X v w (step X (env, op) w) := by
  have hsame : Swept X v w w := .inl ⟨rfl, rfl, rfl⟩
  obtain hok | heq := step_cases X (env, op) w
  · obtain rfl | rfl := hop
    · obtain ⟨_, hok⟩ := ok_discard.mp hok
      obtain heq | hresolved := resolveDueOcompRecoveryWindow_cases hok
      · rw [heq]
        exact hsame
      · exact .inr hresolved.toCloses
    · obtain ⟨_, hok⟩ := ok_discard.mp hok
      exact swept_closeDueOcompRecoveryWindows hok
  · rw [heq]
    exact hsame

/-- Every step of every run. -/
theorem windowStep (X : Externals) (v : Address) (i : BlockEnv × Op) (w : World) :
    WindowStep X v i w := by
  obtain ⟨env, op⟩ := i
  refine ⟨fun hclosed hopens => ?_, fun hopen => ?_, fun hopen penalty hpenalty => ?_,
    fun hopen hclosed hactive => ?_⟩
  · obtain hzero | ⟨rfl, hdeadline⟩ := deadline_of_closed X env op hclosed
    · exact absurd hzero hopens
    refine ⟨hdeadline, ?_⟩
    -- The step changed the window, so its call went through.
    obtain hok | heq := step_cases X (env, .recordOcompMiss v) w
    · obtain ⟨penalty, hok⟩ := ok_discard.mp hok
      obtain ⟨hfirst, hslashed, hstake⟩ := penalty_of_closed hok hclosed
      refine ⟨penalty, ?_, hfirst, hslashed, hstake⟩
      have hrun : ((Staking.recordOcompMiss X env v).run w).1 = .ok penalty :=
        congrArg Prod.fst hok
      simp only [penaltyOf, ↓reduceIte, hrun]
      rfl
    · rw [heq] at hopens
      exact absurd hclosed hopens
  · exact (deadline_of_open X env op hopen).imp id fun h => ⟨h.2.2, h.2.1⟩
  · exact penalty_of_open (penaltyOf_eq_some hpenalty).2 hopen
  · obtain hsame | ⟨hop, -, -⟩ := deadline_of_open X env op hopen
    · exact absurd (hsame.symm.trans hclosed) hopen
    · exact jailed_iff_of_swept (swept_of_resolves hop) hopen hclosed hactive

/-- While a window stays open nothing is slashed and its deadline stands. -/
theorem open_run {l : List (BlockEnv × Op)} (hd : deadlineOf w v = d)
    (hopen : Runs.Along (step X) (fun _ u => deadlineOf u v ≠ 0) l w) :
    slashesOf X v l w = [] ∧
      Runs.Along (step X) (fun j u => deadlineOf u v = d ∧ WindowStep X v j u) l w ∧
      (deadlineOf (Runs.run (step X) l w) v = d ∨ deadlineOf (Runs.run (step X) l w) v = 0) := by
  induction l generalizing w with
  | nil => exact ⟨rfl, trivial, .inl hd⟩
  | cons j l ih =>
    obtain ⟨hnow, hlater⟩ := hopen
    have hstep := windowStep X v j w
    have hnone : ((penaltyOf X v j w).filter (·.firstInWindow)) = none := by
      cases hpenalty : penaltyOf X v j w with
      | none => rfl
      | some penalty => simp [Option.filter, (hstep.free hnow penalty hpenalty).1]
    obtain hsame | ⟨hzero, -⟩ := hstep.held hnow
    · obtain ⟨hslashes, halong, hend⟩ := ih (hsame.trans hd) hlater
      refine ⟨?_, ⟨⟨hd, hstep⟩, halong⟩, hend⟩
      rw [slashesOf, hnone, hslashes]
      rfl
    -- The window closes at this step, so the run it stays open in ends here.
    · cases l with
      | nil =>
        refine ⟨?_, ⟨⟨hd, hstep⟩, trivial⟩, .inr hzero⟩
        rw [slashesOf, hnone]
        rfl
      | cons k l => exact absurd hzero hlater.1

/-- From the opening of a window to its resolution exactly one OCOMP slash is applied, the one of a
tenth of the bonded stake that opens it. The deadline does not move; the window is resolved only at
a height not below it; and the resolution jails a still active validator exactly when its bonded
stake is below the minimum. Here `i` opens the window and it is open before each call of `l`. -/
theorem ocompWindow_of_run (X : Externals) (v : Address) (i : BlockEnv × Op) (w : World)
    (hclosed : deadlineOf w v = 0) (hopens : deadlineOf (step X i w) v ≠ 0)
    (l : List (BlockEnv × Op))
    (hopen : Runs.Along (step X) (fun _ u => deadlineOf u v ≠ 0) l (step X i w)) :
    slashesOf X v (i :: l) w = [w.staking.stakeAmount v / 10] ∧
      WindowStep X v i w ∧
      Runs.Along (step X) (fun j u =>
        deadlineOf u v = i.1.blockNumber + ocompRecoveryWindowBlocks ∧ WindowStep X v j u) l
        (step X i w) ∧
      (deadlineOf (Runs.run (step X) (i :: l) w) v = i.1.blockNumber + ocompRecoveryWindowBlocks ∨
        deadlineOf (Runs.run (step X) (i :: l) w) v = 0) := by
  have hstep := windowStep X v i w
  obtain ⟨hdeadline, penalty, hpenalty, hfirst, hslashed, -⟩ := hstep.opened hclosed hopens
  obtain ⟨hslashes, halong, hend⟩ := open_run hdeadline hopen
  refine ⟨?_, hstep, halong, hend⟩
  rw [slashesOf, hpenalty, hslashes]
  simp [Option.filter, hfirst, hslashed]

/-- Alice is active with exactly the minimum of ten wei. -/
def aliceAtMinimum : World :=
  Runs.run (step sampleExternals)
    [(sampleEnv, .registerValidator alice alice.address 1 1 (some 0)),
      (sampleEnv, .stake alice alice.address 10), (sampleEnv, .confirmValidatorReady alice [1]),
      sampleBoundary 1 [alice.address]]
    (World.fresh 9 10 fun _ => 10)

def aliceMisses : BlockEnv × Op := (sampleEnv, .recordOcompMiss alice.address)

/-- Another miss, and the sweep at the deadline. -/
def missAndSweep : List (BlockEnv × Op) :=
  [aliceMisses, ({ sampleEnv with blockNumber := 43201 }, .closeDueOcompRecoveryWindows)]

/-- She misses twice in one window and pays once, one wei. The sweep closes the window. -/
theorem ocompWindow_of_alice :
    slashesOf sampleExternals alice.address (aliceMisses :: missAndSweep) aliceAtMinimum = [1] ∧
      deadlineOf (Runs.run (step sampleExternals) (aliceMisses :: missAndSweep) aliceAtMinimum)
        alice.address = 0 := by
  have hstake : aliceAtMinimum.staking.stakeAmount alice.address / 10 = 1 := by decide +kernel
  obtain ⟨hslashes, -⟩ := ocompWindow_of_run sampleExternals alice.address aliceMisses
    aliceAtMinimum (by decide +kernel) (by decide +kernel) missAndSweep
    ⟨by decide +kernel, by decide +kernel, trivial⟩
  exact ⟨hslashes.trans (by rw [hstake]), by decide +kernel⟩

end Rudis
