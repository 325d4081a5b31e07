import Rudis.Proofs.ActiveSet
import Rudis.Proofs.Desis.Life
import Rudis.Proofs.Desis.Clearing

/-!
# `Rudis.Proofs.Desis.Calls`: every call moves its days along their lives

`World.life` cuts one day out of the storage. A write is described by `Edits`: it edits one day with
a function on `Life`, leaves the others, and credits PromisLimit with what it logs. The writes of a
call compose (`Edits.trans`), and the composite is a step of the day it serves.

* `Evolves`: every day of the world moves along `Life.Step`.
* `evolves_dispatchAuctionBrief`, `evolves_scheduleTick`, `evolves_tickGate`,
  `evolves_processBidsBatch`, `evolves_processBidsDone`: what each entry point does.
* `advanceDay_eq_advanceLoop`: the schedule loop returns within three rounds.
-/

namespace Rudis.Desis

open Tx List
open Days (ActiveSet)
open Relation (ReflTransGen)

/-! ### The view of one day -/

namespace World

variable {w w' : World} {day d : WorldwideDay}

/-- The credits PromisLimit received for a day. -/
def creditsOf (w : World) (day : WorldwideDay) : List Nat :=
  (w.credits.filter fun c => c.1 = day).map Prod.snd

def life (w : World) (day : WorldwideDay) : Life where
  stage := w.store.stage day
  supply := w.store.pendingSupplyPromis day
  supplyIntex := w.store.pendingSupplyIntex day
  load := (w.store.config day).promisLoadMinor
  green := w.store.briefGreen day
  scheduled := w.store.schedActive.has day
  gated := w.store.gateActive.has day
  briefed := w.briefed day
  issued := w.issued day
  credits := w.creditsOf day

structure WF (w : World) : Prop where
  gate : w.store.gateActive.WF
  sched : w.store.schedActive.WF

/-- PromisLimit grows by what is logged, and the log only grows. -/
def Logged (w w' : World) : Prop :=
  ∃ fresh, w'.credits = w.credits ++ fresh ∧
    w'.totalUnallocated = w.totalUnallocated + (fresh.map Prod.snd).sum

theorem Logged.of_eq (hcredits : w'.credits = w.credits)
    (htotal : w'.totalUnallocated = w.totalUnallocated) : Logged w w' :=
  ⟨[], by simp [hcredits], by simp [htotal]⟩

theorem Logged.trans {w'' : World} (h : Logged w w') (h' : Logged w' w'') : Logged w w'' := by
  obtain ⟨fresh, hcredits, htotal⟩ := h
  obtain ⟨fresh', hcredits', htotal'⟩ := h'
  refine ⟨fresh ++ fresh', by rw [hcredits', hcredits, append_assoc], ?_⟩
  rw [htotal', htotal, map_append, sum_append, add_assoc]

end World

open World (Logged life creditsOf WF)

/-- From one world to the other exactly one day is edited, by `g`. -/
structure Edits (day : WorldwideDay) (g : Life → Life) (w w' : World) : Prop where
  wf : w.WF → w'.WF
  own : w.WF → w'.life day = g (w.life day)
  frame : w.WF → ∀ d, d ≠ day → w'.life d = w.life d
  logged : Logged w w'

namespace Edits

variable {day : WorldwideDay} {g g' : Life → Life} {w w' w'' : World}

theorem refl : Edits day id w w := ⟨id, fun _ => rfl, fun _ _ _ => rfl, .of_eq rfl rfl⟩

theorem trans (h : Edits day g w w') (h' : Edits day g' w' w'') :
    Edits day (fun l => g' (g l)) w w'' where
  wf := fun hwf => h'.wf (h.wf hwf)
  own := fun hwf => by rw [h'.own (h.wf hwf), h.own hwf]
  frame := fun hwf d hd => by rw [h'.frame (h.wf hwf) d hd, h.frame hwf d hd]
  logged := h.logged.trans h'.logged

/-- The edit only matters at the day's own life. -/
theorem congr (h : Edits day g w w') (heq : g (w.life day) = g' (w.life day)) : Edits day g' w w' :=
  { h with own := fun hwf => (h.own hwf).trans heq }

end Edits

/-- Every day moves along its life. -/
structure Evolves (w w' : World) : Prop where
  wf : w'.WF
  paths : ∀ day, ReflTransGen Life.Step (w.life day) (w'.life day)
  logged : Logged w w'

namespace Evolves

variable {day : WorldwideDay} {g : Life → Life} {w w' w'' : World}

theorem refl (h : w.WF) : Evolves w w := ⟨h, fun _ => .refl, .of_eq rfl rfl⟩

theorem trans (h : Evolves w w') (h' : Evolves w' w'') : Evolves w w'' :=
  ⟨h'.wf, fun d => (h.paths d).trans (h'.paths d), h.logged.trans h'.logged⟩

theorem of_path (hwf : w.WF) (h : Edits day g w w')
    (hpath : ReflTransGen Life.Step (w.life day) (g (w.life day))) : Evolves w w' := by
  refine ⟨h.wf hwf, fun d => ?_, h.logged⟩
  by_cases hd : d = day
  · subst hd
    rw [h.own hwf]
    exact hpath
  · rw [h.frame hwf d hd]

theorem of_step (hwf : w.WF) (h : Edits day g w w')
    (hstep : Life.Step (w.life day) (g (w.life day))) : Evolves w w' :=
  of_path hwf h (.single hstep)

end Evolves

/-! ### The writes -/

section Writes

variable {day : WorldwideDay} {w w' : World} {u : Unit}

/-- A write to the storage edits one day if it changes no other day and neither set. -/
theorem edits_write {f : Store → Store} {g : Life → Life}
    (h : Ok (write f) w u w') (hgate : (f w.store).gateActive = w.store.gateActive)
    (hsched : (f w.store).schedActive = w.store.schedActive)
    (hown : life { w with store := f w.store } day = g (w.life day))
    (hframe : ∀ d, d ≠ day → life { w with store := f w.store } d = w.life d) :
    Edits day g w w' := by
  simp only [write, ok_modify] at h
  obtain rfl := h
  exact ⟨fun hwf => ⟨hgate ▸ hwf.gate, hsched ▸ hwf.sched⟩, fun _ => hown, fun _ => hframe,
    .of_eq rfl rfl⟩

theorem edits_writeStage {stage : AuctionStage} (h : Ok (writeStage day stage) w u w') :
    Edits day (fun l => { l with stage := stage }) w w' :=
  edits_write h rfl rfl (by simp [life, creditsOf])
    fun d hd => by simp [life, creditsOf, update_of_ne hd]

theorem edits_writeAuctionConfig {config : AuctionConfig}
    (h : Ok (writeAuctionConfig day config) w u w') :
    Edits day (fun l => { l with load := config.promisLoadMinor }) w w' :=
  edits_write h rfl rfl (by simp [life, creditsOf])
    fun d hd => by simp [life, creditsOf, update_of_ne hd]

theorem edits_removeSchedActive (h : Ok (removeSchedActive day) w u w') :
    Edits day (fun l => { l with scheduled := false }) w w' := by
  simp only [removeSchedActive, write, ok_modify] at h
  obtain rfl := h
  refine ⟨fun hwf => ⟨hwf.gate, ActiveSet.wf_remove hwf.sched⟩, fun hwf => ?_, fun hwf d hd => ?_,
    .of_eq rfl rfl⟩
  · simp [life, creditsOf, ActiveSet.has_remove hwf.sched]
  · simp [life, creditsOf, ActiveSet.has_remove hwf.sched, hd]

theorem edits_removeGateActive (h : Ok (removeGateActive day) w u w') :
    Edits day (fun l => { l with gated := false }) w w' := by
  simp only [removeGateActive, write, ok_modify] at h
  obtain rfl := h
  refine ⟨fun hwf => ⟨ActiveSet.wf_remove hwf.gate, hwf.sched⟩, fun hwf => ?_, fun hwf d hd => ?_,
    .of_eq rfl rfl⟩
  · simp [life, creditsOf, ActiveSet.has_remove hwf.gate]
  · simp [life, creditsOf, ActiveSet.has_remove hwf.gate, hd]

theorem edits_addToTotalUnallocated {amount : Nat}
    (h : Ok (addToTotalUnallocated day amount) w u w') :
    Edits day (fun l => { l with credits := l.credits ++ [amount] }) w w' := by
  simp only [addToTotalUnallocated, rules, ok_zoom, PromisLimit.ok_checkedAddCarryOver] at h
  obtain ⟨-, rfl⟩ := h
  refine ⟨fun hwf => ⟨hwf.gate, hwf.sched⟩, fun _ => ?_, fun _ d hd => ?_,
    ⟨[(day, amount)], rfl, by simp⟩⟩
  · simp [life, creditsOf]
  · simp [life, creditsOf, Ne.symm hd]

theorem edits_refundUnsoldSupply (h : Ok (refundUnsoldSupply day) w u w') :
    Edits day Life.refund w w' := by
  simp only [refundUnsoldSupply, rules] at h
  rcases ok_when.mp h with ⟨hne, h⟩ | ⟨heq, rfl⟩
  · simp only [rules] at h
    obtain ⟨v, hwrite, hadd⟩ := h
    have hzero : Edits day (fun l => { l with supply := 0 }) w v :=
      edits_write hwrite rfl rfl (by simp [life, creditsOf])
        fun d hd => by simp [life, creditsOf, update_of_ne hd]
    refine (hzero.trans (edits_addToTotalUnallocated hadd)).congr ?_
    have hcredit : creditOf (w.life day).supply = [w.store.pendingSupplyPromis day] := if_neg hne
    rw [Life.refund, hcredit]
  · refine Edits.refl.congr (Life.refund_of_supply_eq_zero ?_).symm
    exact not_not.mp heq

end Writes

/-! ### The brief -/

section Brief

variable {day : WorldwideDay} {w w' : World} {letterOf : Nat → Option Nat}
  {referencePrices : List ReferenceCurrencyPrice}

theorem promisLoadMinor_pos (exponent : Nat) : 0 < promisLoadMinor exponent :=
  Nat.pow_pos (by decide)

/-- Stepping the ladder touches no day and finds a positive load. -/
theorem edits_stepPromisLoad (day : WorldwideDay) {load : Nat}
    (h : Ok (stepPromisLoad referencePrices) w load w') :
    Edits day id w w' ∧ 0 < load := by
  simp only [stepPromisLoad, ok_bind, ok_reads, and_assoc, ↓existsAndEq, true_and] at h
  split at h
  · obtain ⟨rfl, rfl⟩ := ok_pure.mp h
    exact ⟨.refl, promisLoadMinor_pos _⟩
  · simp only [ok_bind, ok_reads, ok_pure, and_assoc, ↓existsAndEq, true_and] at h
    obtain ⟨_, hwrite, rfl, -⟩ := h
    exact ⟨edits_write hwrite rfl rfl rfl fun _ _ => rfl, promisLoadMinor_pos _⟩

theorem edits_recordPreflightedBrief {supplyPromis anchor : Nat} {isGreen : Bool} {u : Unit}
    (h : Ok (recordPreflightedBrief letterOf day supplyPromis referencePrices isGreen anchor)
      w u w') :
    ∃ load, 0 < load ∧ Edits day (fun l =>
      { l with
        stage := .briefed, supply := supplyPromis, load := load, green := isGreen,
        scheduled := true, briefed := supplyPromis }) w w' := by
  simp only [recordPreflightedBrief, ok_bind] at h
  obtain ⟨load, w₁, hload, _, w₂, hconfig, _, w₃, hstage, _, w₄, hwrite, hbriefed⟩ := h
  obtain ⟨hladder, hpos⟩ := edits_stepPromisLoad day hload
  refine ⟨load, hpos, ?_⟩
  have hrecord : Edits day (fun l =>
      { l with supply := supplyPromis, green := isGreen, scheduled := true }) w₃ w₄ := by
    simp only [write, ok_modify] at hwrite
    obtain rfl := hwrite
    refine ⟨fun hwf => ⟨hwf.gate, ActiveSet.wf_push hwf.sched⟩, fun _ => ?_, fun _ d hd => ?_,
      .of_eq rfl rfl⟩
    · simp [life, creditsOf, ActiveSet.has_push]
    · simp [life, creditsOf, ActiveSet.has_push, hd]
  have hghost : Edits day (fun l => { l with briefed := supplyPromis }) w₄ w' := by
    obtain rfl := ok_modify.mp hbriefed
    refine ⟨fun hwf => ⟨hwf.gate, hwf.sched⟩, fun _ => ?_, fun _ d hd => ?_, .of_eq rfl rfl⟩
    · simp [life, creditsOf]
    · simp [life, creditsOf, hd]
  exact ((((hladder.trans (edits_writeAuctionConfig hconfig)).trans (edits_writeStage hstage)).trans
    hrecord).trans hghost).congr rfl

theorem ok_preflightBrief {now anchor : Nat} (h : Ok (preflightBrief day now) w anchor w') :
    w' = w ∧ w.store.stage day = .none := by
  simp only [preflightBrief, rules] at h
  obtain ⟨-, hstage, -, hw⟩ := h
  exact ⟨hw, hstage⟩

theorem evolves_dispatchAuctionBrief {supplyPromis now : Nat} {isGreen : Bool}
    {overflow : BriefOverflowPolicy} {receipt : AuctionBriefReceipt} (hwf : w.WF)
    (hred : isGreen = false → supplyPromis = 0)
    (h : Ok (dispatchAuctionBrief letterOf day supplyPromis referencePrices isGreen now overflow)
      w receipt w') : Evolves w w' := by
  simp only [dispatchAuctionBrief, rules] at h
  obtain ⟨anchor, v, hpreflight, h⟩ := h
  obtain ⟨hv, hstage⟩ := ok_preflightBrief hpreflight
  rw [hv] at h
  rcases ok_ite.mp h with ⟨-, h⟩ | ⟨hbounded, h⟩
  · simp only [rules] at h
    obtain ⟨-, -, rfl⟩ := h
    exact .refl hwf
  · simp only [rules] at h
    obtain ⟨w₁, hrecord, -, rfl⟩ := h
    obtain ⟨load, hload, hedits⟩ := edits_recordPreflightedBrief hrecord
    exact .of_step hwf hedits (.brief supplyPromis load isGreen hstage hload (by omega) hred)

end Brief

/-! ### The schedule -/

section Schedule

variable {router : Router} {day : WorldwideDay} {w w' : World} {u : Unit} {now : Nat}

theorem promisLoadMinor_foldProfile {s : Store} {config config' : AuctionConfig}
    {iparams : IntexParams} (h : foldProfile router s config = .ok (config', iparams)) :
    config'.promisLoadMinor = config.promisLoadMinor := by
  simp only [foldProfile, laws, Prod.mk.injEq] at h
  obtain ⟨_, -, _, -, rfl, -⟩ := h
  rfl

variable {windows : Windows} {outcome : StartOutcome}

/-- A briefed day starts, or it is cancelled: with its supply back, or red and without one. -/
theorem startAuction_cases (h : Ok (startAuction router day windows now) w outcome w') :
    (outcome = .started ∧ Edits day (fun l => { l with stage := .started }) w w') ∨
    (outcome = .retired ∧ w.store.briefGreen day = false ∧ Edits day Life.cancelled w w') ∨
    (outcome = .retired ∧ Edits day (fun l => l.refund.cancelled) w w') := by
  simp only [startAuction, rules] at h
  obtain ⟨⟨config, iparams⟩, hfold, v, hconfig, commit, -, reveal, -, issuance, -, h⟩ := h
  have hload : Edits day id w v := by
    refine (edits_writeAuctionConfig hconfig).congr ?_
    have hkept := promisLoadMinor_foldProfile hfold
    show { w.life day with load := config.promisLoadMinor } = w.life day
    rw [hkept]
    rfl
  rcases ok_ite.mp h with ⟨hwhy, h⟩ | ⟨-, h⟩
  · simp only [rules, ↓existsAndEq, and_true] at h
    obtain ⟨-, v₁, hstage, v₂, hrefund, hsched, rfl⟩ := h
    have hcancel := hload.trans (edits_writeStage hstage)
    rcases ok_when.mp hrefund with ⟨-, hrefund⟩ | ⟨hpriced, rfl⟩
    · refine .inr (.inr ⟨rfl, ?_⟩)
      exact (hcancel.trans (edits_refundUnsoldSupply hrefund)).trans
        (edits_removeSchedActive hsched)
    · -- the day is priced, so it is here because it is red
      exact .inr (.inl ⟨rfl, hwhy.resolve_left hpriced,
        hcancel.trans (edits_removeSchedActive hsched)⟩)
  · rcases ok_ite.mp h with ⟨-, h⟩ | ⟨-, h⟩
    · simp only [ok_bind, ok_pure, ↓existsAndEq, and_true, exists_unit] at h
      obtain ⟨v₁, hstage, v₂, hrefund, hsched, rfl⟩ := h
      refine .inr (.inr ⟨rfl, ?_⟩)
      exact ((hload.trans (edits_writeStage hstage)).trans (edits_refundUnsoldSupply hrefund)).trans
        (edits_removeSchedActive hsched)
    · simp only [rules, ↓existsAndEq, and_true] at h
      obtain ⟨-, hstage, rfl⟩ := h
      exact .inl ⟨rfl, hload.trans (edits_writeStage hstage)⟩

/-- A briefed day that is started or cancelled moves along its life. -/
theorem evolves_startAuction (hwf : w.WF) (hstage : w.store.stage day = .briefed)
    (h : Ok (startAuction router day windows now) w outcome w') : Evolves w w' := by
  rcases startAuction_cases h with ⟨-, hedits⟩ | ⟨-, hred, hedits⟩ | ⟨-, hedits⟩
  · exact .of_step hwf hedits (.start hstage)
  · exact .of_step hwf hedits (.cancelRed hstage hred)
  · exact .of_step hwf hedits (.cancel hstage)

theorem stage_of_started (hwf : w.WF) (h : Ok (startAuction router day windows now) w .started w') :
    w'.store.stage day = .started := by
  rcases startAuction_cases h with ⟨-, hedits⟩ | ⟨hne, -⟩ | ⟨hne, -⟩
  · exact congrArg Life.stage (hedits.own hwf)
  · exact absurd hne (by simp)
  · exact absurd hne (by simp)

theorem evolves_armClearing (hwf : w.WF) (hstage : w.store.stage day = .revealing)
    (h : Ok (armClearing router day now) w u w') : Evolves w w' := by
  simp only [armClearing, rules, ↓existsAndEq] at h
  obtain ⟨-, -, v, hwrite, hclearing, -⟩ := h
  have hfits : min (w.store.pendingSupplyPromis day / (w.store.config day).promisLoadMinor)
      (2 ^ 32 - 1) ≤ (w.life day).supply / (w.life day).load := min_le_left _ _
  revert hfits
  generalize min (w.store.pendingSupplyPromis day / (w.store.config day).promisLoadMinor)
    (2 ^ 32 - 1) = supplyIntex at hwrite ⊢
  intro hfits
  have hpush : Edits day (fun l => { l with supplyIntex := supplyIntex, gated := true }) w v := by
    simp only [write, ok_modify] at hwrite
    obtain rfl := hwrite
    refine ⟨fun hwf => ⟨ActiveSet.wf_push hwf.gate, hwf.sched⟩, fun _ => ?_, fun _ d hd => ?_,
      .of_eq rfl rfl⟩
    · simp [life, creditsOf, ActiveSet.has_push]
    · simp [life, creditsOf, ActiveSet.has_push, hd]
  exact .of_step hwf (hpush.trans (edits_writeStage hclearing)) (.arm supplyIntex hstage hfits)

theorem evolves_retireOverdue (hwf : w.WF) (hknown : w.store.stage day ≠ .none)
    (hopen : (w.store.stage day).isTerminal = false) (h : Ok (retireOverdue day) w u w') :
    Evolves w w' := by
  simp only [retireOverdue, rules] at h
  obtain ⟨v₁, hrefund, v₂, hgate, v₃, hstage, hsched⟩ := h
  exact .of_step hwf ((((edits_refundUnsoldSupply hrefund).trans (edits_removeGateActive hgate)).trans
    (edits_writeStage hstage)).trans (edits_removeSchedActive hsched)) (.overdue hknown hopen)

variable {stage : AuctionStage}

theorem isTerminal_eq_false (h : ¬ (stage = .cleared ∨ stage = .cancelled)) :
    stage.isTerminal = false := by
  cases stage <;> simp_all [AuctionStage.isTerminal]

theorem isTerminal_eq_true (h : stage = .cleared ∨ stage = .cancelled) :
    stage.isTerminal = true := by
  rcases h with rfl | rfl <;> rfl

/-- The schedule loop of a known day moves it along its life, one step per round. -/
theorem evolves_advanceLoop : ∀ {rounds : Nat} {w : World}, w.WF → w.store.stage day ≠ .none →
    Ok (advanceLoop router (Tx.fail .outOfGas) day now rounds) w u w' → Evolves w w'
  | 0, _, _, _, h => absurd h ok_fail
  | rounds + 1, w, hwf, hknown, h => by
    simp only [advanceLoop, rules] at h
    rcases ok_ite.mp h with ⟨hclosed, h⟩ | ⟨hopen, h⟩
    · exact .of_step hwf (edits_removeSchedActive h) (.unschedule (isTerminal_eq_true hclosed))
    rcases ok_ite.mp h with ⟨-, h⟩ | ⟨-, h⟩
    · exact evolves_retireOverdue hwf hknown (isTerminal_eq_false hopen) h
    rcases ok_ite.mp h with ⟨⟨hstage, -⟩, h⟩ | ⟨-, h⟩
    · simp only [rules] at h
      obtain ⟨outcome, v, hstart, h⟩ := h
      have hevolves := evolves_startAuction hwf hstage hstart
      rcases ok_when.mp h with ⟨rfl, h⟩ | ⟨-, rfl⟩
      · have hstarted := stage_of_started hwf hstart
        exact hevolves.trans (evolves_advanceLoop hevolves.wf (by simp [hstarted]) h)
      · exact hevolves
    rcases ok_ite.mp h with ⟨⟨hstage, -⟩, h⟩ | ⟨-, h⟩
    · simp only [rules] at h
      obtain ⟨v, hreveal, h⟩ := h
      have hedits := edits_writeStage hreveal
      have hevolves : Evolves w v := .of_step hwf hedits (.reveal hstage)
      have hrevealing : v.store.stage day = .revealing := congrArg Life.stage (hedits.own hwf)
      exact hevolves.trans (evolves_advanceLoop hevolves.wf (by simp [hrevealing]) h)
    rcases ok_ite.mp h with ⟨⟨hstage, -⟩, h⟩ | ⟨-, h⟩
    · exact evolves_armClearing hwf hstage h
    · obtain ⟨-, rfl⟩ := ok_pure.mp h
      exact .refl hwf

/-- A known day stays known. -/
theorem Evolves.stage_ne_none (h : Evolves w w') (hknown : w.store.stage day ≠ .none) :
    w'.store.stage day ≠ .none :=
  AuctionStage.ne_none_of_path hknown (Life.edges_of_path (h.paths day))

theorem evolves_scheduleTick (hwf : w.WF)
    (hknown : ∀ d, w.store.schedActive.has d = true → w.store.stage d ≠ .none)
    (h : Ok (scheduleTick router now) w u w') : Evolves w w' := by
  simp only [scheduleTick, rules] at h
  refine Ok.forM_attempt_inv (Evolves w) (fun d hd v v' hv hround => hv.trans ?_) h (.refl hwf)
  have hlisted := (ActiveSet.mem_days hwf.sched).mp hd
  exact evolves_advanceLoop hv.wf (hv.stage_ne_none (hknown d hlisted)) hround

/-- The rounds a day can still use: one more per stage before the gate. -/
def roundsLeft : AuctionStage → Nat
  | .briefed => 3
  | .started => 2
  | _ => 1

/-- Every day returns from the schedule loop within its rounds: more rounds change nothing, nor does
what would be done after them. -/
theorem advanceLoop_rounds {stop stop' : Call World Unit} :
    ∀ {rounds rounds' : Nat} {w : World}, w.WF → roundsLeft (w.store.stage day) ≤ rounds →
      roundsLeft (w.store.stage day) ≤ rounds' →
      (advanceLoop router stop day now rounds).run w =
        (advanceLoop router stop' day now rounds').run w
  | 0, _, w, _, hrounds, _ | _, 0, w, _, _, hrounds => by
    cases hstage : w.store.stage day <;> simp [hstage, roundsLeft] at hrounds
  | rounds + 1, rounds' + 1, w, hwf, hrounds, hrounds' => by
    rw [advanceLoop, advanceLoop]
    simp only [Tx.run_reads_bind]
    split_ifs with hclosed hoverdue hbriefed hstarted
    · rfl
    · rfl
    · -- a start leaves the day started, with two rounds left
      rw [Tx.run_bind, Tx.run_bind]
      rcases hstart : (startAuction router day (windowsOf (w.store.auctionAt day)) now).run w with
        ⟨_ | outcome, v⟩
      · rfl
      show (when _ _).run v = (when _ _).run v
      by_cases houtcome : outcome = .started
      · subst houtcome
        rw [when, when, if_pos rfl, if_pos rfl]
        have hv := (evolves_startAuction hwf hbriefed.1 hstart).wf
        have hstage := stage_of_started hwf hstart
        exact advanceLoop_rounds hv (by simp_all [roundsLeft]) (by simp_all [roundsLeft])
      · rw [when, when, if_neg houtcome, if_neg houtcome]
    · have hv : WF { w with store := { w.store with
          stage := update w.store.stage day .revealing } } := ⟨hwf.gate, hwf.sched⟩
      simp only [writeStage, write, Tx.run_modify_bind]
      exact advanceLoop_rounds hv (by simp_all [roundsLeft]) (by simp_all [roundsLeft])
    · rfl
    · rfl

/-- The schedule of a day is the unbounded loop of the source, which returns within three rounds:
what would be done after the last one is never done. -/
theorem advanceDay_eq_advanceLoop (hwf : w.WF) (stop : Call World Unit) {rounds : Nat}
    (h : 3 ≤ rounds) :
    (advanceDay router day now).run w = (advanceLoop router stop day now rounds).run w := by
  have hleft : roundsLeft (w.store.stage day) ≤ 3 := by cases w.store.stage day <;> decide
  exact advanceLoop_rounds hwf hleft (hleft.trans h)

theorem advanceDay_briefed :
    let router : Router := ⟨.ok ⟨21, 14, 7, 1, 1, 0⟩, fun _ _ _ _ _ _ _ => .ok (), fun _ => .ok (),
      fun _ => .ok [1], fun _ _ _ _ _ => .ok ()⟩
    let w := { World.genesis 0 with store := { Store.empty with stage := fun _ => .briefed } }
    (advanceDay router 7 0).run w = (advanceLoop router (pure ()) 7 0 9).run w :=
  advanceDay_eq_advanceLoop ⟨ActiveSet.wf_empty, ActiveSet.wf_empty⟩ _ (by decide)

end Schedule

/-! ### Bids -/

section Bids

variable {day : WorldwideDay} {w w' : World} {u : Unit} {letterOf : Nat → Option Nat}
  {srcChainId : Nat}

instance : IsPreorder World (Edits day id) where
  refl _ := .refl
  trans _ _ _ := .trans

/-- The bid intake is outside the life of a day. -/
theorem edits_writeChain {c : ChainIntake} : Keeps (Edits day id) (writeChain day srcChainId c) :=
  fun _ _ _ h => edits_write h rfl rfl rfl fun _ _ => rfl

theorem edits_resetChainIntake : Keeps (Edits day id) (resetChainIntake day srcChainId) :=
  .read (fun _ => rfl) fun _ =>
  .bind (fun _ _ _ h => edits_write h rfl rfl rfl fun _ _ => rfl) fun _ => edits_writeChain

theorem edits_tryFinalizeChain : Keeps (Edits day id) (tryFinalizeChain day srcChainId) :=
  .read (fun _ => rfl) fun _ => edits_writeChain

variable {generation batchIndex totalBatches : Nat} {bids : List BidData}

theorem edits_applyBatch : Keeps (Edits day id)
    (applyBatch day srcChainId generation batchIndex totalBatches bids) :=
  .read (fun _ => rfl) fun _ =>
  .bind (.when (.bind edits_resetChainIntake fun _ => .read (fun _ => rfl) fun _ =>
    edits_writeChain)) fun _ =>
  .read (fun _ => rfl) fun _ => .read readOnly_failIf fun _ => .ite .pure <|
  .bind (fun _ _ _ h => edits_write h rfl rfl rfl fun _ _ => rfl) fun _ =>
  .bind edits_writeChain fun _ => edits_tryFinalizeChain

variable {caller : Address}

theorem evolves_processBidsBatch (hwf : w.WF)
    (h : Ok (processBidsBatch letterOf caller day srcChainId generation batchIndex totalBatches
      bids) w u w') : Evolves w w' := by
  simp only [processBidsBatch, requireOriginRouter, requireNonzeroWorldwideDay, rules] at h
  obtain ⟨-, -, -, -, -, _, -, h⟩ := h
  have hedits : Edits day id w w' :=
    Keeps.ite .pure (.read (fun _ => rfl) fun _ => .ite .pure edits_applyBatch) h
  exact .of_path hwf hedits .refl

theorem evolves_processBidsDone {relayGeneration totalBatches totalBids : Nat} (hwf : w.WF)
    (h : Ok (processBidsDone caller day srcChainId relayGeneration totalBatches totalBids)
      w u w') : Evolves w w' := by
  simp only [processBidsDone, requireOriginRouter, requireNonzeroWorldwideDay, rules] at h
  obtain ⟨-, -, -, _, -, h⟩ := h
  have hedits : Edits day id w w' :=
    Keeps.ite .pure (.read (fun _ => rfl) fun _ => .ite .pure <|
      .read readOnly_failIf fun _ => .ite .pure <| .bind edits_writeChain fun _ =>
      edits_tryFinalizeChain) h
  exact .of_path hwf hedits .refl

end Bids

/-! ### The gate -/

section Gate

variable {router : Router} {day : WorldwideDay} {w w' : World} {u : Unit} {now : Nat}

variable {included snapshot : List Nat}

theorem edits_closeDay {issued : Nat} (h : Ok (closeDay day snapshot issued) w u w') :
    Edits day (fun l => { l with
      stage := .cleared, supply := 0, supplyIntex := 0, gated := false, issued := issued }) w w' := by
  simp only [closeDay, ok_bind, exists_unit] at h
  obtain ⟨w₁, hstage, w₂, hlast, w₃, hreset, w₄, hwrite, w₅, hgate, hissued⟩ := h
  have hlast : Edits day id w₁ w₂ := edits_write hlast rfl rfl rfl fun _ _ => rfl
  have hreset : Edits day id w₂ w₃ := Keeps.forM (fun _ => edits_resetChainIntake) hreset
  have hpending : Edits day (fun l => { l with supply := 0, supplyIntex := 0 }) w₃ w₄ :=
    edits_write hwrite rfl rfl (by simp [life, creditsOf])
      fun d hd => by simp [life, creditsOf, update_of_ne hd]
  have hghost : Edits day (fun l => { l with issued := issued }) w₅ w' := by
    obtain rfl := ok_modify.mp hissued
    refine ⟨fun hwf => ⟨hwf.gate, hwf.sched⟩, fun _ => ?_, fun _ d hd => ?_, .of_eq rfl rfl⟩
    · simp [life, creditsOf]
    · simp [life, creditsOf, hd]
  exact (((((edits_writeStage hstage).trans hlast).trans hreset).trans hpending).trans
    (edits_removeGateActive hgate)).trans hghost

theorem evolves_clearInner (hwf : w.WF)
    (h : Ok (clearInner router day snapshot included) w u w') : Evolves w w' := by
  simp only [clearInner, rules, ↓existsAndEq] at h
  obtain ⟨hstage, -, v, hclose, hcredit, -⟩ := h
  obtain ⟨issued, hclose, hcredit, hissued⟩ : ∃ issued, Ok (closeDay day snapshot issued) w () v ∧
      Ok (when (w.store.pendingSupplyPromis day -
        wrappingMul 256 issued (w.store.config day).promisLoadMinor ≠ 0)
        (addToTotalUnallocated day (w.store.pendingSupplyPromis day -
          wrappingMul 256 issued (w.store.config day).promisLoadMinor))) v () w' ∧
      issued ≤ (w.life day).supplyIntex := ⟨_, hclose, hcredit, issuedIntexCount_le⟩
  have hclear : Edits day (fun l => l.cleared issued) w w' := by
    rcases ok_when.mp hcredit with ⟨hne, hcredit⟩ | ⟨hzero, rfl⟩
    · refine ((edits_closeDay hclose).trans (edits_addToTotalUnallocated hcredit)).congr ?_
      have hcredit : creditOf ((w.life day).supply - wrappingMul 256 issued (w.life day).load) =
          [w.store.pendingSupplyPromis day -
            wrappingMul 256 issued (w.store.config day).promisLoadMinor] := if_neg hne
      rw [Life.cleared, hcredit]
    · refine (edits_closeDay hclose).congr ?_
      have hcredit : creditOf ((w.life day).supply - wrappingMul 256 issued (w.life day).load) =
          [] := if_pos (not_not.mp hzero)
      rw [Life.cleared, hcredit, append_nil]
  exact .of_step hwf hclear (.clear issued hstage hissued)

theorem evolves_tickGate (hwf : w.WF) (h : Ok (tickGate router now) w u w') : Evolves w w' := by
  simp only [tickGate, rules] at h
  refine Ok.forM_attempt_inv (Evolves w) (fun d _ v v' hv hround => hv.trans ?_) h (.refl hwf)
  simp only [forceClear, rules] at hround
  obtain ⟨_, -, hround⟩ := hround
  rcases ok_ite_pure.mp hround with ⟨-, -, rfl⟩ | ⟨-, hround⟩
  · exact .refl hv.wf
  · exact evolves_clearInner hv.wf hround

end Gate

end Rudis.Desis
