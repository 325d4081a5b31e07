import Rudis.Proofs.ActiveSet
import Rudis.Spec.IntexFactory.Payout

/-!
# `Rudis.Proofs.IntexFactory.Purse`: what each payout call does to a day

`World.purse` cuts the proceeds of one day out of the registry, and `World.claimed` is the part of
the factory's balance that is held for the days. A call is described by `Edits`: it edits one day
with a function on `Purse`, leaves the others and moves the claimed balance by a number. The edits
of a call compose (`Edits.trans`).

* `trySettleProceeds_moves`: a settlement attempt does one of the things of `Settles` to its day.
* `payChunk_moves`: a pass over a distribution does one of the things of `Pays`.
* `payContributorBatch_moves`: a certified batch pays leaves of its round (`PaysLeaves`).
* `distribute_moves`: proceeds are credited, then settled.
-/

namespace Rudis.IntexFactory

open Tx Option
open Days (ActiveSet)
open Intex (Registry ContributorLeafData CertifiedContributorGeneration DistProgress
  CertifiedPayoutRound contributorChunkCapacity)

/-- The proceeds of one day. -/
structure Purse where
  pot : Nat
  deadline : Nat
  awaiting : Bool
  drained : Bool
  finalizeOnDone : Bool
  progress : Option DistProgress
  round : Option CertifiedPayoutRound
  certified : Option CertifiedContributorGeneration
  /-- How many legacy contributors are recorded. -/
  count : Nat
  /-- The nominal total of the legacy contributors. -/
  total : Nat
  /-- The certified leaves that are paid. -/
  paidLeaf : Nat → Bool

namespace World

def purse (w : World) (day : WorldwideDay) : Purse where
  pot := w.registry.proceedsPot day
  deadline := w.registry.proceedsDeadline day
  awaiting := w.registry.awaitingProceeds.has day
  drained := w.registry.activeDist.has day
  finalizeOnDone := w.registry.proceedsFinalizeOnDone day
  progress := w.registry.distProgress day
  round := w.registry.payoutRound day
  certified := w.registry.certified day
  count := (w.registry.contributors day).length
  total := w.registry.contributorTotal day
  paidLeaf := fun i =>
    (w.registry.paidLeaves day (i / contributorChunkCapacity)).testBit (i % contributorChunkCapacity)

/-- What the factory holds for the days. -/
def claimed (w : World) : Int := w.balances intexFactoryAddress - w.surplus

structure WF (w : World) : Prop where
  awaiting : w.registry.awaitingProceeds.WF
  active : w.registry.activeDist.WF

end World

namespace Purse

variable (p : Purse)

def taken : Purse := { p with pot := 0 }

/-- The day leaves the fan-in, and its contributors are cleared. -/
def finalized : Purse :=
  { p with
    pot := 0, deadline := 0, finalizeOnDone := false, awaiting := false, count := 0, total := 0 }

/-- A distribution of `amount` is in flight. -/
def distributing (amount total : Nat) : Purse :=
  { p with progress := some ⟨amount, total, 0, 0⟩, drained := true }

/-- The distribution in flight ends. -/
def finished : Purse := { p with progress := none, drained := false }

/-- How many certified leaves there are. -/
def leafCount : Nat := p.certified.elim 0 (·.contributorCount)

end Purse

/-- From one world to the other exactly one day is edited, by `g`, and what is held for the days
moves by `k`. -/
structure Edits (day : WorldwideDay) (g : Purse → Purse) (k : Int) (w w' : World) : Prop where
  wf : w.WF → w'.WF
  own : w.WF → w'.purse day = g (w.purse day)
  frame : w.WF → ∀ d, d ≠ day → w'.purse d = w.purse d
  claimed : w'.claimed = w.claimed + k

namespace Edits

variable {day : WorldwideDay} {g g' : Purse → Purse} {k k' : Int} {w w' w'' : World}

theorem refl : Edits day id 0 w w := ⟨id, fun _ => rfl, fun _ _ _ => rfl, (add_zero _).symm⟩

theorem trans (h : Edits day g k w w') (h' : Edits day g' k' w' w'') :
    Edits day (fun p => g' (g p)) (k + k') w w'' where
  wf := fun hwf => h'.wf (h.wf hwf)
  own := fun hwf => by rw [h'.own (h.wf hwf), h.own hwf]
  frame := fun hwf d hd => by rw [h'.frame (h.wf hwf) d hd, h.frame hwf d hd]
  claimed := by rw [h'.claimed, h.claimed, add_assoc]

/-- The edit only matters at the day's own purse. -/
theorem congr (h : Edits day g k w w') (heq : g (w.purse day) = g' (w.purse day)) (hk : k = k') :
    Edits day g' k' w w' :=
  { h with
    own := fun hwf => (h.own hwf).trans heq
    claimed := hk ▸ h.claimed }

/-- A write that leaves the two sets, every other day and the balances. -/
theorem of_sets (hawait : w'.registry.awaitingProceeds = w.registry.awaitingProceeds)
    (hactive : w'.registry.activeDist = w.registry.activeDist)
    (hown : w'.purse day = g (w.purse day)) (hframe : ∀ d, d ≠ day → w'.purse d = w.purse d)
    (hclaimed : w'.claimed = w.claimed + k) : Edits day g k w w' :=
  ⟨fun hwf => ⟨hawait ▸ hwf.awaiting, hactive ▸ hwf.active⟩, fun _ => hown, fun _ => hframe, hclaimed⟩

end Edits

/-! ### The writes -/

section Writes

variable {day : WorldwideDay} {w w' : World} {u : Unit} {amount : Nat}

/-- A registry write edits one day if it changes no other day and neither set. -/
theorem edits_modify {f : Registry → Registry} {g : Purse → Purse}
    (h : Ok (onRegistry (modify f)) w u w')
    (hawait : (f w.registry).awaitingProceeds = w.registry.awaitingProceeds)
    (hactive : (f w.registry).activeDist = w.registry.activeDist)
    (hown : World.purse { w with registry := f w.registry } day = g (w.purse day))
    (hframe : ∀ d, d ≠ day → World.purse { w with registry := f w.registry } d = w.purse d) :
    Edits day g 0 w w' := by
  simp only [onRegistry, ok_zoom, ok_modify, ↓existsAndEq, true_and] at h
  obtain rfl := h
  exact .of_sets hawait hactive hown hframe (add_zero _).symm

/-- What the factory sends is no longer held for a day, also when it sends it to itself. -/
theorem edits_transferValue {src dst : Address} (h : Ok (transferValue src dst amount) w u w') :
    Edits day id (if src = intexFactoryAddress then -amount else 0) w w' := by
  simp only [transferValue, onBalances, transferBalance, rules, ok_zoom, ok_when, not_lt] at h
  obtain ⟨hle, -, h⟩ := h
  have hsrc : (update w.balances src (w.balances src - amount) intexFactoryAddress : Int) =
      w.balances intexFactoryAddress +
        if src = intexFactoryAddress then -(amount : Int) else 0 := by
    split
    · rename_i heq
      subst heq
      rw [update_self]
      omega
    · rename_i hne
      rw [update_of_ne (Ne.symm hne), add_zero]
  obtain ⟨rfl, rfl⟩ | ⟨hdst, rfl⟩ := h
  all_goals refine .of_sets rfl rfl rfl (fun _ _ => rfl) ?_
  · simp only [World.claimed, update_self, Nat.cast_add]
    omega
  · simp only [World.claimed, update_of_ne (Ne.symm hdst)]
    omega

theorem edits_burnProceeds (h : Ok (burnProceeds amount) w u w') : Edits day id (-amount) w w' := by
  simp only [burnProceeds, onBalances, decreaseBalance, rules, ok_zoom, not_lt] at h
  obtain ⟨hle, rfl⟩ := h
  refine .of_sets rfl rfl rfl (fun _ _ => rfl) ?_
  simp only [World.claimed, update_self]
  omega

theorem edits_takeProceedsPot {pot : Nat}
    (h : Ok (onRegistry (Intex.takeProceedsPot day)) w pot w') :
    pot = (w.purse day).pot ∧ Edits day Purse.taken 0 w w' := by
  simp only [onRegistry, ok_zoom, Intex.takeProceedsPot, rules] at h
  obtain ⟨rfl, rfl⟩ := h
  exact ⟨rfl, .of_sets rfl rfl (by simp [World.purse, Purse.taken])
    (fun d hd => by simp [World.purse, hd]) (add_zero _).symm⟩

theorem edits_burnLatePot (h : Ok (burnLatePot day) w u w') :
    Edits day Purse.taken (-(w.purse day).pot) w w' := by
  simp only [burnLatePot, rules] at h
  obtain ⟨late, v, htake, h⟩ := h
  obtain ⟨rfl, htaken⟩ := edits_takeProceedsPot htake
  rcases ok_when.mp h with ⟨-, hburn⟩ | ⟨hzero, rfl⟩
  · exact (htaken.trans (edits_burnProceeds hburn)).congr rfl (zero_add _)
  · exact htaken.congr rfl (by rw [not_not.mp hzero]; rfl)

theorem edits_finalizeProceeds (h : Ok (onRegistry (Intex.finalizeProceeds day)) w u w') :
    Edits day Purse.finalized 0 w w' := by
  simp only [onRegistry, ok_zoom, Intex.finalizeProceeds, Intex.clearContributors, rules] at h
  obtain rfl := h
  refine ⟨fun hwf => ⟨ActiveSet.wf_remove hwf.awaiting, hwf.active⟩, fun hwf => ?_,
    fun hwf d hd => ?_, (add_zero _).symm⟩
  · simp [World.purse, Purse.finalized, ActiveSet.has_remove hwf.awaiting]
  · simp [World.purse, ActiveSet.has_remove hwf.awaiting, hd]

theorem edits_startDistribution {total : Nat}
    (h : Ok (onRegistry (Intex.startDistribution day amount total)) w u w') :
    Edits day (fun p => p.distributing amount total) 0 w w' := by
  simp only [onRegistry, ok_zoom, Intex.startDistribution, rules] at h
  obtain ⟨-, rfl⟩ := h
  refine ⟨fun hwf => ⟨hwf.awaiting, ActiveSet.wf_push hwf.active⟩, fun _ => ?_, fun _ d hd => ?_,
    (add_zero _).symm⟩
  · simp [World.purse, Purse.distributing, ActiveSet.has_push]
  · simp [World.purse, ActiveSet.has_push, hd]

theorem edits_openCertifiedPayoutRound
    (h : Ok (onRegistry (Intex.openCertifiedPayoutRound day amount)) w u w') :
    Edits day (fun p => { p with round := some ⟨amount, 0, 0⟩ }) 0 w w' := by
  simp only [onRegistry, ok_zoom, Intex.openCertifiedPayoutRound, rules] at h
  obtain ⟨-, rfl⟩ := h
  exact .of_sets rfl rfl (by simp [World.purse]) (fun d hd => by simp [World.purse, hd])
    (add_zero _).symm

end Writes

/-- The day is edited to one of the purses its own may become, and what is held for the days moves
with it. -/
def Moves (R : Purse → Int → Purse → Prop) (day : WorldwideDay) (w w' : World) : Prop :=
  ∃ g k, Edits day g k w w' ∧ R (w.purse day) k (g (w.purse day))

theorem Moves.intro {R : Purse → Int → Purse → Prop} {day : WorldwideDay} {w w' : World} {p' : Purse}
    {g : Purse → Purse} {k k' : Int} (hR : R (w.purse day) k' p') (h : Edits day g k w w')
    (hp : g (w.purse day) = p') (hk : k = k') : Moves R day w w' := by
  subst hp hk
  exact ⟨g, k, h, hR⟩

/-! ### Settling -/

section Settle

variable {day : WorldwideDay} {w w' : World} {u : Unit} {now : Nat}

/-- What a settlement attempt does to the purse of its day. -/
inductive Settles (p : Purse) : Int → Purse → Prop
  /-- The fan-in is still open, or a distribution is still in flight. -/
  | waits (pending : p.deadline ≠ 0 ∨ p.progress.isSome = true) : Settles p 0 p
  /-- The day was finalized or never armed, and nothing certifies its contributors. -/
  | unattended (deadline : p.deadline = 0) (progress : p.progress = none) (round : p.round = none)
      (certified : p.certified = none) : Settles p 0 p
  /-- The pot is burned: it came too late, or nobody is owed it. -/
  | burned : Settles p (-p.pot) p.taken
  /-- What is in the pot is burned, and the day leaves the fan-in. -/
  | closed (progress : p.progress = none) : Settles p (-p.pot) p.finalized
  | certified (progress : p.progress = none) (round : p.round = none) (leaves : p.leafCount ≠ 0) :
      Settles p 0 { p with round := some ⟨p.pot, 0, 0⟩ }.finalized
  | distributed (finalize : Bool) (deadline : p.deadline ≠ 0) (progress : p.progress = none)
      (owed : p.total ≠ 0) :
      Settles p 0 ({ p.taken with finalizeOnDone := finalize }.distributing p.pot p.total)

theorem settleCertified_moves {generation : CertifiedContributorGeneration} {v : World}
    (htake : Edits day Purse.taken 0 w v) (hprogress : (w.purse day).progress = none)
    (hround : (w.purse day).round = none) (hcertified : (w.purse day).certified = some generation)
    (h : Ok (settleCertified day generation (w.purse day).pot) v u w') :
    Moves Settles day w w' := by
  rcases ok_ite.mp h with ⟨-, h⟩ | ⟨hleaves, h⟩
  · simp only [rules] at h
    obtain ⟨v', hburn, hfinalize⟩ := h
    exact .intro (.closed hprogress) ((htake.trans (edits_burnProceeds hburn)).trans
      (edits_finalizeProceeds hfinalize)) rfl (by simp)
  · simp only [rules] at h
    obtain ⟨v', hopen, hfinalize⟩ := h
    have hcount : (w.purse day).leafCount ≠ 0 := by
      rw [Purse.leafCount, hcertified]
      exact hleaves
    exact .intro (.certified hprogress hround hcount)
      ((htake.trans (edits_openCertifiedPayoutRound hopen)).trans
        (edits_finalizeProceeds hfinalize)) rfl rfl

theorem settleLegacy_moves {complete : Bool} {v : World}
    (htake : Edits day Purse.taken 0 w v) (hprogress : (w.purse day).progress = none)
    (hdeadline : (w.purse day).deadline ≠ 0)
    (h : Ok (settleLegacy day complete (w.purse day).total (w.purse day).pot) v u w') :
    Moves Settles day w w' := by
  rcases ok_ite.mp h with ⟨-, h⟩ | ⟨howed, h⟩
  · simp only [rules] at h
    obtain ⟨v', hburn, h⟩ := h
    have hburned := htake.trans (edits_burnProceeds hburn)
    rcases ok_when.mp h with ⟨-, h⟩ | ⟨-, rfl⟩
    · exact .intro (.closed hprogress) (hburned.trans (edits_finalizeProceeds h)) rfl (by simp)
    · exact .intro .burned hburned rfl (zero_add _)
  · simp only [rules] at h
    obtain ⟨v', hfinalize, hstart⟩ := h
    have hflag : Edits day (fun p => { p with finalizeOnDone := complete }) 0 v v' :=
      edits_modify hfinalize rfl rfl (by simp [World.purse]) fun d hd => by simp [World.purse, hd]
    exact .intro (.distributed complete hdeadline hprogress howed)
      ((htake.trans hflag).trans (edits_startDistribution hstart)) rfl rfl

theorem trySettleProceeds_moves (h : Ok (trySettleProceeds day now) w u w') :
    Moves Settles day w w' := by
  simp only [trySettleProceeds, rules] at h
  rcases ok_ite_pure.mp h with ⟨hprogress, -, rfl⟩ | ⟨hprogress, h⟩
  · exact ⟨id, 0, .refl, .waits (.inr hprogress)⟩
  have hnone : (w.purse day).progress = none := not_isSome_iff_eq_none.mp hprogress
  rcases ok_ite.mp h with ⟨-, h⟩ | ⟨hround, h⟩
  · exact ⟨_, _, edits_burnLatePot h, .burned⟩
  have hround : (w.purse day).round = none := not_isSome_iff_eq_none.mp hround
  rcases ok_ite.mp h with ⟨hdeadline, h⟩ | ⟨hdeadline, h⟩
  · rcases ok_when.mp h with ⟨-, h⟩ | ⟨hcertified, rfl⟩
    · exact ⟨_, _, edits_burnLatePot h, .burned⟩
    · exact ⟨id, 0, .refl, .unattended hdeadline hnone hround (not_isSome_iff_eq_none.mp hcertified)⟩
  rcases ok_ite_pure.mp h with ⟨-, -, rfl⟩ | ⟨-, h⟩
  · exact ⟨id, 0, .refl, .waits (.inl hdeadline)⟩
  rcases ok_ite_pure.mp h with ⟨-, -, rfl⟩ | ⟨-, h⟩
  · exact ⟨id, 0, .refl, .waits (.inl hdeadline)⟩
  simp only [rules] at h
  obtain ⟨pot, v, htake, h⟩ := h
  obtain ⟨rfl, htaken⟩ := edits_takeProceedsPot htake
  rcases ok_ite.mp h with ⟨hzero, h⟩ | ⟨-, h⟩
  · exact .intro (.closed hnone) (htaken.trans (edits_finalizeProceeds h)) rfl (by simp [hzero])
  split at h
  · rename_i generation hcertified
    exact settleCertified_moves htaken hnone hround hcertified h
  · exact settleLegacy_moves htaken hnone hdeadline h

end Settle

/-! ### Legacy distributions -/

/-- What a distribution in flight still owed was paid out, as a word of 256 bits. -/
def Purse.PaidOff (p : Purse) (k : Int) : Prop :=
  ∃ old, p.progress = some old ∧ (2 ^ 256 : Int) ∣ old.amount + k - old.paidSoFar

/-- What a pass over a distribution does to the purse of its day. -/
inductive Pays (p : Purse) (k : Int) : Purse → Prop
  | continues (old new : DistProgress) (inFlight : p.progress = some old)
      (amount : new.amount = old.amount) (cursor : new.cursor < p.count)
      (paid : (2 ^ 256 : Int) ∣ new.paidSoFar + k - old.paidSoFar) :
      Pays p k { p with progress := some new }
  /-- The round ends before every chain is in; the day keeps waiting. -/
  | partly (paid : p.PaidOff k) (retained : p.finalizeOnDone = false) : Pays p k p.finished
  | last (paid : p.PaidOff k) (pot : p.pot = 0) : Pays p k p.finished.finalized
  /-- More came in while the last round was paid out. -/
  | again (paid : p.PaidOff k) (total : Nat) (final : p.finalizeOnDone = true) :
      Pays p k (p.finished.taken.distributing p.pot total)

section Drain

variable {day : WorldwideDay} {w w' : World} {u : Unit} {limit : Nat}

theorem edits_finishDistributionRound
    (h : Ok (onRegistry (Intex.finishDistributionRound day)) w u w') :
    Edits day Purse.finished 0 w w' := by
  simp only [onRegistry, ok_zoom, Intex.finishDistributionRound, ok_modify, ↓existsAndEq,
    true_and] at h
  obtain rfl := h
  refine ⟨fun hwf => ⟨hwf.awaiting, ActiveSet.wf_remove hwf.active⟩, fun hwf => ?_,
    fun hwf d hd => ?_, (add_zero _).symm⟩
  · simp [World.purse, Purse.finished, ActiveSet.has_remove hwf.active]
  · simp [World.purse, ActiveSet.has_remove hwf.active, hd]

/-- A round that has paid off its distribution ends. -/
theorem finishRound_moves {v : World} {k : Int} (hwf : w.WF) (hloop : Edits day id k w v)
    (hpaid : (w.purse day).PaidOff k) (h : Ok (finishRound day) v u w') : Moves Pays day w w' := by
  simp only [finishRound, rules] at h
  obtain ⟨v₁, hfinish, h⟩ := h
  have hfinished := hloop.trans (edits_finishDistributionRound hfinish)
  have hpurse : v₁.purse day = (w.purse day).finished := hfinished.own hwf
  have hfinal : (v₁.purse day).finalizeOnDone = (w.purse day).finalizeOnDone := by rw [hpurse]; rfl
  rcases ok_when.mp h with ⟨hflag, h⟩ | ⟨hflag, rfl⟩
  · simp only [rules] at h
    obtain ⟨pot, v₂, htake, h⟩ := h
    obtain ⟨rfl, htaken⟩ := edits_takeProceedsPot htake
    have hpot : (v₁.purse day).pot = (w.purse day).pot := by rw [hpurse]; rfl
    rcases ok_ite.mp h with ⟨hzero, h⟩ | ⟨-, h⟩
    · exact .intro (.last hpaid (hpot ▸ hzero))
        ((hfinished.trans htaken).trans (edits_finalizeProceeds h)) rfl (by simp)
    · simp only [rules] at h
      rw [hpot] at h
      exact .intro (.again hpaid _ (hfinal ▸ hflag))
        ((hfinished.trans htaken).trans (edits_startDistribution h)) rfl (by simp)
  · refine .intro (.partly hpaid ?_) hfinished rfl (add_zero _)
    rw [← hfinal]
    exact Bool.eq_false_of_not_eq_true hflag

variable {progress : DistProgress} {count paid paid' : Nat}

/-- A contributor is paid a share out of what the factory holds; the last one gets the rest. -/
theorem payContributor_pays {i : Nat} (h : Ok (payContributor day progress count paid i) w paid' w') :
    ∃ share : Nat, Edits day id (-share) w w' ∧ paid' = wrappingAdd 256 paid share ∧
      (i = count - 1 → share = wrappingSub 256 progress.amount paid) := by
  simp only [payContributor, rules, onRegistry, ok_zoom, Intex.contributorAt, ↓existsAndEq] at h
  obtain ⟨share, hshare, htransfer, rfl, -⟩ := h
  refine ⟨share, edits_transferValue htransfer, rfl, fun hlast => ?_⟩
  rw [shareOf, if_pos hlast] at hshare
  exact (Except.ok.inj hshare).symm

theorem payContributors_pay {l : List Nat}
    (h : Ok (l.foldlM (payContributor day progress count) paid) w paid' w') :
    ∃ k, Edits day id k w w' ∧ (2 ^ 256 : Int) ∣ paid' + k - paid := by
  refine Ok.foldlM_inv (fun (mid : Nat) v => ∃ k, Edits day id k w v ∧
    (2 ^ 256 : Int) ∣ mid + k - paid) ?_ h ⟨0, .refl, by simp⟩
  rintro _ _ _ _ _ _ ⟨k, hedits, hdvd⟩ hround
  obtain ⟨share, hpay, rfl, -⟩ := payContributor_pays hround
  refine ⟨_, hedits.trans hpay, ?_⟩
  simp only [wrappingAdd]
  omega

/-- A pass that reaches the last contributor pays off the distribution. -/
theorem payContributors_last {cursor : Nat} (hcursor : cursor < count)
    (h : Ok ((List.range' cursor (count - cursor)).foldlM (payContributor day progress count) paid)
      w paid' w') :
    ∃ k, Edits day id k w w' ∧ (2 ^ 256 : Int) ∣ progress.amount + k - paid := by
  rw [show count - cursor = count - 1 - cursor + 1 by omega, List.range'_concat] at h
  simp only [List.foldlM_append, List.foldlM_cons, List.foldlM_nil, rules, bind_pure] at h
  obtain ⟨mid, v, hfirst, hlast⟩ := h
  obtain ⟨k, hedits, hdvd⟩ := payContributors_pay hfirst
  obtain ⟨share, hpay, -, hshare⟩ := payContributor_pays hlast
  have hrest := hshare (by omega)
  refine ⟨_, hedits.trans hpay, ?_⟩
  simp only [wrappingSub] at hrest
  omega

theorem edits_saveProgress (h : Ok (onRegistry (Intex.saveProgress day progress)) w u w') :
    Edits day (fun p => { p with progress := some progress }) 0 w w' :=
  edits_modify h rfl rfl (by simp [World.purse]) fun d hd => by simp [World.purse, hd]

theorem payChunk_moves (hwf : w.WF)
    (hflight : ∀ d, (w.purse day).progress = some d → d.cursor < (w.purse day).count)
    (h : Ok (payChunk day limit) w u w') : Moves Pays day w w' := by
  simp only [payChunk, rules, okOr_eq_ok] at h
  obtain ⟨progress, hprogress, -, paid, v, hloop, h⟩ := h
  have hcursor := hflight progress hprogress
  rcases ok_ite.mp h with ⟨hstop, h⟩ | ⟨hstop, h⟩
  · rw [hstop] at hloop
    obtain ⟨k, hpaid, hdvd⟩ := payContributors_last hcursor hloop
    exact finishRound_moves hwf hpaid ⟨progress, hprogress, hdvd⟩ h
  · obtain ⟨k, hpaid, hdvd⟩ := payContributors_pay hloop
    have hbefore := lt_of_le_of_ne (Nat.min_le_right _ _) hstop
    exact .intro (.continues progress { progress with cursor := _, paidSoFar := paid } hprogress rfl
      hbefore hdvd) (hpaid.trans (edits_saveProgress h)) rfl (add_zero _)

end Drain

/-! ### Certified batches -/

section Certified

variable {verifyRoot : Nat → Nat → List ContributorLeafData → List B256 → B256 →
  Result Unit} {day : WorldwideDay} {w w' : World} {u : Unit}

variable {leafCount paid startIndex : Nat}

/-- The purse after a batch: its leaves are paid, and its round has advanced. -/
def Purse.batchPaid (p : Purse) (round : CertifiedPayoutRound) (startIndex leafCount paid : Nat) :
    Purse :=
  { p with
    round := some ⟨round.amount, round.paidSoFar + paid, round.paidLeafCount + leafCount⟩
    paidLeaf := fun i => p.paidLeaf i || (startIndex ≤ i && i < startIndex + leafCount) }

/-- What a certified batch does to the purse of its day. The last one burns what floor division left
of the round. -/
inductive PaysLeaves (p : Purse) : Int → Purse → Prop
  | batch (round : CertifiedPayoutRound) (startIndex leafCount paid : Nat)
      (opened : p.round = some round) (pos : 0 < leafCount)
      (range : startIndex + leafCount ≤ p.leafCount)
      (unpaid : ∀ i, startIndex ≤ i → i < startIndex + leafCount → p.paidLeaf i = false) :
      PaysLeaves p
        (-paid + if round.paidLeafCount + leafCount = p.leafCount then
          (round.paidSoFar + paid : Int) - round.amount else 0)
        (p.batchPaid round startIndex leafCount paid)

theorem edits_closeRoundIfComplete {round : CertifiedPayoutRound} {count : Nat}
    (hround : (w.purse day).round = some round) (h : Ok (closeRoundIfComplete day count) w u w') :
    Edits day id (if round.paidLeafCount = count then round.paidSoFar - round.amount else 0)
      w w' := by
  have hr : w.registry.payoutRound day = some round := hround
  simp only [closeRoundIfComplete, rules, hr, okOr_eq_ok, some.injEq, ↓existsAndEq] at h
  rcases ok_ite_pure.mp h with ⟨hne, -, rfl⟩ | ⟨heq, h⟩
  · rw [if_neg hne]
    exact .refl
  rw [if_pos (not_not.mp heq)]
  simp only [rules, okOr_eq_ok, checkedSub_eq_some] at h
  obtain ⟨hle, h⟩ := h
  rcases ok_when.mp h with ⟨-, h⟩ | ⟨hzero, rfl⟩
  · exact (edits_burnProceeds h).congr rfl (by omega)
  · exact Edits.refl.congr rfl (by omega)

/-- A batch sets the bits of its leaves. -/
theorem testBit_markLeaves {words : Nat → Nat} (hcount : leafCount ≤ contributorChunkCapacity)
    (haligned : startIndex % contributorChunkCapacity = 0) (i : Nat) :
    (update words (startIndex / contributorChunkCapacity)
        (words (startIndex / contributorChunkCapacity) ||| (2 ^ leafCount - 1))
        (i / contributorChunkCapacity)).testBit (i % contributorChunkCapacity) =
      ((words (i / contributorChunkCapacity)).testBit (i % contributorChunkCapacity) ||
        (startIndex ≤ i && i < startIndex + leafCount)) := by
  rw [← Bool.decide_and]
  by_cases hword : i / contributorChunkCapacity = startIndex / contributorChunkCapacity
  · rw [hword, update_self, Nat.testBit_or, Nat.testBit_two_pow_sub_one]
    congr 1
    rw [decide_eq_decide]
    simp only [contributorChunkCapacity] at *
    omega
  · rw [update_of_ne hword, decide_eq_false, Bool.or_false]
    simp only [contributorChunkCapacity] at *
    omega

/-- The leaves of a batch that was accepted were not paid. -/
theorem testBit_of_unpaid {words : Nat → Nat} (hcount : leafCount ≤ contributorChunkCapacity)
    (haligned : startIndex % contributorChunkCapacity = 0)
    (hunpaid : words (startIndex / contributorChunkCapacity) &&& (2 ^ leafCount - 1) = 0) {i : Nat}
    (hle : startIndex ≤ i) (hlt : i < startIndex + leafCount) :
    (words (i / contributorChunkCapacity)).testBit (i % contributorChunkCapacity) = false := by
  simp only [contributorChunkCapacity] at *
  have hbit := congrArg (Nat.testBit · (i % 2 ^ 8)) hunpaid
  simp only [Nat.testBit_and, Nat.testBit_two_pow_sub_one, Nat.zero_testBit, Bool.and_eq_false_iff,
    decide_eq_false_iff_not] at hbit
  rw [show i / 2 ^ 8 = startIndex / 2 ^ 8 by omega]
  exact hbit.resolve_right (by omega)

/-- A paid batch advances its round and touches no other part of the purse. -/
theorem edits_markCertifiedLeavesPaid
    (h : Ok (onRegistry (Intex.markCertifiedLeavesPaid day startIndex leafCount paid)) w u w') :
    ∃ round, (w.purse day).round = some round ∧ 0 < leafCount ∧
      (∀ i, startIndex ≤ i → i < startIndex + leafCount → (w.purse day).paidLeaf i = false) ∧
      Edits day (fun p => p.batchPaid round startIndex leafCount paid) 0 w w' := by
  simp only [onRegistry, ok_zoom, Intex.markCertifiedLeavesPaid, Intex.leafMask, rules, laws,
    ↓existsAndEq, checkedAdd_eq_some, not_or, not_lt] at h
  obtain ⟨hpos, hcount, haligned, hunpaid, round, hround, -, -, rfl⟩ := h
  refine ⟨round, hround, Nat.pos_of_ne_zero hpos,
    fun i => testBit_of_unpaid hcount haligned hunpaid, .of_sets rfl rfl ?_ ?_ (add_zero _).symm⟩
  · simp only [World.purse, Purse.batchPaid, update_self, testBit_markLeaves hcount haligned]
  · exact fun d hd => by simp [World.purse, hd]

theorem edits_transfers {l : List (ContributorLeafData × Nat)}
    (h : Ok (l.forM fun (leaf, share) => transferValue intexFactoryAddress leaf.owner share) w u w') :
    Edits day id (-(l.map Prod.snd).sum) w w' := by
  refine Ok.forM_visited (fun (seen : List (ContributorLeafData × Nat)) v =>
    Edits day id (-(seen.map Prod.snd).sum) w v) ?_ h .refl
  rintro seen x _ - v v' hseen hround
  refine (hseen.trans (edits_transferValue hround)).congr rfl ?_
  rw [if_pos rfl, List.map_append, List.sum_append_nat, List.map_singleton, List.sum_singleton]
  omega

/-- A certified batch pays leaves of its round that were not paid. -/
theorem payContributorBatch_moves {leaves : List ContributorLeafData} {proof : List B256}
    (hwf : w.WF) (h : Ok (payContributorBatch verifyRoot day startIndex leaves proof) w u w') :
    Moves PaysLeaves day w w' := by
  simp only [payContributorBatch, rules, Intex.verifyContributorLeafRange, Intex.resolveRange, laws,
    not_lt] at h
  obtain ⟨round, hround, -, v, hcheck, generation, hcertified, -, -, -, -, -, -, -, -, -, hrange, -, -,
    -, shares, hshares, paid, hpaid, _, -, -, v₁, htransfers, v₂, hmark, hclose⟩ := h
  simp only [onRegistry, ok_zoom, Intex.requireCertifiedLeavesUnpaid, rules, ↓existsAndEq] at hcheck
  obtain ⟨_, -, -, rfl⟩ := hcheck
  have hsum : shares.sum = paid := by
    simpa using ((foldlM_checkedAdd id _ _ (by decide)).mp hpaid).2.symm
  have hvalue : Edits day id (-paid) w v₁ := by
    refine (edits_transfers htransfers).congr rfl ?_
    rw [List.map_snd_zip (mapM_eq_ok.mp hshares).length_eq.ge, hsum]
  have hsame : v₁.purse day = w.purse day := hvalue.own hwf
  obtain ⟨round', hround', hpos, hunpaid, hmarked⟩ := edits_markCertifiedLeavesPaid hmark
  rw [hsame] at hround' hunpaid
  obtain rfl : round' = round := some.inj (hround'.symm.trans hround)
  have hpurse := (hvalue.trans hmarked).own hwf
  have hcount : (w.purse day).leafCount = generation.contributorCount :=
    congrArg (Option.elim · 0 CertifiedContributorGeneration.contributorCount) hcertified
  have hclosed := edits_closeRoundIfComplete (congrArg Purse.round hpurse) hclose
  rw [← hcount] at hrange hclosed
  exact .intro (.batch round' startIndex leaves.length paid hround hpos hrange hunpaid)
    ((hvalue.trans hmarked).trans hclosed) rfl (by simp)

theorem edits_recordOnce {contributors : List (Address × Nat)}
    (h : Ok (recordOnce day contributors) w u w') :
    (w.purse day).count = 0 ∧ ∃ count total, (total ≠ 0 → count ≠ 0) ∧
      Edits day (fun p => { p with count := count, total := total }) 0 w w' := by
  simp only [recordOnce, onRegistry, ok_zoom, Intex.recordContributors, Intex.writeContributors,
    rules, not_not] at h
  obtain ⟨hnone, -, rfl⟩ := h
  refine ⟨by simp [World.purse, hnone], contributors.length, _, ?_,
    .of_sets rfl rfl (by simp [World.purse]; rfl) (fun d hd => by simp [World.purse, hd])
      (add_zero _).symm⟩
  rintro htotal hzero
  rw [List.length_eq_zero_iff] at hzero
  subst hzero
  exact htotal rfl

theorem edits_installCertifiedContributorRoot {g : CertifiedContributorGeneration}
    (h : Ok (onRegistry (Intex.installCertifiedContributorRoot day g)) w u w') :
    (w.purse day).certified = none ∧
      Edits day (fun p => { p with certified := some g }) 0 w w' := by
  simp only [onRegistry, ok_zoom, Intex.installCertifiedContributorRoot, rules,
    not_isSome_iff_eq_none] at h
  obtain ⟨-, -, -, hnone, rfl⟩ := h
  exact ⟨hnone, .of_sets rfl rfl (by simp [World.purse]) (fun d hd => by simp [World.purse, hd])
    (add_zero _).symm⟩

end Certified

/-! ### Arming and crediting a day -/

section Credit

variable {day : WorldwideDay} {w w' : World} {u : Unit} {now : Nat}

/-- Marking the winning chains touches their flags only. -/
theorem expectChains_ok {r r' : Registry} {chains : List Nat} {expected : Nat}
    (h : Ok (chains.foldlM (Intex.expectChain day) 0) r expected r') :
    ∃ flags, r' = { r with proceedsExpected := flags } := by
  refine Ok.foldlM_inv (fun _ v => ∃ flags, v = { r with proceedsExpected := flags }) ?_ h
    ⟨r.proceedsExpected, rfl⟩
  rintro _ _ _ _ _ _ ⟨flags, rfl⟩ hround
  simp only [Intex.expectChain, ok_bind, ok_reads, and_assoc, ↓existsAndEq, true_and] at hround
  rcases ok_ite.mp hround with ⟨-, h⟩ | ⟨-, h⟩
  · simp only [ok_pure] at h
    exact ⟨flags, h.2⟩
  · simp only [ok_bind, ok_modify, ok_pure, ↓existsAndEq, exists_unit] at h
    exact ⟨_, h.2.2⟩

theorem edits_armDay {winningChains : List Nat} (h : Ok (armDay day winningChains now) w u w') :
    Edits day (fun p =>
      { p with
        deadline := saturatingAdd 64 now proceedsFaninTimeoutSecs
        awaiting := true }) 0 w w' := by
  simp only [armDay, onRegistry, rules, ok_zoom, Intex.armProceeds, ↓existsAndEq] at h
  obtain ⟨expected, r, hexpect, rfl⟩ := h
  obtain ⟨flags, rfl⟩ := expectChains_ok hexpect
  refine ⟨fun hwf => ⟨ActiveSet.wf_push hwf.awaiting, hwf.active⟩, fun _ => ?_, fun _ d hd => ?_,
    (add_zero _).symm⟩
  · simp [World.purse, ActiveSet.has_push]
  · simp [World.purse, ActiveSet.has_push, hd]

variable {srcChainId amount : Nat}

theorem edits_creditProceeds
    (h : Ok (onRegistry (Intex.creditProceeds day srcChainId amount)) w u w') :
    Edits day (fun p => { p with pot := wrappingAdd 256 p.pot amount }) 0 w w' := by
  simp only [onRegistry, ok_zoom, Intex.creditProceeds, rules, ok_when] at h
  -- counting the chain leaves the pot alone
  obtain ⟨r, ⟨-, -, rfl⟩ | ⟨-, rfl⟩, rfl⟩ := h
  all_goals
    exact .of_sets rfl rfl (by simp [World.purse]) (fun d hd => by simp [World.purse, hd])
      (add_zero _).symm

/-- A credit never fails. -/
theorem creditProceeds_ok (w : World) (day : WorldwideDay) (srcChainId amount : Nat) :
    ∃ w', Ok (onRegistry (Intex.creditProceeds day srcChainId amount)) w () w' := by
  simp only [onRegistry, ok_zoom, Intex.creditProceeds, rules, ↓existsAndEq, ok_when, id]
  by_cases hcount : w.registry.proceedsExpected day srcChainId = true ∧
      w.registry.proceedsArrived day srcChainId = false
  · exact ⟨_, .inl ⟨hcount.1, hcount.2, rfl⟩, trivial⟩
  · exact ⟨_, .inr ⟨hcount, rfl⟩, trivial⟩

/-- The router has the value of the call, and the factory can take it. -/
def Accepted (caller : Address) (amount : Nat) (w : World) : Prop :=
  caller = originRouterAddress ∧ amount ≠ 0 ∧ amount ≤ w.balances caller ∧
    w.balances intexFactoryAddress + amount < 2 ^ 256

theorem receiveValue_iff :
    Ok (receiveValue originRouterAddress amount) w u w' ↔
      amount ≤ w.balances originRouterAddress ∧ w.balances intexFactoryAddress + amount < 2 ^ 256 ∧
        w' = { w with
          balances := update (update w.balances originRouterAddress
            (w.balances originRouterAddress - amount)) intexFactoryAddress
            (w.balances intexFactoryAddress + amount) } := by
  have hne : intexFactoryAddress ≠ originRouterAddress := by decide
  simp only [receiveValue, onBalances, transferBalance, rules, ok_zoom, not_lt, not_le,
    update_of_ne hne]

/-- The value of a call is held for a day. -/
theorem edits_receiveValue (h : Ok (receiveValue originRouterAddress amount) w u w') :
    Edits day id amount w w' := by
  obtain ⟨-, -, rfl⟩ := receiveValue_iff.mp h
  refine .of_sets rfl rfl rfl (fun _ _ => rfl) ?_
  simp only [World.claimed, update_self, Nat.cast_add]
  omega

/-- Proceeds are credited, then the day is settled. -/
theorem distribute_moves {verifyRoot : Nat → Nat → List ContributorLeafData → List B256 → B256 →
      Result Unit} {caller : Address}
    (h : Ok ((Op.distribute caller day srcChainId amount now).call verifyRoot) w u w') :
    Accepted caller amount w ∧
      ∃ v, Edits day (fun p => { p with pot := wrappingAdd 256 p.pot amount }) amount w v ∧
        Moves Settles day v w' := by
  simp only [Op.call, distribute, rules, not_not] at h
  obtain ⟨v, hvalue, rfl, hamount, v₁, hcredit, hsettle⟩ := h
  obtain ⟨hbalance, hroom, -⟩ := receiveValue_iff.mp hvalue
  exact ⟨⟨rfl, hamount, hbalance, hroom⟩, v₁,
    ((edits_receiveValue hvalue).trans (edits_creditProceeds hcredit)).congr rfl (add_zero _),
    trySettleProceeds_moves hsettle⟩

end Credit

end Rudis.IntexFactory
