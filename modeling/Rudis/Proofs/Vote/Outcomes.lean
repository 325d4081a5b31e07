import Rudis.Proofs.Vote.Books

/-!
# `Rudis.Proofs.Vote.Outcomes`: how a proposal ends

`Decision` lists the three ends of a proposal: approved with its bond refunded, expired with its bond
burned, or in error with its target rolled back and its bond kept. The begin-block hook is a series
of decisions (`decisions_of_beginBlock`), and nothing else takes a proposal out of `Pending`.

* `governance_of_run`: the books and the money of the module in every state of a run, and what the
  next entry point can do to a proposal.
* `failedExpiry_keepsBond`: a target that fails on an expired tally leaves a proposal in error
  although the quorum was missed.
-/

namespace Rudis.Vote

open Tx List
open Relation (ReflTransGen)

variable {τ : Type}

/-! ### Statement -/

/-- The active validators whose entry says Yes. -/
def World.yesVoters (w : World τ) (id : Nat) : List Address :=
  w.validators.addresses.filter fun a =>
    ∃ r ∈ (w.governance.proposalVoters id).readAll, r.voter = a ∧ r.voteKind = .yes

/-- Two thirds of the active validators, of which there is one at least, voted Yes. -/
def World.Quorum (w : World τ) (id : Nat) : Prop :=
  0 < w.validators.addresses.length ∧
    2 * w.validators.addresses.length ≤ 3 * (w.yesVoters id).length

/-- The world after the proposal was approved: the bond goes back to the proposer. -/
def World.approve (w : World τ) (id : Nat) (p : ProposalRecord) (target : τ) : World τ :=
  if w.governance.proposalBondSettlement id = .noBond then
    { w with governance := w.governance.decided id p .approved, target := target }
  else
    { w with
      governance := (w.governance.decided id p .approved).released id .refunded
      target := target
      balances := moveBalance w.balances voteAddress p.proposer (w.governance.proposalBondAmount id) }

/-- The world after the proposal expired: the bond is burned. -/
def World.expire (w : World τ) (id : Nat) (p : ProposalRecord) (target : τ) : World τ :=
  if w.governance.proposalBondSettlement id = .noBond then
    { w with governance := w.governance.decided id p .expired, target := target }
  else
    { w with
      governance := (w.governance.decided id p .expired).released id .burned
      target := target
      balances := update w.balances voteAddress
        (w.balances voteAddress - w.governance.proposalBondAmount id) }

/-- The world after the target declared a failure. -/
def World.fail (w : World τ) (id : Nat) (p : ProposalRecord) : World τ :=
  { w with governance := w.governance.decided id p .error }

/-- What the target of a proposal makes of a tally. -/
def Handles (X : Chain τ) (height id : Nat) (p : ProposalRecord) (w : World τ)
    (status : ProposalStatus) (outcome : TargetExecutionOutcome) (after : τ) : Prop :=
  ∃ target, lookup X.handlers p.targetModule = .ok target ∧
    Ok (target.handleTally id p.payload
      ⟨p.proposer, w.governance.proposalBondAmount id, height, X.chainId⟩ status)
      w.target outcome after

/-- The ends of a pending proposal whose deadline has passed. -/
inductive Decision (X : Chain τ) (height id : Nat) (p : ProposalRecord) (w : World τ) :
    World τ → Prop
  | approved (after : τ) (quorum : w.Quorum id)
      (applied : Handles X height id p w .approved .applied after) :
      Decision X height id p w (w.approve id p after)
  | expired (after : τ) (missed : ¬ w.Quorum id)
      (applied : Handles X height id p w .expired .applied after) :
      Decision X height id p w (w.expire id p after)
  | failed (after : τ) (status : ProposalStatus) (reason : String)
      (tally : status = .approved ∧ w.Quorum id ∨ status = .expired ∧ ¬ w.Quorum id)
      (failed : Handles X height id p w status (.error reason) after) :
      Decision X height id p w (w.fail id p)

/-- Neither the record nor the bond of a proposal changes. -/
structure Untouched (d : Nat) (w w' : World τ) : Prop where
  record : w'.governance.proposals d = w.governance.proposals d
  amount : w'.governance.proposalBondAmount d = w.governance.proposalBondAmount d
  settlement : w'.governance.proposalBondSettlement d = w.governance.proposalBondSettlement d

/-- No vote is added either. -/
structure SameProposal (d : Nat) (w w' : World τ) : Prop extends Untouched d w w' where
  voters : w'.governance.proposalVoters d = w.governance.proposalVoters d

/-- What the accounts of the module say. -/
structure World.Audited (w : World τ) : Prop where
  liabilities : w.governance.unsettledBondLiabilities =
    ∑ id ∈ Finset.range (w.governance.proposalCount + 1), w.governance.owed id
  unallocated : ∀ id, w.governance.proposalCount < id → w.governance.owed id = 0
  solvent : w.governance.unsettledBondLiabilities ≤ w.balances voteAddress
  pending_nodup : w.governance.pendingProposalIds.Nodup
  mem_pending : ∀ id, id ∈ w.governance.pendingProposalIds ↔
    ∃ p, w.governance.proposals id = some p ∧ (p.status = .pending ∨ p.status = .error)
  one_vote : ∀ id voter,
    (w.governance.proposalVoters id).readAll.countP (fun r => r.voter = voter) ≤ 1
  bonds : ∀ id p, w.governance.proposals id = some p →
    p.status.Settles (w.governance.proposalBondSettlement id)

/-- A pending proposal whose deadline has passed. -/
def ProposalRecord.Due (p : ProposalRecord) (height : Nat) : Prop :=
  p.status = .pending ∧ p.votingDeadlineHeight < height

/-- From one world to the other a due proposal is decided, by the votes and the validators of that
moment. -/
def Decided (X : Chain τ) (height id : Nat) (p : ProposalRecord) (w w' : World τ) : Prop :=
  p.Due height ∧ ∃ v v', SameProposal id w v ∧ v.validators = w.validators ∧
    Decision X height id p v v' ∧ SameProposal id v' w'

/-- What one entry point does to the proposals there are: nothing, or the begin-block hook decides a
due one. A hook that goes through decides every due one. -/
def Governs (X : Chain τ) (op : Op) (w w' : World τ) : Prop :=
  ∀ id p, w.governance.proposals id = some p →
    (Untouched id w w' ∨ ∃ height, op = .processBeginBlock height ∧ Decided X height id p w w') ∧
      ∀ height, op = .processBeginBlock height → Ok (op.call X) w () w' → p.Due height →
        Decided X height id p w w'

/-- The vote list of a proposal has room for one more entry. -/
def Op.HasRoom : Op → World τ → Prop
  | .castVote id _ _ _, w => (w.governance.proposalVoters id).length + 1 < 2 ^ 32
  | _, _ => True

/-! ### The begin-block hook -/

section Hook

variable {X : Chain τ} {height id : Nat} {p : ProposalRecord} {w w' : World τ} {u : Unit}

theorem ok_loadProposal {g g' : Governance} :
    Ok (loadProposal id) g p g' ↔ g.proposals id = some p ∧ g' = g := by
  simp [loadProposal, and_assoc]

theorem loadProposal_same (h : Ok (onGovernance (loadProposal id)) w p w') :
    w.governance.proposals id = some p ∧ w' = w := by
  simp only [onGovernance, ok_zoom, ok_loadProposal] at h
  obtain ⟨_, ⟨hp, rfl⟩, rfl⟩ := h
  exact ⟨hp, rfl⟩

variable {bond : ProposalBond}

theorem proposalBond_same (h : Ok (onGovernance (proposalBond id)) w bond w') :
    bond = ⟨w.governance.proposalBondAmount id, w.governance.proposalBondSettlement id⟩ ∧
      w' = w := by
  simp only [onGovernance, ok_zoom, proposalBond, rules, ok_loadProposal, ↓existsAndEq] at h
  obtain ⟨_, -, -, rfl, rfl⟩ := h
  exact ⟨rfl, rfl⟩

/-- The tally of the code is the quorum of the active Yes voters. -/
theorem tallyStatus_eq (h : w.governance.Sound) (id : Nat) :
    tallyStatus w id = .approved ∧ w.Quorum id ∨ tallyStatus w id = .expired ∧ ¬ w.Quorum id := by
  have hcount : (calculateVoteTally (w.governance.proposalVoters id).readAll
      w.validators.addresses).yes = (w.yesVoters id).length :=
    tally_yes (h.votes id).nodup w.validators.nodup
  have hquorum : quorumReached (calculateVoteTally (w.governance.proposalVoters id).readAll
      w.validators.addresses).yes w.validators.addresses.length = true ↔ w.Quorum id := by
    rw [hcount, quorumReached, World.Quorum, decide_eq_true_eq, quorumNumerator, quorumDenominator]
    omega
  by_cases hq : w.Quorum id
  · refine .inl ⟨?_, hq⟩
    rw [tallyStatus, if_pos (hquorum.mpr hq)]
  · refine .inr ⟨?_, hq⟩
    rw [tallyStatus, if_neg (mt hquorum.mp hq)]

variable {status : ProposalStatus}

theorem setProposalStatus_decided (h : w.governance.Sound)
    (hp : w.governance.proposals id = some p) (hpending : p.status = .pending)
    (hne : status ≠ .pending) (hok : Ok (onGovernance (setProposalStatus id status)) w u w') :
    w' = { w with governance := w.governance.decided id p status } := by
  have hmem : id ∈ w.governance.pendingProposalIds := by
    rw [h.mem_pending]
    exact ⟨p, hp, by rw [hpending]; rfl⟩
  simp only [onGovernance, ok_zoom, setProposalStatus, ok_loadProposal, hp, Option.some.injEq,
    rules] at hok
  obtain ⟨g, hok, rfl⟩ := hok
  rw [if_neg (by rw [hpending]; exact fun h => hne h.symm)] at hok
  have hunsettled : p.status.unsettled = true := by rw [hpending]; rfl
  cases hstatus : status.unsettled with
  | true =>
    simp only [rules, when, hunsettled, hstatus, Bool.true_eq_false, and_false, and_true,
      if_false] at hok
    rw [hok, Governance.decided, hstatus]
    rfl
  | false =>
    simp only [rules, when, hunsettled, hstatus, and_self, if_true, Bool.true_eq_false,
      false_and, if_false, removePendingProposalId, hmem] at hok
    rw [hok, Governance.decided, hstatus]
    rfl

theorem handleTargetTally_ok {amount : Nat} {outcome : TargetExecutionOutcome}
    (h : Ok (handleTargetTally X id p amount height status) w outcome w') :
    ∃ target after, lookup X.handlers p.targetModule = .ok target ∧
      Ok (target.handleTally id p.payload ⟨p.proposer, amount, height, X.chainId⟩ status)
        w.target outcome after ∧
      w' = { w with target := if outcome = .applied then after else w.target } := by
  simp only [handleTargetTally, rules, onTarget, ok_zoom, ↓existsAndEq, and_true] at h
  obtain ⟨target, hlookup, after, hhandle, hroll⟩ := h
  refine ⟨target, after, hlookup, hhandle, ?_⟩
  rcases ok_when.mp hroll with ⟨hne, hroll⟩ | ⟨happlied, rfl⟩
  · simp only [ok_modify] at hroll
    rw [hroll, if_neg hne]
  · rw [if_pos (not_not.mp happlied)]

variable {settlement : BondSettlement}

theorem settleAccounting_ok
    (h : Ok (onGovernance (settleProposalBondAccounting id settlement)) w u w') :
    w' = { w with governance := w.governance.released id settlement } := by
  simp only [onGovernance, ok_zoom, settleProposalBondAccounting, rules, ok_loadProposal,
    okOr_eq_ok, checkedSub_eq_some, ↓existsAndEq] at h
  obtain ⟨_, -, -, -, rfl⟩ := h
  rfl

/-- What the settlement of a bond does, and that the balance covers it. -/
theorem settleTerminalBond_ok {owner : Address}
    (h : Ok (settleTerminalBond id owner bond status) w u w') :
    bond.settlement = .noBond ∧ w' = w ∨
    bond.settlement = .unsettled ∧ bond.amount ≤ w.balances voteAddress ∧
      (status = .approved ∧ w' = { w with
          governance := w.governance.released id .refunded
          balances := moveBalance w.balances voteAddress owner bond.amount } ∨
        status ≠ .approved ∧ w' = { w with
          governance := w.governance.released id .burned
          balances := update w.balances voteAddress
            (w.balances voteAddress - bond.amount) }) := by
  rcases ok_ite.mp h with ⟨hnone, h⟩ | ⟨-, h⟩
  · simp only [ok_pure] at h
    exact .inl ⟨hnone, h.2⟩
  simp only [rules] at h
  obtain ⟨hbond, h⟩ := h
  rcases ok_ite.mp h with ⟨hstatus, h⟩ | ⟨hstatus, h⟩
  · simp only [rules, onBalances, ok_zoom, ok_transferBalance] at h
    obtain ⟨hcover, -, hsettle⟩ := h
    refine .inr ⟨hbond, hcover, .inl ⟨hstatus, ?_⟩⟩
    rw [settleAccounting_ok hsettle]
  · simp only [rules, onBalances, ok_zoom, decreaseBalance, not_lt] at h
    obtain ⟨hcover, hsettle⟩ := h
    refine .inr ⟨hbond, hcover, .inr ⟨hstatus, ?_⟩⟩
    rw [settleAccounting_ok hsettle]

theorem ne_noBond (h : settlement = .unsettled) : settlement ≠ .noBond := by
  rw [h]
  simp

/-- A tally ends a pending proposal in one of the three ways; the balance covers its bond. -/
theorem finalizeVoting_decision (h : w.governance.Sound)
    (hp : w.governance.proposals id = some p) (hpending : p.status = .pending)
    (hok : Ok (finalizeVoting X height id) w u w') : Decision X height id p w w' := by
  simp only [finalizeVoting, rules] at hok
  obtain ⟨q, v, hload, hok⟩ := hok
  obtain ⟨hq, rfl⟩ := loadProposal_same hload
  obtain rfl := Option.some.inj (hp.symm.trans hq)
  rcases ok_ite.mp hok with ⟨hne, -⟩ | ⟨-, hok⟩
  · exact absurd hpending hne
  simp only [rules] at hok
  obtain ⟨bond, v₁, hbond, outcome, v₂, hhandle, hok⟩ := hok
  obtain ⟨rfl, rfl⟩ := proposalBond_same hbond
  obtain ⟨target, after, hlookup, hhandled, rfl⟩ := handleTargetTally_ok hhandle
  have htally := tallyStatus_eq h id
  have hstatus : tallyStatus v₁ id ≠ .pending := by
    rcases htally with ⟨ht, -⟩ | ⟨ht, -⟩ <;> simp [ht]
  rcases ok_ite.mp hok with ⟨happlied, hok⟩ | ⟨hfailed, hok⟩
  · subst happlied
    simp only [if_true, rules] at hok
    obtain ⟨v₃, hset, hsettle⟩ := hok
    obtain rfl := setProposalStatus_decided (by exact h) (by exact hp) hpending hstatus hset
    have hhandles : Handles X height id p v₁ (tallyStatus v₁ id) .applied after :=
      ⟨target, hlookup, hhandled⟩
    rcases htally with ⟨ht, hquorum⟩ | ⟨ht, hquorum⟩
    · rw [ht] at hsettle hhandles
      have hend : w' = v₁.approve id p after := by
        rcases settleTerminalBond_ok hsettle with ⟨hnone, rfl⟩ | ⟨hunsettled, -, ⟨-, rfl⟩ | ⟨hne, -⟩⟩
        · exact (if_pos hnone).symm
        · exact (if_neg (ne_noBond hunsettled)).symm
        · exact absurd rfl hne
      rw [hend]
      exact .approved after hquorum hhandles
    · rw [ht] at hsettle hhandles
      have hend : w' = v₁.expire id p after := by
        rcases settleTerminalBond_ok hsettle with ⟨hnone, rfl⟩ | ⟨hunsettled, -, ⟨heq, -⟩ | ⟨-, rfl⟩⟩
        · exact (if_pos hnone).symm
        · cases heq
        · exact (if_neg (ne_noBond hunsettled)).symm
      rw [hend]
      exact .expired after hquorum hhandles
  · simp only [if_neg hfailed] at hok
    obtain rfl := setProposalStatus_decided (by exact h) (by exact hp) hpending (by simp) hok
    cases outcome with
    | applied => exact absurd rfl hfailed
    | error reason =>
      exact .failed after (tallyStatus v₁ id) reason htally ⟨target, hlookup, hhandled⟩

/-- The books hang together, and the balance of the module covers what it owes. -/
structure World.Books (w : World τ) : Prop where
  sound : w.governance.Sound
  solvent : w.governance.unsettledBondLiabilities ≤ w.balances voteAddress

/-- A balance pays at most what it is asked for. -/
theorem le_moveBalance (balances : Address → Nat) (src dst : Address) (amount : Nat) :
    balances src - amount ≤ moveBalance balances src dst amount src := by
  unfold moveBalance
  by_cases hdst : src = dst
  · subst hdst
    simp
  · simp [hdst]

theorem Decision.books (hdecision : Decision X height id p w w') (h : w.Books)
    (hp : w.governance.proposals id = some p) (hpending : p.status = .pending) : w'.Books := by
  have hsettles := h.sound.settled id p hp
  rw [hpending] at hsettles
  have hsolvent := h.solvent
  cases hdecision with
  | approved after =>
    unfold World.approve
    split
    · rename_i hnone
      exact ⟨h.sound.decide hp hpending (.inl hnone), hsolvent⟩
    · rename_i hsome
      refine ⟨h.sound.release hp hpending (.inr rfl) (hsettles.resolve_left hsome) (.inl rfl), ?_⟩
      refine le_trans ?_ (le_moveBalance _ _ _ _)
      exact Nat.sub_le_sub_right hsolvent _
  | expired after =>
    unfold World.expire
    split
    · rename_i hnone
      exact ⟨h.sound.decide hp hpending (.inl hnone), hsolvent⟩
    · rename_i hsome
      refine ⟨h.sound.release hp hpending (.inr rfl) (hsettles.resolve_left hsome) (.inr rfl), ?_⟩
      show w.governance.unsettledBondLiabilities - w.governance.proposalBondAmount id ≤
        update w.balances voteAddress _ voteAddress
      rw [update_self]
      exact Nat.sub_le_sub_right hsolvent _
  | failed after status reason => exact ⟨h.sound.decide hp hpending hsettles, hsolvent⟩

theorem SameProposal.refl {d : Nat} : SameProposal d w w := ⟨⟨rfl, rfl, rfl⟩, rfl⟩

theorem Untouched.trans {d : Nat} {w'' : World τ} (h : Untouched d w w')
    (h' : Untouched d w' w'') : Untouched d w w'' :=
  ⟨h'.record.trans h.record, h'.amount.trans h.amount, h'.settlement.trans h.settlement⟩

theorem SameProposal.trans {d : Nat} {w'' : World τ} (h : SameProposal d w w')
    (h' : SameProposal d w' w'') : SameProposal d w w'' :=
  ⟨h.toUntouched.trans h'.toUntouched, h'.voters.trans h.voters⟩

/-- A decision is about one proposal, and leaves the validators alone. -/
theorem Decision.frame (hdecision : Decision X height id p w w') {d : Nat} (hd : d ≠ id) :
    SameProposal d w w' := by
  cases hdecision with
  | approved | expired =>
    simp only [World.approve, World.expire]
    split <;> refine ⟨⟨?_, ?_, ?_⟩, ?_⟩ <;> simp [Governance.decided, Governance.released, hd]
  | failed => refine ⟨⟨?_, ?_, ?_⟩, ?_⟩ <;> simp [World.fail, Governance.decided, hd]

theorem Decision.validators (hdecision : Decision X height id p w w') :
    w'.validators = w.validators := by
  cases hdecision with
  | approved | expired =>
    simp only [World.approve, World.expire]
    split <;> rfl
  | failed => rfl

/-- A decision takes its proposal out of `Pending`. -/
theorem Decision.record (hdecision : Decision X height id p w w') :
    ∃ q, w'.governance.proposals id = some q ∧ q.status ≠ .pending := by
  cases hdecision with
  | approved after =>
    refine ⟨{ p with status := .approved }, ?_, by simp⟩
    unfold World.approve
    split <;> simp [Governance.decided, Governance.released]
  | expired after =>
    refine ⟨{ p with status := .expired }, ?_, by simp⟩
    unfold World.expire
    split <;> simp [Governance.decided, Governance.released]
  | failed =>
    exact ⟨{ p with status := .error }, by simp [World.fail, Governance.decided], by simp⟩

/-- One due proposal is decided. -/
def Decides (X : Chain τ) (height : Nat) (w w' : World τ) : Prop :=
  ∃ id p, w.governance.proposals id = some p ∧ p.Due height ∧ Decision X height id p w w'

theorem Decides.books (hdecides : Decides X height w w') (h : w.Books) : w'.Books := by
  obtain ⟨id, p, hp, hdue, hdecision⟩ := hdecides
  exact hdecision.books h hp hdue.1

/-- No proposal of a list is due any more. -/
def NoneDue (height : Nat) (ids : List Nat) (w : World τ) : Prop :=
  ∀ id ∈ ids, ∀ p, w.governance.proposals id = some p → ¬ p.Due height

/-- The hook decides proposals until none that was listed is due. -/
theorem decisions_of_beginBlock (h : w.Books) (hok : Ok (processBeginBlock X height) w u w') :
    w'.Books ∧ ReflTransGen (Decides X height) w w' ∧
      NoneDue height w.governance.pendingProposalIds w' := by
  simp only [processBeginBlock, rules] at hok
  refine Ok.forM_visited (fun seen v => v.Books ∧ ReflTransGen (Decides X height) w v ∧
    NoneDue height seen v) ?_ hok ⟨h, .refl, fun _ hid => absurd hid not_mem_nil⟩
  rintro seen id _ - v v' ⟨hbooks, hrun, hnone⟩ hround
  simp only [rules] at hround
  obtain ⟨p, _, hload, hround⟩ := hround
  obtain ⟨hp, rfl⟩ := loadProposal_same hload
  rcases ok_when.mp hround with ⟨hdue, hround⟩ | ⟨hnot, rfl⟩
  · have hdecision := finalizeVoting_decision hbooks.sound hp hdue.1 hround
    have hdecides : Decides X height _ v' := ⟨id, p, hp, hdue, hdecision⟩
    refine ⟨hdecides.books hbooks, hrun.tail hdecides, fun d hd q hq => ?_⟩
    by_cases hdid : d = id
    · obtain ⟨r, hr, hne⟩ := hdecision.record
      obtain rfl := Option.some.inj (hr.symm.trans (hdid ▸ hq))
      exact fun hdue => hne hdue.1
    · have hseen : d ∈ seen := (mem_append.mp hd).resolve_right (by simpa using hdid)
      exact hnone d hseen q ((hdecision.frame hdid).record ▸ hq)
  · refine ⟨hbooks, hrun, fun d hd q hq => ?_⟩
    rcases mem_append.mp hd with hseen | hlast
    · exact hnone d hseen q hq
    · obtain rfl := mem_singleton.mp hlast
      obtain rfl := Option.some.inj (hp.symm.trans hq)
      exact hnot

/-- What a series of decisions does to one proposal: nothing, or one of them is its own. -/
theorem decisions_cases (hrun : ReflTransGen (Decides X height) w w') (d : Nat) :
    w'.validators = w.validators ∧ (SameProposal d w w' ∨
      ∃ q, w.governance.proposals d = some q ∧ Decided X height d q w w') := by
  induction hrun with
  | refl => exact ⟨rfl, .inl .refl⟩
  | @tail v v' _ hdecides ih =>
    obtain ⟨hvalidators, ih⟩ := ih
    obtain ⟨id, p, hp, hdue, hdecision⟩ := hdecides
    refine ⟨hdecision.validators.trans hvalidators, ?_⟩
    by_cases hd : d = id
    · subst hd
      rcases ih with hsame | ⟨q, -, -, x, x', -, -, hearlier, hsame⟩
      · exact .inr ⟨p, hsame.record ▸ hp, hdue, v, v', hsame, hvalidators, hdecision, .refl⟩
      · -- it was decided before, so it is not pending any more
        obtain ⟨r, hr, hne⟩ := hearlier.record
        obtain rfl := Option.some.inj (hr.symm.trans (hsame.record.symm.trans hp))
        exact absurd hdue.1 hne
    · have hframe := hdecision.frame hd
      rcases ih with hsame | ⟨q, hq, hqdue, x, x', hx, hxv, hdec, hsame⟩
      · exact .inl (hsame.trans hframe)
      · exact .inr ⟨q, hq, hqdue, x, x', hx, hxv, hdec, hsame.trans hframe⟩

end Hook

/-! ### The other entry points -/

section Entries

variable {X : Chain τ} {id : Nat} {p : ProposalRecord} {w w' : World τ} {u : Unit}

variable {dst proposer src targetModule voter : Address} {amount d value : Nat}

/-- A transfer to the module, or by another account, takes nothing from the module. -/
theorem balances_transfer (hsafe : src ≠ voteAddress ∨ dst = voteAddress)
    (h : Ok (onBalances (transferBalance src dst amount)) w u w') :
    w'.governance = w.governance ∧ w.balances voteAddress ≤ w'.balances voteAddress := by
  simp only [onBalances, ok_zoom, ok_transferBalance, rules] at h
  obtain ⟨hcover, -, rfl⟩ := h
  refine ⟨rfl, ?_⟩
  unfold moveBalance
  by_cases hdst : dst = voteAddress
  · subst hdst
    by_cases hsrc : src = voteAddress
    · subst hsrc
      simp only [update_self]
      omega
    · simp [Ne.symm hsrc]
  · have hsrc := hsafe.resolve_right hdst
    simp [hsrc.symm, Ne.symm hdst]

theorem World.Books.transfer (h : w.Books) (hsafe : src ≠ voteAddress ∨ dst = voteAddress)
    (hok : Ok (onBalances (transferBalance src dst amount)) w u w') :
    w'.Books ∧ ∀ d, Untouched d w w' := by
  obtain ⟨hgovernance, hbalance⟩ := balances_transfer hsafe hok
  refine ⟨⟨hgovernance ▸ h.sound, ?_⟩, fun d => ⟨?_, ?_, ?_⟩⟩
  · rw [hgovernance]
    exact h.solvent.trans hbalance
  all_goals rw [hgovernance]

variable {admission : TargetAdmission}

theorem checkAdmission_same (h : Ok (checkAdmission admission proposer value) w u w') :
    w' = w ∧ (admission = .activeValidatorOnly → proposer ≠ 0) := by
  cases admission with
  | activeValidatorOnly =>
    simp only [checkAdmission, ensureActiveValidator, rules, Bool.not_eq_false,
      contains_iff_mem] at h
    obtain ⟨-, hactive, rfl⟩ := h
    refine ⟨rfl, fun _ hzero => ?_⟩
    exact w'.validators.zero_notMem (hzero ▸ hactive)
  | publicBonded amount =>
    simp only [checkAdmission, ok_failIf] at h
    exact ⟨h.2, fun hne => by cases hne⟩

theorem checkPendingLimits_same
    (h : Ok (checkPendingLimits X admission proposer) w u w') : w' = w := by
  simp only [checkPendingLimits, rules] at h
  cases admission with
  | activeValidatorOnly =>
    simp only [ok_failIf] at h
    exact h.2
  | publicBonded amount =>
    simp only [rules] at h
    obtain ⟨_, -, -, -, rfl⟩ := h
    rfl

theorem writeProposal_ok {id : Nat} (h : Ok (onGovernance (writeProposal p)) w id w')
    (hpending : p.status = .pending) :
    id = w.governance.proposalCount + 1 ∧
      w' = { w with governance :=
        { w.governance.created p with
          proposals := update w.governance.proposals id
            (if p.proposer = 0 then none else some p) } } := by
  simp only [onGovernance, ok_zoom, writeProposal, rules, okOr_eq_ok, checkedAdd_eq_some,
    hpending, if_true] at h
  obtain ⟨-, rfl, rfl⟩ := h
  exact ⟨rfl, rfl⟩

theorem recordProposalBond_ok (h : Ok (onGovernance (recordProposalBond id amount)) w u w') :
    amount ≠ 0 ∧ (∃ q, w.governance.proposals id = some q) ∧
      w.governance.proposalBondSettlement id = .noBond ∧
      w' = { w with governance := w.governance.bonded id amount } := by
  simp only [onGovernance, ok_zoom, recordProposalBond, rules, ok_loadProposal, okOr_eq_ok,
    checkedAdd_eq_some, not_or, id_eq, ↓existsAndEq] at h
  obtain ⟨hamount, q, hq, hsettlement, -, -, rfl⟩ := h
  exact ⟨hamount, ⟨q, hq⟩, hsettlement, rfl⟩

/-- A bond is recorded for a proposal that has none, and is covered. -/
theorem escrowBond_ok (h : Ok (escrowBond admission id) w u w') :
    admission = .activeValidatorOnly ∧ w' = w ∨
    ∃ amount, amount ≠ 0 ∧ (∃ q, w.governance.proposals id = some q) ∧
      w.governance.proposalBondSettlement id = .noBond ∧
      w' = { w with governance := w.governance.bonded id amount } ∧
      w'.governance.unsettledBondLiabilities ≤ w'.balances voteAddress := by
  cases admission with
  | activeValidatorOnly =>
    simp only [escrowBond, ok_pure] at h
    exact .inl ⟨rfl, h.2⟩
  | publicBonded amount =>
    simp only [escrowBond, rules, id_eq, not_lt, ↓existsAndEq] at h
    obtain ⟨hrecord, hcovered, -⟩ := h
    obtain ⟨hamount, hq, hsettlement, hv⟩ := recordProposalBond_ok hrecord
    exact .inr ⟨amount, hamount, hq, hsettlement, hv, hcovered⟩

/-- Enrolling a proposal changes no other one. -/
theorem untouched_created (h : w.governance.Sound) {q : ProposalRecord}
    (hq : w.governance.proposals d = some q)
    (hothers : ∀ i, i ≠ w.governance.proposalCount + 1 → Untouched i w w') : Untouched d w w' := by
  have := h.allocated d q hq
  exact hothers d (by omega)

/-- A created proposal is pending, and the module can pay its bond. -/
theorem createProposal_books {payload : String}
    {height value id : Nat} (h : w.Books)
    (hok : Ok (createProposalWithValue X proposer targetModule payload height value) w id w') :
    w'.Books ∧ ∀ d q, w.governance.proposals d = some q → Untouched d w w' := by
  simp only [createProposalWithValue, rules, onTarget, ok_zoom, ↓existsAndEq, and_true] at hok
  obtain ⟨target, -, v, hadmit, -, v₁, hlimits, -, v₂, hwrite, after, -, hescrow⟩ := hok
  obtain ⟨rfl, hproposer⟩ := checkAdmission_same hadmit
  obtain rfl := checkPendingLimits_same hlimits
  obtain ⟨rfl, rfl⟩ := writeProposal_ok hwrite rfl
  rcases escrowBond_ok hescrow with ⟨hadmission, rfl⟩ | ⟨amount, hamount, ⟨q, hq⟩, hbond, rfl, hcovered⟩
  · have hne := hproposer hadmission
    simp only [hne, if_false]
    refine ⟨⟨h.sound.create rfl, h.solvent⟩, fun d q hq => untouched_created h.sound hq fun i hi => ?_⟩
    exact ⟨update_of_ne hi _ _, rfl, rfl⟩
  · -- the bond was recorded, so the record exists and has a proposer
    have hne : proposer ≠ 0 := by
      rintro rfl
      simp at hq
    simp only [hne, if_false] at hq hcovered ⊢
    have hcreated := h.sound.create (p := ⟨proposer, targetModule, payload, height,
      saturatingAdd 64 height X.votingWindowBlocks, .pending⟩) rfl
    refine ⟨⟨hcreated.bond (update_self ..) rfl hbond hamount, hcovered⟩,
      fun d q hq => untouched_created h.sound hq fun i hi => ?_⟩
    exact ⟨update_of_ne hi _ _, update_of_ne hi _ _, update_of_ne hi _ _⟩

theorem castVote_books {approve : Bool} {height : Nat} (h : w.Books)
    (hroom : (w.governance.proposalVoters id).length + 1 < 2 ^ 32)
    (hok : Ok (castVoteApprove id voter approve height) w u w') :
    w'.Books ∧ ∀ d, Untouched d w w' := by
  simp only [castVoteApprove, ensureActiveValidator, rules] at hok
  obtain ⟨-, q, v, hload, -, -, hfresh, hwrite⟩ := hok
  obtain ⟨-, rfl⟩ := loadProposal_same hload
  have hposition : v.governance.votesMap id voter = 0 := by
    by_contra hne
    obtain ⟨i, hi⟩ := exists_eq_succ_of_ne_zero hne
    obtain ⟨r, hr, -⟩ := (h.sound.votes id voter i).mpr hi
    apply hfresh
    rw [readVote, if_neg hne, StorageVec.get_eq, hi, Nat.succ_sub_one, hr]
    rfl
  simp only [onGovernance, ok_zoom, writeVote, rules, ok_loadProposal, ↓existsAndEq] at hwrite
  obtain ⟨_, -, rfl⟩ := hwrite
  refine ⟨⟨?_, h.solvent⟩, fun _ => ⟨rfl, rfl, rfl⟩⟩
  exact h.sound.vote (r := ⟨voter, .ofApprove approve, height⟩) hposition hroom

end Entries

/-! ### Runs -/

section Runs

variable {X : Chain τ} {w w' : World τ} {u : Unit}

theorem World.Books.audited (h : w.Books) : w.Audited where
  liabilities := h.sound.liabilities
  unallocated := by
    intro id hid
    have hnone : w.governance.proposals id = none := by
      by_contra hne
      obtain ⟨p, hp⟩ := Option.ne_none_iff_exists'.mp hne
      have := h.sound.allocated id p hp
      omega
    simp [Governance.owed, h.sound.unbonded id hnone]
  solvent := h.solvent
  pending_nodup := h.sound.pending_nodup
  mem_pending := by
    intro id
    rw [h.sound.mem_pending]
    refine exists_congr fun p => and_congr_right fun _ => ?_
    cases p.status <;> simp [ProposalStatus.unsettled]
  one_vote := by
    intro id voter
    have hnodup := (h.sound.votes id).nodup
    have hcount := nodup_iff_count_le_one.mp hnodup voter
    rwa [count, countP_map] at hcount
  bonds := h.sound.settled

/-- Every entry point but the hook leaves the proposals alone. -/
theorem Governs.of_untouched {op : Op} (hop : ∀ height, op ≠ .processBeginBlock height)
    (h : ∀ id p, w.governance.proposals id = some p → Untouched id w w') : Governs X op w w' :=
  fun id p hp => ⟨.inl (h id p hp), fun height heq => absurd heq (hop height)⟩

theorem books_call {op : Op} (h : w.Books) (hroom : op.HasRoom w)
    (hok : Ok (op.call X) w u w') : w'.Books ∧ Governs X op w w' := by
  cases op with
  | createProposal proposer targetModule payload height value =>
    simp only [Op.call, rules] at hok
    obtain ⟨v, hvalue, id, _, hcreate, -, rfl⟩ := hok
    obtain ⟨hpaid, hsame⟩ := h.transfer (.inr rfl) hvalue
    obtain ⟨hbooks, hothers⟩ := createProposal_books hpaid hcreate
    exact ⟨hbooks, .of_untouched (by simp) fun d p hp =>
      (hsame d).trans (hothers d p ((hsame d).record.trans hp))⟩
  | castVote id voter approve height =>
    obtain ⟨hbooks, hsame⟩ := castVote_books h hroom hok
    exact ⟨hbooks, .of_untouched (by simp) fun d _ _ => hsame d⟩
  | processBeginBlock height =>
    obtain ⟨hbooks, hrun, hnone⟩ := decisions_of_beginBlock h hok
    refine ⟨hbooks, fun d p hp => ?_⟩
    rcases (decisions_cases hrun d).2 with hsame | ⟨q, hq, hdecided⟩
    · -- a due proposal is pending, so the hook has listed it
      refine ⟨.inl hsame.toUntouched, fun height' heq _ hdue => absurd ?_ (hnone d ?_ p ?_)⟩
      · cases heq
        exact hdue
      · rw [h.sound.mem_pending]
        exact ⟨p, hp, by rw [hdue.1]; rfl⟩
      · exact hsame.record.trans hp
    · obtain rfl := Option.some.inj (hp.symm.trans hq)
      refine ⟨.inr ⟨height, rfl, hdecided⟩, fun height' heq _ _ => ?_⟩
      cases heq
      exact hdecided
  | setValidators validators =>
    simp only [Op.call, ok_modify] at hok
    obtain rfl := hok
    exact ⟨⟨h.sound, h.solvent⟩, .of_untouched (by simp) fun _ _ _ => ⟨rfl, rfl, rfl⟩⟩
  | transfer src dst amount =>
    simp only [Op.call, rules] at hok
    obtain ⟨hsrc, hok⟩ := hok
    obtain ⟨hbooks, hsame⟩ := h.transfer (.inl hsrc) hok
    exact ⟨hbooks, .of_untouched (by simp) fun d _ _ => hsame d⟩

theorem books_step (op : Op) (w : World τ) (hroom : op.HasRoom w) (h : w.Books) :
    (step X op w).Books ∧ Governs X op w (step X op w) := by
  rcases checkpoint_cases (op.call X) w with ⟨_, hok⟩ | hsame
  · exact books_call h hroom hok
  · rw [step, hsame]
    refine ⟨h, fun d p hp => ⟨.inl ⟨rfl, rfl, rfl⟩, fun height heq hok hdue => ?_⟩⟩
    -- were the hook to go through without a change, nothing would have been due
    exact ((books_call h hroom hok).2 d p hp).2 height heq hok hdue

theorem books_genesis (target : τ) (balances : Address → Nat) (validators : Validators) :
    (World.genesis target balances validators).Books :=
  ⟨Governance.sound_empty, Nat.zero_le _⟩

end Runs

/-- The accounts of the module in every state of a run, and what any entry point does to a proposal
there. -/
theorem governance_of_run (X : Chain τ) (target : τ) (balances : Address → Nat)
    (validators : Validators) (ops : List Op)
    (hroom : Runs.Along (step X) Op.HasRoom ops (World.genesis target balances validators)) :
    let w := Runs.run (step X) ops (World.genesis target balances validators)
    w.Audited ∧ ∀ op : Op, op.HasRoom w → Governs X op w (step X op w) := by
  intro w
  have hbooks : w.Books := Runs.run_inv World.Books
    (fun op v hop hv => (books_step op v hop hv).1) hroom (books_genesis target balances validators)
  exact ⟨hbooks.audited, fun op hop => (books_step op w hop hbooks).2⟩

/-! ### Two proposals -/

/-- A public target with a bond of ten that declares a failure on an expired tally. -/
def bondedTarget : VoteTarget Nat where
  targetModule := 9
  admission := .publicBonded 10
  validate := fun _ _ => .ok ()
  reserve := fun _ _ _ => pure ()
  handleTally := fun _ _ _ status => do
    modify (· + 1)
    pure (if status = .approved then .applied else .error "nothing to release")

def smallChain : Chain Nat where
  handlers := [bondedTarget]
  votingWindowBlocks := 5
  chainId := 1

def oneValidator : Validators := ⟨[1], by decide, by decide⟩

def proposerFunds : Address → Nat := fun a => if a = 7 then 25 else 0

/-- A proposal is voted through; the run has room for its vote. -/
theorem governance_of_approval :
    let ops : List Op := [.createProposal 7 9 "payload" 100 10, .castVote 1 1 true 103,
      .processBeginBlock 106]
    let w := Runs.run (step smallChain) ops (World.genesis 0 proposerFunds oneValidator)
    w.Audited ∧ (w.governance.proposals 1).map (·.status) = some .approved ∧
      w.governance.proposalBondSettlement 1 = .refunded ∧ w.balances 7 = 25 := by
  intro ops w
  refine ⟨?_, by decide +kernel⟩
  have hroom : Runs.Along (step smallChain) Op.HasRoom ops
      (World.genesis 0 proposerFunds oneValidator) :=
    ⟨trivial, by show (_ : Nat) < _; decide +kernel, trivial, trivial⟩
  exact (governance_of_run smallChain 0 proposerFunds oneValidator ops hroom).1

/-- Nobody votes, so the quorum is missed; the target fails on the expired tally, and the proposal
ends in error with its bond unsettled. -/
theorem failedExpiry_keepsBond :
    let ops : List Op := [.createProposal 7 9 "payload" 100 10, .processBeginBlock 106]
    let w := Runs.run (step smallChain) ops (World.genesis 0 proposerFunds oneValidator)
    (w.governance.proposals 1).map (·.status) = some .error ∧ ¬ w.Quorum 1 ∧
      w.governance.proposalBondSettlement 1 = .unsettled ∧ w.target = 0 := by
  intro ops w
  unfold World.Quorum
  decide +kernel

end Rudis.Vote
