import Rudis.Lib.Sums
import Rudis.Spec.Vote

/-!
# `Rudis.Proofs.Vote.Books`: the books of the Vote module

`Governance.Sound` says that the pending index lists the unsettled proposals, that every voter has
one entry, and that the bond of a proposal is settled as its status says. Each call of the module on
its own storage keeps it; what a call does to the rest of the world is in
`Rudis.Proofs.Vote.Outcomes`.

* `Governance.Sound.create`, `.bond`, `.vote`, `.decide`, `.release`: the five changes of the books.
* `tally_yes`: the tally counts the active validators with a Yes entry.
-/

namespace Rudis.Vote

open List

/-! ### The books -/

namespace Governance

variable {g : Governance} {id : Nat}

/-- What the module owes for a proposal. -/
def owed (g : Governance) (id : Nat) : Nat :=
  if g.proposalBondSettlement id = .unsettled then g.proposalBondAmount id else 0

/-- The entry of each voter is where the vote map says. -/
def VotesIndexed (votes : List VoteRecord) (position : Address → Nat) : Prop :=
  ∀ voter i, (∃ r, votes[i]? = some r ∧ r.voter = voter) ↔ position voter = i + 1

end Governance

def ProposalStatus.Settles : ProposalStatus → BondSettlement → Prop
  | .pending, s | .error, s => s = .noBond ∨ s = .unsettled
  | .approved, s => s = .noBond ∨ s = .refunded
  | .expired, s => s = .noBond ∨ s = .burned
  | .rejected, _ => False

/-- The books of the module hang together. -/
structure Governance.Sound (g : Governance) : Prop where
  pending_nodup : g.pendingProposalIds.Nodup
  mem_pending : ∀ id, id ∈ g.pendingProposalIds ↔
    ∃ p, g.proposals id = some p ∧ p.status.unsettled = true
  allocated : ∀ id p, g.proposals id = some p → id ≤ g.proposalCount
  settled : ∀ id p, g.proposals id = some p → p.status.Settles (g.proposalBondSettlement id)
  unbonded : ∀ id, g.proposals id = none → g.proposalBondSettlement id = .noBond
  amount_zero : ∀ id, g.proposalBondSettlement id = .noBond ↔ g.proposalBondAmount id = 0
  liabilities : g.unsettledBondLiabilities = ∑ id ∈ Finset.range (g.proposalCount + 1), g.owed id
  votes : ∀ id, Governance.VotesIndexed (g.proposalVoters id).readAll (g.votesMap id)
  voters_room : ∀ id, (g.proposalVoters id).length < 2 ^ 32

namespace Governance.VotesIndexed

variable {votes : List VoteRecord} {position : Address → Nat}

theorem nodup (h : VotesIndexed votes position) : (votes.map (·.voter)).Nodup := by
  rw [nodup_iff_getElem?_ne_getElem?]
  intro i j hij hj heq
  simp only [length_map] at hj
  have hjth : votes[j]? = some votes[j] := getElem?_eq_getElem hj
  have hith : votes[i]? = some votes[i] := getElem?_eq_getElem (by omega)
  rw [getElem?_map, getElem?_map, hith, hjth] at heq
  have hvoter : votes[i].voter = votes[j].voter := Option.some.inj heq
  have hi := (h votes[j].voter i).mp ⟨_, hith, hvoter⟩
  have hj := (h votes[j].voter j).mp ⟨_, hjth, rfl⟩
  omega

/-- A voter without an entry appends one. -/
theorem concat (h : VotesIndexed votes position) {r : VoteRecord} (hfresh : position r.voter = 0) :
    VotesIndexed (votes ++ [r]) (update position r.voter (votes.length + 1)) := by
  intro voter i
  by_cases hvoter : voter = r.voter
  · subst hvoter
    rw [update_self]
    constructor
    · rintro ⟨s, hs, hsv⟩
      rw [getElem?_append] at hs
      split at hs
      · have := (h r.voter i).mp ⟨s, hs, hsv⟩
        omega
      · have hlt := (List.getElem?_eq_some_iff.mp hs).1
        simp only [length_singleton] at hlt
        omega
    · intro hi
      obtain rfl : votes.length = i := by omega
      exact ⟨r, by simp, rfl⟩
  · rw [update_of_ne hvoter, ← h voter i]
    constructor
    · rintro ⟨s, hs, hsv⟩
      rw [getElem?_append] at hs
      split at hs
      · exact ⟨s, hs, hsv⟩
      · have hmem := mem_of_getElem? hs
        rw [mem_singleton] at hmem
        exact absurd (hsv.symm.trans (congrArg VoteRecord.voter hmem)) hvoter
    · rintro ⟨s, hs, hsv⟩
      refine ⟨s, ?_, hsv⟩
      rw [List.getElem?_append_left (List.getElem?_eq_some_iff.mp hs).1]
      exact hs

end Governance.VotesIndexed

/-! ### Tallies -/

section Tally

variable {votes : List VoteRecord} {active : List Address}

theorem foldl_count_yes (t : VoteTally) :
    (votes.foldl (VoteTally.count active) t).yes =
      t.yes + (votes.filter fun r => r.voter ∈ active ∧ r.voteKind = .yes).length := by
  induction votes generalizing t with
  | nil => rfl
  | cons r votes ih =>
    rw [foldl_cons, ih, filter_cons, VoteTally.count]
    by_cases hactive : r.voter ∈ active
    · cases hkind : r.voteKind with
      | yes =>
        simp only [contains_iff_mem, hactive, if_true, and_self, decide_true, length_cons]
        omega
      | no => simp [hactive]
    · simp [hactive]

/-- With one entry per voter, the tally counts the active validators that voted Yes. -/
theorem tally_yes (hvoters : (votes.map (·.voter)).Nodup) (hactive : active.Nodup) :
    (calculateVoteTally votes active).yes =
      (active.filter fun a => ∃ r ∈ votes, r.voter = a ∧ r.voteKind = .yes).length := by
  have hcount : (calculateVoteTally votes active).yes =
      (votes.filter fun r => r.voter ∈ active ∧ r.voteKind = .yes).length := by
    rw [calculateVoteTally, foldl_count_yes]
    exact zero_add _
  rw [hcount, ← length_map (f := VoteRecord.voter)]
  refine List.Perm.length_eq ((perm_ext_iff_of_nodup ?_ ?_).mpr ?_)
  · exact List.Nodup.sublist (filter_sublist.map _) hvoters
  · exact hactive.filter _
  · intro a
    simp only [mem_map, mem_filter, decide_eq_true_eq]
    constructor
    · rintro ⟨r, ⟨hr, hmem, hkind⟩, rfl⟩
      exact ⟨hmem, r, hr, rfl, hkind⟩
    · rintro ⟨hmem, r, hr, rfl, hkind⟩
      exact ⟨r, ⟨hr, hmem, hkind⟩, rfl⟩

end Tally

/-! ### Changes of the books -/

namespace Governance

variable {g g' : Governance} {id : Nat} {p : ProposalRecord}

/-- The next proposal is enrolled. -/
def created (g : Governance) (p : ProposalRecord) : Governance :=
  { g with
    proposalCount := g.proposalCount + 1
    proposals := update g.proposals (g.proposalCount + 1) (some p)
    pendingProposalIds := g.pendingProposalIds ++ [g.proposalCount + 1] }

def bonded (g : Governance) (id amount : Nat) : Governance :=
  { g with
    proposalBondAmount := update g.proposalBondAmount id amount
    proposalBondSettlement := update g.proposalBondSettlement id .unsettled
    unsettledBondLiabilities := g.unsettledBondLiabilities + amount }

def voted (g : Governance) (id : Nat) (r : VoteRecord) : Governance :=
  { g with
    proposalVoters := update g.proposalVoters id ((g.proposalVoters id).push r)
    votesMap := update g.votesMap id
      (update (g.votesMap id) r.voter (wrappingAdd 32 (g.proposalVoters id).length 1)) }

/-- A pending proposal takes another status. -/
def decided (g : Governance) (id : Nat) (p : ProposalRecord) (status : ProposalStatus) :
    Governance :=
  { g with
    proposals := update g.proposals id (some { p with status := status })
    pendingProposalIds :=
      if status.unsettled then g.pendingProposalIds
      else g.pendingProposalIds.swapRemove (g.pendingProposalIds.idxOf id) }

def released (g : Governance) (id : Nat) (settlement : BondSettlement) : Governance :=
  { g with
    proposalBondSettlement := update g.proposalBondSettlement id settlement
    unsettledBondLiabilities := g.unsettledBondLiabilities - g.proposalBondAmount id }

theorem sound_empty : empty.Sound where
  pending_nodup := nodup_nil
  mem_pending := fun id => by simp [empty]
  allocated := fun _ _ h => by cases h
  settled := fun _ _ h => by cases h
  unbonded := fun _ _ => rfl
  amount_zero := fun _ => iff_of_true rfl rfl
  liabilities := rfl
  votes := fun id voter i => by simp [empty]
  voters_room := fun _ => by simp [empty, StorageVec.empty]

/-- An id past the counter is free. -/
theorem Sound.next_free (h : g.Sound) : g.proposals (g.proposalCount + 1) = none := by
  by_contra hne
  obtain ⟨p, hp⟩ := Option.ne_none_iff_exists'.mp hne
  have := h.allocated _ p hp
  omega

/-- A change of one proposal: the others and the votes stay. -/
theorem Sound.edit (h : g.Sound)
    (hoff : ∀ d, d ≠ id → g'.proposals d = g.proposals d ∧
      g'.proposalBondSettlement d = g.proposalBondSettlement d ∧
      g'.proposalBondAmount d = g.proposalBondAmount d)
    (hcount : g.proposalCount ≤ g'.proposalCount) (hid : id ≤ g'.proposalCount)
    (hp : g'.proposals id = some p) (hsettles : p.status.Settles (g'.proposalBondSettlement id))
    (hamount : g'.proposalBondSettlement id = .noBond ↔ g'.proposalBondAmount id = 0)
    (hpending : g'.pendingProposalIds.Nodup ∧ ∀ d, d ∈ g'.pendingProposalIds ↔
      ∃ q, g'.proposals d = some q ∧ q.status.unsettled = true)
    (hliabilities : g'.unsettledBondLiabilities =
      ∑ d ∈ Finset.range (g'.proposalCount + 1), g'.owed d)
    (hvotes : g'.proposalVoters = g.proposalVoters ∧ g'.votesMap = g.votesMap) : g'.Sound := by
  have hrest : ∀ d, d ≠ id → ∀ q, g'.proposals d = some q →
      d ≤ g'.proposalCount ∧ q.status.Settles (g'.proposalBondSettlement d) := by
    intro d hd q hq
    obtain ⟨hp', hs, -⟩ := hoff d hd
    rw [hp'] at hq
    exact ⟨(h.allocated d q hq).trans hcount, hs ▸ h.settled d q hq⟩
  refine ⟨hpending.1, hpending.2, fun d q hq => ?_, fun d q hq => ?_, fun d hd => ?_, fun d => ?_,
    hliabilities, hvotes.1 ▸ hvotes.2 ▸ h.votes, hvotes.1 ▸ h.voters_room⟩
  · by_cases hd : d = id
    · exact hd ▸ hid
    · exact (hrest d hd q hq).1
  · by_cases hd : d = id
    · subst hd
      exact Option.some.inj (hp.symm.trans hq) ▸ hsettles
    · exact (hrest d hd q hq).2
  · have hne : d ≠ id := by
      rintro rfl
      cases hp.symm.trans hd
    obtain ⟨hp', hs, -⟩ := hoff d hne
    exact hs ▸ h.unbonded d (hp' ▸ hd)
  · by_cases hd : d = id
    · exact hd ▸ hamount
    · obtain ⟨-, hs, ha⟩ := hoff d hd
      rw [hs, ha]
      exact h.amount_zero d

theorem Sound.create (h : g.Sound) (hstatus : p.status = .pending) : (g.created p).Sound := by
  have hfree := h.next_free
  have hbond := h.unbonded _ hfree
  have hnot : g.proposalCount + 1 ∉ g.pendingProposalIds := by
    rw [h.mem_pending, hfree]
    rintro ⟨_, hsome, -⟩
    cases hsome
  refine h.edit (fun d (hd : d ≠ g.proposalCount + 1) => ⟨update_of_ne hd .., rfl, rfl⟩)
    (Nat.le_succ _) le_rfl (update_self ..) ?_ (h.amount_zero _) ⟨?_, fun id => ?_⟩ ?_ ⟨rfl, rfl⟩
  · rw [hstatus]
    exact .inl hbond
  · exact nodup_append.mpr ⟨h.pending_nodup, nodup_singleton _, fun a ha b hb hab =>
      hnot (mem_singleton.mp hb ▸ hab ▸ ha)⟩
  · simp only [created, mem_append, mem_singleton, h.mem_pending]
    by_cases hid : id = g.proposalCount + 1
    · subst hid
      simp [hstatus, ProposalStatus.unsettled]
    · simp [hid]
  · show g.unsettledBondLiabilities = ∑ id ∈ Finset.range (g.proposalCount + 1 + 1), g.owed id
    have hzero : g.owed (g.proposalCount + 1) = 0 := by simp [owed, hbond]
    rw [Finset.sum_range_succ, hzero, add_zero]
    exact h.liabilities

theorem Sound.bond (h : g.Sound) {amount : Nat} (hp : g.proposals id = some p)
    (hstatus : p.status = .pending) (hbond : g.proposalBondSettlement id = .noBond)
    (hamount : amount ≠ 0) : (g.bonded id amount).Sound := by
  have hid := h.allocated id p hp
  refine h.edit (fun d hd => ⟨rfl, update_of_ne hd .., update_of_ne hd ..⟩) le_rfl hid hp ?_ ?_
    ⟨h.pending_nodup, h.mem_pending⟩ ?_ ⟨rfl, rfl⟩
  · rw [hstatus]
    exact .inr (update_self ..)
  · simp [bonded, hamount]
  · have hedit := Sums.sum_range_edit (f := g.owed) (g := (g.bonded id amount).owed)
      (Nat.lt_add_one_of_le hid) fun d hd => by simp [owed, bonded, hd]
    have hold : g.owed id = 0 := by simp [owed, hbond]
    have hnew : (g.bonded id amount).owed id = amount := by simp [owed, bonded]
    rw [hold, hnew, ← h.liabilities] at hedit
    exact hedit.symm

theorem Sound.vote (h : g.Sound) {r : VoteRecord} (hfresh : g.votesMap id r.voter = 0)
    (hroom : (g.proposalVoters id).length + 1 < 2 ^ 32) : (g.voted id r).Sound := by
  refine { h with votes := fun d => ?_, voters_room := fun d => ?_ }
  · simp only [voted]
    by_cases hd : d = id
    · subst hd
      rw [update_self, update_self, StorageVec.readAll_push hroom,
        wrappingAdd_eq hroom, ← StorageVec.length_readAll]
      exact (h.votes d).concat hfresh
    · rw [update_of_ne hd, update_of_ne hd]
      exact h.votes d
  · simp only [voted]
    by_cases hd : d = id
    · subst hd
      rw [update_self]
      exact mod_lt _ (by decide)
    · rw [update_of_ne hd]
      exact h.voters_room d

/-- The first place of an element indexes a list without duplicates. -/
theorem indexedBy_idxOf {l : List Nat} (h : l.Nodup) : List.IndexedBy l.idxOf l := by
  intro i a hi
  obtain ⟨hlt, rfl⟩ := List.getElem?_eq_some_iff.mp hi
  exact h.idxOf_getElem i hlt

/-- A decision takes the proposal out of the index, unless it ended in an error. -/
theorem Sound.pending_decided (h : g.Sound) (hp : g.proposals id = some p)
    (hpending : p.status = .pending) (status : ProposalStatus) :
    (g.decided id p status).pendingProposalIds.Nodup ∧
      ∀ d, d ∈ (g.decided id p status).pendingProposalIds ↔
        ∃ q, (g.decided id p status).proposals d = some q ∧ q.status.unsettled = true := by
  have hmem : id ∈ g.pendingProposalIds := by
    rw [h.mem_pending]
    exact ⟨p, hp, by rw [hpending]; rfl⟩
  have hindexed := indexedBy_idxOf h.pending_nodup
  cases hstatus : status.unsettled with
  | true =>
    simp only [decided, hstatus, if_true]
    refine ⟨h.pending_nodup, fun d => ?_⟩
    by_cases hd : d = id
    · subst hd
      simp [hmem, hstatus]
    · rw [update_of_ne hd]
      exact h.mem_pending d
  | false =>
    simp only [decided, hstatus, Bool.false_eq_true, if_false]
    refine ⟨?_, fun d => ?_⟩
    · have hperm := swapRemove_cons_perm (hindexed.getElem? hmem)
      exact (nodup_cons.mp (hperm.nodup_iff.mpr h.pending_nodup)).2
    · rw [hindexed.mem_swapRemove hmem]
      by_cases hd : d = id
      · subst hd
        simp [hstatus]
      · rw [update_of_ne hd, h.mem_pending d]
        simp [hd]

variable {status : ProposalStatus}

/-- A decision that leaves the bond alone. -/
theorem Sound.decide (h : g.Sound) (hp : g.proposals id = some p) (hpending : p.status = .pending)
    (hsettles : status.Settles (g.proposalBondSettlement id)) :
    (g.decided id p status).Sound :=
  h.edit (fun _ hd => ⟨update_of_ne hd .., rfl, rfl⟩) le_rfl (h.allocated id p hp) (update_self ..)
    hsettles (h.amount_zero id) (h.pending_decided hp hpending status) h.liabilities ⟨rfl, rfl⟩

/-- A decision that settles the bond. -/
theorem Sound.release (h : g.Sound) (hp : g.proposals id = some p) (hpending : p.status = .pending)
    {settlement : BondSettlement} (hsettles : status.Settles settlement)
    (hbond : g.proposalBondSettlement id = .unsettled)
    (hdone : settlement = .refunded ∨ settlement = .burned) :
    ((g.decided id p status).released id settlement).Sound := by
  have hid := h.allocated id p hp
  refine h.edit (fun _ hd => ⟨update_of_ne hd .., update_of_ne hd .., rfl⟩) le_rfl hid
    (update_self ..) ?_ ?_ (h.pending_decided hp hpending status) ?_ ⟨rfl, rfl⟩
  · simpa [released] using hsettles
  · have hamount : g.proposalBondAmount id ≠ 0 := by
      rw [Ne, ← h.amount_zero id, hbond]
      simp
    rcases hdone with rfl | rfl <;> simp [released, decided, hamount]
  · have hedit := Sums.sum_range_edit (f := g.owed)
      (g := ((g.decided id p status).released id settlement).owed) (Nat.lt_add_one_of_le hid)
      fun d hd => by simp [owed, released, decided, hd]
    have hold : g.owed id = g.proposalBondAmount id := by simp [owed, hbond]
    have hnew : ((g.decided id p status).released id settlement).owed id = 0 := by
      rcases hdone with rfl | rfl <;> simp [owed, released]
    rw [hold, hnew, ← h.liabilities] at hedit
    show g.unsettledBondLiabilities - g.proposalBondAmount id = _
    simp only [released, decided] at hedit ⊢
    omega

end Governance

end Rudis.Vote
