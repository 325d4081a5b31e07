import Rudis.Proofs.Staking.Books
import Rudis.Proofs.Staking.Withdrawals

/-!
# `Rudis.Proofs.Staking.Solvency`: the queue and the books over whole runs

Every ledger move keeps the queue threaded (`Move.queue`) and the books balanced
(`Move.solvent`), as long as the entry it appends still has an index in `u32`. Both invariants
then hold over every run of the system whose steps meet that condition.

The condition is needed: `enqueue_unbonding` advances its `u32` counter without a check, so after
`2 ^ 32` withdrawals the counter is back at zero and the queue is lost.
-/

namespace Rudis.Staking

open Runs

/-! ### The queue -/

variable {k n : Nat} {L L' : Ledger} {lists : Address → List Nat}

theorem slashBonded_queue (s : Store) (v : Address) (percent : Nat) (h : Queue s lists) :
    Queue (slashBonded s v percent).1 lists := by
  rw [slashBonded_eq]
  split
  · exact h
  · exact h.setBonded v _ _

theorem slashBonded_snd_lt (s : Store) (v : Address) (percent : Nat) :
    (slashBonded s v percent).2 < 2 ^ 256 := by
  rw [slashBonded_eq]
  split
  · exact Nat.two_pow_pos 256
  · exact lt_of_le_of_lt (Nat.div_le_self _ _) (mod_lt _ (Nat.two_pow_pos 256))

/-- What the slash walk of a move has computed. -/
theorem slash_of_queue {s : Store} {v : Address} {percent time slashed total : Nat}
    {entries : Nat → UnbondingEntry} (hq : Queue s lists) (hslashed : slashed < 2 ^ 256)
    (hloop : slashLoop percent time walkFuel s.entries slashed (s.perValUnbondingHead v) =
      .ok (entries, total)) :
    entries = slashAt percent time (lists v) s.entries ∧
      total = (slashed + ((lists v).map fun i => slashOf percent (s.entries i)).sum) % 2 ^ 256 := by
  rw [slashLoop_eq (hq.nodup v) (hq.seg v) (hq.length_lt_walkFuel v) hslashed] at hloop
  simp only [Except.ok.injEq, Prod.mk.injEq] at hloop
  exact ⟨hloop.1.symm, hloop.2.symm⟩

/-- A move keeps the queue threaded, if the entry it appends has a `u32` index. -/
theorem Move.queue (h : Move k L L') (hq : Queue L.staking lists)
    (hroom : L.staking.unbondingCount + k < 2 ^ 32) :
    ∃ lists', Queue L'.staking lists' ∧
      L'.staking.unbondingCount ≤ L.staking.unbondingCount + k := by
  cases h with
  | stake _ v amount hv hfunds hheld | burn _ v amount hle hfunds =>
    exact ⟨lists, hq.setBonded v _ _, Nat.le_refl _⟩
  | unbond _ v amount completeTime total hv hamount hle htotal =>
    exact ⟨_, (hq.setBonded v _ total).enqueue hv hamount completeTime hroom,
      by rw [enqueueUnbonding_eq hamount (by exact hroom)]; exact Nat.le_refl _⟩
  | claim _ v timestamp c hv hloop hfunds =>
    obtain ⟨c', hloop', _, hq'⟩ := hq.claim v timestamp
    obtain rfl : c = c' := Except.ok.inj (hloop.symm.trans hloop')
    exact ⟨_, hq', Nat.le_refl _⟩
  | slash _ v percent time total entries hpercent hloop hfunds =>
    have hq' := slashBonded_queue L.staking v percent hq
    have hstore := slashBonded_frame L.staking v percent
    rw [← hstore.1, ← hstore.2.1] at hloop
    obtain ⟨rfl, _⟩ := slash_of_queue hq' (slashBonded_snd_lt L.staking v percent) hloop
    exact ⟨lists, hq'.slash v percent time, Nat.le_of_eq hstore.2.2⟩
  | trim _ ops => exact ⟨lists, hq.trim ops, trimTail_le _ _ _⟩

theorem Moves.queue (h : Moves n L L') (hq : Queue L.staking lists)
    (hroom : L.staking.unbondingCount + n < 2 ^ 32) : ∃ lists', Queue L'.staking lists' := by
  induction h generalizing lists with
  | refl L => exact ⟨lists, hq⟩
  | cons hmove _ ih =>
    obtain ⟨lists', hq', hcount⟩ := hmove.queue hq (by omega)
    exact ih hq' (by omega)

/-! ### Runs -/

/-- A step that succeeds appends no entry past the `u32` range. -/
def QueueFits (X : Externals) (i : BlockEnv × Op) (w : World) : Prop :=
  (∃ w', Ok (i.2.call X i.1) w () w') → w.staking.unbondingCount + newEntries X w i.2 < 2 ^ 32

/-- What a step does to the ledger when it fits. -/
theorem moves_of_step {X : Externals} {i : BlockEnv × Op} {w : World} (hfits : QueueFits X i w)
    (hcount : w.staking.unbondingCount < 2 ^ 32) :
    ∃ n, w.staking.unbondingCount + n < 2 ^ 32 ∧
      Moves n (ledger w) (ledger (step X i w)) := by
  rcases step_cases X i w with hok | hsame
  · obtain ⟨n, hn, hmoves⟩ := moves_of_call hok
    have hroom := hfits ⟨_, hok⟩
    exact ⟨n, by omega, hmoves⟩
  · exact ⟨0, hcount, hsame.symm ▸ .refl (ledger w)⟩

/-- Claiming pays every mature entry of the caller's list once: the walk ends, pays their sum,
zeroes them, and afterwards no list holds them. -/
def ClaimsOnce (s : Store) (lists : Address → List Nat) : Prop :=
  ∀ v timestamp, ∃ c,
    claimLoop timestamp walkFuel ⟨s.entries, 0, 0, 0⟩ (s.perValUnbondingHead v) = .ok c ∧
    Claimed s.entries timestamp (lists v) c ∧
    Queue { s with
        entries := c.terminate
        perValUnbondingHead := update s.perValUnbondingHead v c.newHead }
      (update lists v ((lists v).filter (!mature s.entries timestamp ·)))

/-- From an empty queue, every run whose steps fit keeps the queue one strictly decreasing list per
owner: the lists share no entry, hold every owned entry, and a claim pays an entry once. -/
theorem queue_of_run (X : Externals) {w : World} {l : List (BlockEnv × Op)}
    (hcount : w.staking.unbondingCount = 0) (hhead : ∀ v, w.staking.perValUnbondingHead v = 0)
    (hfits : Along (step X) (QueueFits X) l w) :
    ∃ lists, Queue (run (step X) l w).staking lists ∧
      (∀ v v' i, i ∈ lists v → i ∈ lists v' → v = v') ∧
      ClaimsOnce (run (step X) l w).staking lists := by
  have hinv : ∃ lists, Queue (run (step X) l w).staking lists := by
    refine run_inv (fun w => ∃ lists, Queue w.staking lists) ?_ hfits
      ⟨_, Queue.of_empty hcount hhead⟩
    intro i w hi ⟨lists, hq⟩
    obtain ⟨n, hroom, hmoves⟩ := moves_of_step hi hq.count_lt
    exact hmoves.queue hq hroom
  obtain ⟨lists, hq⟩ := hinv
  exact ⟨lists, hq, fun v v' i hi hi' => hq.disjoint hi hi', fun v timestamp => hq.claim v timestamp⟩

theorem queue_of_one_withdrawal :
    ∃ lists, Queue (run (step sampleExternals) [(sampleEnv, .unstake bob 1)]
        sampleWorld).staking lists ∧
      (∀ v v' i, i ∈ lists v → i ∈ lists v' → v = v') ∧
      ClaimsOnce (run (step sampleExternals) [(sampleEnv, .unstake bob 1)]
        sampleWorld).staking lists :=
  queue_of_run sampleExternals rfl (fun _ => rfl) ⟨fun _ => by decide, trivial⟩

/-- Bob withdraws once, Alice `2 ^ 32 - 1` times. The counter is back at zero while Bob's list
still holds the entry with index zero. -/
theorem queue_wraps :
    ¬ ∃ lists, Queue (run (step sampleExternals) ((sampleEnv, .unstake bob 1) ::
        List.replicate (2 ^ 32 - 1) (sampleEnv, .unstake alice 1)) sampleWorld).staking lists := by
  rintro ⟨lists, hq⟩
  have hone : Withdrawing sampleExternals sampleWorld bob.address (0 + 1) := sampleWorld_bob
  obtain ⟨hstaking, _, _, hother⟩ := unstake_one sampleEnv hone (by decide)
  have halice : Withdrawing sampleExternals (step sampleExternals (sampleEnv, .unstake bob 1)
      sampleWorld) alice.address (1 + (2 ^ 32 - 1)) :=
    hother alice.address (2 ^ 32) (by decide) sampleWorld_alice
  obtain ⟨hcount, _, _, hhead⟩ := withdrawals_run sampleEnv halice (by rw [hstaking]; decide)
    (by rw [hstaking]; decide) (by rw [hstaking]; decide) (by rw [hstaking]; decide)
  have hempty := hq.head_eq_zero (by rw [run_cons, hcount, hstaking]; decide) bob.address
  rw [run_cons, hhead bob.address (by decide), hstaking] at hempty
  exact absurd hempty (by decide)

/-! ### The books -/

/-- The books of a ledger balance against the contract's native balance, and all native value
together fits the balance type. -/
structure Solvent (L : Ledger) (lists : Address → List Nat) : Prop where
  books : Books L.staking lists (L.balance stakingAddress)
  funds : ∑ a, L.balance a < 2 ^ 256

theorem Solvent.held_lt (h : Solvent L lists) : L.balance stakingAddress < 2 ^ 256 :=
  lt_of_le_of_lt (Sums.le_sum L.balance stakingAddress) h.funds

theorem Solvent.total_lt (h : Solvent L lists) : L.staking.totalStaked < 2 ^ 256 := by
  have hheld := h.held_lt
  have heq := h.books.held_eq
  omega

/-- With no entry counted the contract holds the stakes alone. -/
theorem Solvent.held_of_empty {w : World} (h : Solvent (ledger w) lists)
    (hcount : w.staking.unbondingCount = 0) : w.balance stakingAddress = w.staking.totalStaked := by
  have hheld : w.balance stakingAddress = w.staking.totalStaked + queued w.staking :=
    h.books.held_eq
  rw [hheld, queued, hcount, Finset.sum_range_zero, Nat.add_zero]

section Balances

variable {balance : Address → Nat} {src dst : Address} {amount : Nat}

/-- A transfer between two accounts. -/
theorem moveBalance_eq (hne : src ≠ dst) :
    moveBalance balance src dst amount src = balance src - amount ∧
      moveBalance balance src dst amount dst = balance dst + amount := by
  simp [moveBalance, hne, hne.symm]

theorem sum_moveBalance (hle : amount ≤ balance src) :
    ∑ a, moveBalance balance src dst amount a = ∑ a, balance a := by
  have hsrc := Sums.sum_update balance src (balance src - amount)
  have hdst := Sums.sum_update (update balance src (balance src - amount)) dst
    (update balance src (balance src - amount) dst + amount)
  unfold moveBalance
  omega

theorem sum_burn_le (hle : amount ≤ balance src) :
    ∑ a, update balance src (balance src - amount) a ≤ ∑ a, balance a := by
  have hsrc := Sums.sum_update balance src (balance src - amount)
  omega

end Balances

/-- A move keeps the contract solvent, if the entry it appends has a `u32` index. -/
theorem Move.solvent (h : Move k L L') (hL : Solvent L lists)
    (hroom : L.staking.unbondingCount + k < 2 ^ 32) : ∃ lists', Solvent L' lists' := by
  have hbooks := hL.books
  have hheld := hL.held_lt
  cases h with
  | stake _ v amount hv hfunds hin =>
    refine ⟨lists, ?_, ?_⟩
    · show Books _ lists (moveBalance L.balance v stakingAddress amount stakingAddress)
      rw [(moveBalance_eq hv).2]
      exact hbooks.stake v hin
    · exact lt_of_le_of_lt (Nat.le_of_eq (sum_moveBalance hfunds)) hL.funds
  | unbond _ v amount completeTime total hv hamount hle htotal =>
    obtain rfl := htotal (hle.trans (hbooks.stake_le v)) hL.total_lt
    exact ⟨_, hbooks.unbond hv hamount hle completeTime hroom, hL.funds⟩
  | claim _ v timestamp c hv hloop hfunds =>
    obtain ⟨c', hloop', hc, hq'⟩ := hbooks.queue.claim v timestamp
    obtain rfl : c = c' := Except.ok.inj (hloop.symm.trans hloop')
    have hpaid := hbooks.amountAt_le (List.filter_sublist
      (p := mature L.staking.entries timestamp) (l := lists v))
    have heq := hbooks.held_eq
    have htotal : c.totalClaimable =
        amountAt L.staking.entries ((lists v).filter (mature L.staking.entries timestamp)) := by
      rw [hc.total]
      exact mod_eq_of_lt (by omega)
    have hleft : moveBalance L.balance stakingAddress v c.totalClaimable stakingAddress =
        L.balance stakingAddress - c.totalClaimable := (moveBalance_eq hv.symm).1
    have hbooks' := hbooks.claim v hc hq'
    rw [← htotal, ← hleft] at hbooks'
    exact ⟨_, hbooks', lt_of_le_of_lt (Nat.le_of_eq (sum_moveBalance hfunds)) hL.funds⟩
  | slash _ v percent time total entries hpercent hloop hfunds =>
    obtain ⟨hbonded, hslashed⟩ := hbooks.slashBonded v hpercent hL.total_lt
    have hstore := slashBonded_frame L.staking v percent
    rw [← hstore.1, ← hstore.2.1] at hloop
    obtain ⟨rfl, htotal⟩ :=
      slash_of_queue hbonded.queue (slashBonded_snd_lt L.staking v percent) hloop
    -- The two parts together are covered, so their sum has not wrapped.
    have hstake := hbooks.stake_le v
    have heq := hbooks.held_eq
    have hqueued := hbonded.sum_slashOf_le v hpercent
    have hsame : queued (slashBonded L.staking v percent).1 = queued L.staking := by
      rw [queued, queued, hstore.1, hstore.2.2]
    rw [mod_eq_of_lt (by omega)] at htotal
    have hbooks' := hbonded.slashQueue v time hpercent
    rw [Nat.sub_sub, ← htotal] at hbooks'
    refine ⟨lists, ?_, lt_of_le_of_lt (sum_burn_le hfunds) hL.funds⟩
    show Books _ lists (update L.balance stakingAddress _ stakingAddress)
    rw [update_self]
    exact hbooks'
  | burn _ v amount hle hfunds =>
    refine ⟨lists, ?_, lt_of_le_of_lt (sum_burn_le hfunds) hL.funds⟩
    show Books _ lists (update L.balance stakingAddress _ stakingAddress)
    rw [update_self]
    exact hbooks.burnBonded v hle
  | trim _ ops => exact ⟨lists, hbooks.trim ops, hL.funds⟩

theorem Moves.solvent (h : Moves n L L') (hL : Solvent L lists)
    (hroom : L.staking.unbondingCount + n < 2 ^ 32) : ∃ lists', Solvent L' lists' := by
  induction h generalizing lists with
  | refl L => exact ⟨lists, hL⟩
  | cons hmove _ ih =>
    obtain ⟨_, _, hcount⟩ := hmove.queue hL.books.queue (by omega)
    obtain ⟨lists', hL'⟩ := hmove.solvent hL (by omega)
    exact ih hL' (by omega)

/-- Every run whose steps fit keeps the contract solvent: the total is the sum of the stakes, and
the native balance is the total plus what the queue owes. -/
theorem solvent_of_run (X : Externals) {w : World} {l : List (BlockEnv × Op)}
    (hw : Solvent (ledger w) lists) (hfits : Along (step X) (QueueFits X) l w) :
    ∃ lists', Solvent (ledger (run (step X) l w)) lists' := by
  refine run_inv (fun w => ∃ lists, Solvent (ledger w) lists) ?_ hfits ⟨lists, hw⟩
  intro i w hi ⟨lists, hw⟩
  obtain ⟨n, hroom, hmoves⟩ := moves_of_step hi hw.books.queue.count_lt
  exact hmoves.solvent hw hroom

theorem sampleWorld_solvent : Solvent (ledger sampleWorld) fun _ => [] := by
  refine ⟨⟨Queue.of_empty rfl fun _ => rfl, fun i hi => absurd hi (Nat.not_lt_zero i), ?_, rfl⟩, ?_⟩
  · have hsum := Sums.sum_update (update (fun _ => 0) alice.address (2 ^ 32))
      bob.address 1
    rw [Sums.sum_update_zero, update_of_ne (by decide), Nat.add_zero] at hsum
    exact hsum.symm
  · show ∑ a, update (fun _ => 0) stakingAddress (2 ^ 32 + 1) a < 2 ^ 256
    rw [Sums.sum_update_zero]
    decide

/-- A withdrawal keeps the sample world solvent. -/
theorem solvent_of_one_withdrawal :
    ∃ lists, Solvent (ledger (run (step sampleExternals)
      [(sampleEnv, .unstake bob 1)] sampleWorld)) lists :=
  solvent_of_run sampleExternals sampleWorld_solvent ⟨fun _ => by decide, trivial⟩

/-- Alice withdraws `2 ^ 32` times. The counter is back at zero, so the queue owes nothing, while
her value is still held. -/
theorem solvency_wraps :
    (∃ lists, Solvent (ledger sampleWorld) lists) ∧
      ¬ ∃ lists, Solvent (ledger (run (step sampleExternals)
        (List.replicate (2 ^ 32) (sampleEnv, .unstake alice 1)) sampleWorld)) lists := by
  refine ⟨⟨_, sampleWorld_solvent⟩, ?_⟩
  rintro ⟨lists, hsolvent⟩
  have halice : Withdrawing sampleExternals sampleWorld alice.address (0 + 2 ^ 32) :=
    sampleWorld_alice
  obtain ⟨hcount, htotal, hbalance, _⟩ := withdrawals_run sampleEnv halice (by decide) (by decide)
    (by decide) (by decide)
  have hheld := hsolvent.held_of_empty (hcount.trans (by decide))
  have hsample := (congrFun hbalance stakingAddress).symm.trans (hheld.trans htotal)
  have htotal' : sampleWorld.staking.totalStaked = 2 ^ 32 + 1 := rfl
  have hbalance' : sampleWorld.balance stakingAddress = 2 ^ 32 + 1 := rfl
  simp [htotal', hbalance'] at hsample

end Rudis.Staking
