import Rudis.Lib.Lists
import Rudis.Lib.Rationing
import Rudis.Spec.Desis.Clearing

/-!
# `Rudis.Proofs.Desis.Clearing`: the clearing is a uniform-price auction

The allocation walk serves the sorted bids in order from the supply, an ineligible bid counting as
one that wants nothing. `allocate_eq` says so: what the walk builds is read off the list of lots
`Rationing.served` gives, so that the properties of the winners are the general ones of serving in
order. Along the ranking rates only fall, and the last winner sets the clearing rate: it is the
lowest winning one, so a winner's payment stays within its lock (`rateLock_mono`) and the refund is
an exact difference.

`calculateClearing_uniformPrice` puts the parts together, for every list of bids.
-/

namespace Rudis.Desis

open List
open Rationing (served receivers mem_receivers)

/-! ### The lock formula -/

/-- A larger quantity or rate never locks less. -/
theorem rateLock_mono {q q' rate rate' : Nat} (basis : Nat) (hq : q ≤ q') (hr : rate ≤ rate') :
    rateLock q basis rate ≤ rateLock q' basis rate' := by
  have hsat {a b c d : Nat} (h : a ≤ c) (h' : b ≤ d) :
      saturatingMul 256 a b ≤ saturatingMul 256 c d := by
    have := Nat.mul_le_mul h h'
    unfold saturatingMul
    omega
  have hamount := hsat (Nat.div_le_div_right (c := scale1e6) (hsat (hsat hq (le_refl basis)) hr))
    (le_refl nativeUnitsPerProtocolUnit)
  simp only [rateLock]
  split <;> split <;> omega

/-! ### The ranking -/

theorem RanksBefore.total (a b : TaggedBid) : a.2.RanksBefore b.2 ∨ b.2.RanksBefore a.2 := by
  unfold BidData.RanksBefore
  omega

theorem RanksBefore.trans (a b c : TaggedBid) (h : a.2.RanksBefore b.2)
    (h' : b.2.RanksBefore c.2) : a.2.RanksBefore c.2 := by
  unfold BidData.RanksBefore at *
  omega

theorem BidData.RanksBefore.rate_le {a b : BidData} (h : a.RanksBefore b) :
    b.intexBidRate ≤ a.intexBidRate := by
  unfold BidData.RanksBefore at h
  omega

theorem sortBids_perm (bids : List TaggedBid) : (sortBids bids).Perm bids :=
  perm_insertionSort _ bids

theorem sortBids_sorted (bids : List TaggedBid) :
    (sortBids bids).Pairwise fun a b => a.2.RanksBefore b.2 := by
  have : Std.Total fun a b : TaggedBid => a.2.RanksBefore b.2 := ⟨RanksBefore.total⟩
  have : IsTrans TaggedBid fun a b => a.2.RanksBefore b.2 := ⟨RanksBefore.trans⟩
  exact pairwise_insertionSort _ bids

/-! ### The allocation walk -/

/-- A bid takes part: its rate reaches the minimum, and its quantity is positive and at least the
minimum. -/
def Eligible (config : AuctionConfig) (minQty : Nat) (bid : BidData) : Prop :=
  config.minIntexBidRate ≤ bid.intexBidRate ∧ minQty ≤ bid.intexQuantity ∧ 0 < bid.intexQuantity

instance (config : AuctionConfig) (minQty : Nat) (bid : BidData) :
    Decidable (Eligible config minQty bid) :=
  inferInstanceAs (Decidable (_ ∧ _))

/-- What a bid takes from the supply; an ineligible one takes nothing. -/
def demand (config : AuctionConfig) (minQty : Nat) (entry : TaggedBid) : Nat :=
  if Eligible config minQty entry.2 then entry.2.intexQuantity else 0

theorem demand_le (config : AuctionConfig) (minQty : Nat) (entry : TaggedBid) :
    demand config minQty entry ≤ entry.2.intexQuantity := by
  unfold demand
  split <;> omega

variable {entry : TaggedBid}

theorem demand_pos {config : AuctionConfig} {minQty : Nat} :
    0 < demand config minQty entry ↔ Eligible config minQty entry.2 := by
  unfold demand
  split
  · exact ⟨fun _ => ‹_›, fun h => h.2.2⟩
  · exact ⟨fun h => absurd h (lt_irrefl 0), fun h => absurd h ‹_›⟩

/-- A bid with the quantity it won. -/
abbrev Lot := TaggedBid × Nat

variable (a : Allocation) (pre : List Nat)

/-- The allocation `a`, after `lots` were entered behind the indices of `pre`. -/
def Allocation.enter (lots : List Lot) : Allocation where
  winners := a.winners ++ (receivers lots).map fun lot => lot.1.2.bidderAddress
  winnerQuantities := a.winnerQuantities ++ (receivers lots).map Prod.snd
  winnerChains := a.winnerChains ++ (receivers lots).map fun lot => lot.1.1
  winnerCurrencies := a.winnerCurrencies ++
    (receivers lots).map fun lot => (lot.1.2.issuanceCurrency, lot.1.2.referenceCurrency)
  wonByIndex := pre ++ lots.map Prod.snd
  totalAllocated := a.totalAllocated + (lots.map Prod.snd).sum
  clearingRate := ((receivers lots).getLast?.map fun lot => lot.1.2.intexBidRate).getD a.clearingRate

/-- A lot that won nothing leaves only its zero. -/
theorem Allocation.enter_cons_zero (entry : TaggedBid)
    (lots : List Lot) : a.enter pre ((entry, 0) :: lots) = a.enter (pre ++ [0]) lots := by
  simp [Allocation.enter, receivers]

/-- Lots that won nothing leave only their zeros. -/
theorem Allocation.enter_zeros (l : List TaggedBid)
    (ha : a.wonByIndex = pre ++ replicate l.length 0) :
    a.enter pre (l.map fun entry => (entry, 0)) = a := by
  have hnone : receivers (l.map fun entry : TaggedBid => (entry, 0)) = [] := by
    refine filter_eq_nil_iff.mpr fun lot hlot => ?_
    obtain ⟨entry, -, rfl⟩ := mem_map.mp hlot
    simp
  have hzeros : (l.map fun entry : TaggedBid => (entry, 0)).map Prod.snd =
      replicate l.length 0 := by
    rw [map_map]
    exact map_const'
  rw [Allocation.enter, hnone, hzeros, ← ha]
  simp

/-- A lot that won something is entered before the others. -/
theorem Allocation.enter_cons_pos (entry : TaggedBid)
    {won : Nat} (lots : List Lot) (hwon : 0 < won) :
    a.enter pre ((entry, won) :: lots) =
      (a.win entry.1 entry.2 pre.length won).enter (pre ++ [won]) lots := by
  have hw : receivers ((entry, won) :: lots) = (entry, won) :: receivers lots := by
    simp [receivers, hwon]
  rw [Allocation.enter, Allocation.enter, hw]
  -- the last winner of the longer list is the first one only when no other follows
  have hlast : (((entry, won) :: receivers lots).getLast?.map fun lot => lot.1.2.intexBidRate).getD
      a.clearingRate =
      ((receivers lots).getLast?.map fun lot => lot.1.2.intexBidRate).getD entry.2.intexBidRate := by
    rw [getLast?_cons]
    cases (receivers lots).getLast? <;> rfl
  rw [hlast]
  simp [Allocation.win, add_assoc]

section Walk

variable (config : AuctionConfig) (supply minQty : Nat)

/-- The walk serves the bids in order from what is left of the supply. -/
theorem allocate_eq : ∀ (l : List TaggedBid) (pre : List Nat) (a : Allocation),
    a.totalAllocated ≤ supply → a.wonByIndex = pre ++ replicate l.length 0 →
    allocate config supply minQty (l.zipIdx pre.length) a =
      a.enter pre (served (demand config minQty) (supply - a.totalAllocated) l) := by
  intro l
  induction l with
  | nil =>
    intro pre a _ ha
    simp only [length_nil, replicate_zero, append_nil] at ha
    simp [allocate, served, Allocation.enter, receivers, ← ha]
  | cons entry l ih =>
    intro pre a hle ha
    rw [length_cons, replicate_succ] at ha
    have hskip : a.wonByIndex = (pre ++ [0]) ++ replicate l.length 0 := by
      rw [ha, append_assoc]
      rfl
    have hlen : (pre ++ [0]).length = pre.length + 1 := by simp
    rw [zipIdx_cons, allocate, served]
    by_cases hfull : supply ≤ a.totalAllocated
    · -- the supply is used up: nobody gets anything any more
      have hzero : supply - a.totalAllocated = 0 := by omega
      rw [if_pos hfull, hzero, Nat.min_zero, Nat.zero_sub, a.enter_cons_zero, Rationing.served_zero,
        a.enter_zeros _ l hskip]
    · rw [if_neg hfull]
      by_cases hel : Eligible config minQty entry.2
      · have hd : demand config minQty entry = entry.2.intexQuantity := if_pos hel
        have hpos : 0 < min entry.2.intexQuantity (supply - a.totalAllocated) := by
          have := hel.2.2
          omega
        rw [if_neg (by have := hel.1; omega), if_neg (by have := hel.2.1; omega), hd]
        simp only [hpos, if_true]
        rw [a.enter_cons_pos pre entry _ hpos]
        have hwin := ih (pre ++ [min entry.2.intexQuantity (supply - a.totalAllocated)])
          (a.win entry.1 entry.2 pre.length (min entry.2.intexQuantity (supply - a.totalAllocated)))
          (by simp only [Allocation.win]; omega) (by simp [Allocation.win, ha])
        have hrest : supply - (a.totalAllocated +
            min entry.2.intexQuantity (supply - a.totalAllocated)) =
            supply - a.totalAllocated - entry.2.intexQuantity := by omega
        simp only [Allocation.win, length_append, length_singleton, hrest] at hwin
        exact hwin
      · have hd : demand config minQty entry = 0 := if_neg hel
        have hih := ih (pre ++ [0]) a hle hskip
        rw [hlen] at hih
        have hnone : ¬ 0 < min entry.2.intexQuantity (supply - a.totalAllocated) ∨
            entry.2.intexBidRate < config.minIntexBidRate ∨ entry.2.intexQuantity < minQty := by
          unfold Eligible at hel
          omega
        rw [hd, Nat.zero_min, Nat.sub_zero, a.enter_cons_zero, ← hih]
        split
        · rfl
        · split
          · rfl
          · rw [if_neg (by omega)]

/-- The lots of a day: its ranked bids with what each of them wins. -/
def lotsOf (bids : List TaggedBid) : List Lot :=
  served (demand config minQty) supply (sortBids bids)

end Walk

/-! ### The clearing -/

/-- What one bid pays: at the clearing rate for what it won. -/
def paidFor (basis clearingRate : Nat) (lot : Lot) : Nat :=
  if 0 < lot.2 then rateLock lot.2 basis clearingRate else 0

/-- A clearing of `bids` is a uniform-price auction of `supply` units: `lots` are the ranked bids
with what each of them won. -/
structure UniformPrice (config : AuctionConfig) (supply minQty : Nat) (bids : List TaggedBid)
    (lots : List Lot) (result : ClearingResult) : Prop where
  bids_perm : (lots.map Prod.fst).Perm bids
  ranked : lots.Pairwise fun a b => a.1.2.RanksBefore b.1.2
  issued : result.issuedIntexCount =
    min supply (((bids.filter fun entry => Eligible config minQty entry.2).map
      fun entry => entry.2.intexQuantity).sum)
  winners : result.winners = (receivers lots).map fun lot => lot.1.2.bidderAddress
  winnerQuantities : result.winnerQuantities = (receivers lots).map Prod.snd
  winnerChains : result.winnerChains = (receivers lots).map fun lot => lot.1.1
  winnerCurrencies : result.winnerCurrencies =
    (receivers lots).map fun lot => (lot.1.2.issuanceCurrency, lot.1.2.referenceCurrency)
  /-- The winners come first among the eligible bids. -/
  winners_prefix : receivers lots <+: lots.filter fun lot => Eligible config minQty lot.1.2
  won_le : ∀ lot ∈ lots, lot.2 ≤ lot.1.2.intexQuantity
  /-- Only the last winner may be filled in part. -/
  front_full : ∀ front last, receivers lots = front ++ [last] →
    ∀ lot ∈ front, lot.2 = lot.1.2.intexQuantity
  rate_of_none : receivers lots = [] → result.clearingRate = config.minIntexBidRate
  rate_lowest : receivers lots ≠ [] →
    (∃ lot ∈ receivers lots, result.clearingRate = lot.1.2.intexBidRate) ∧
      ∀ lot ∈ receivers lots, result.clearingRate ≤ lot.1.2.intexBidRate
  /-- An eligible bid that is not filled in full never outbids a winner. -/
  unfilled_rate_le : ∀ lot ∈ lots, Eligible config minQty lot.1.2 → lot.2 < lot.1.2.intexQuantity →
    ∀ winner ∈ receivers lots, lot.1.2.intexBidRate ≤ winner.1.2.intexBidRate
  allBidders : result.allBidders = lots.map fun lot => lot.1.2.bidderAddress
  bidderChains : result.bidderChains = lots.map fun lot => lot.1.1
  paid : result.paidAmounts = lots.map (paidFor config.escrowBasisMinor result.clearingRate)
  /-- What a bid pays and what it gets back are its lock. -/
  conserved : zipWith (· + ·) result.paidAmounts result.refundedAmounts = lots.map fun lot =>
      rateLock lot.1.2.intexQuantity config.escrowBasisMinor lot.1.2.intexBidRate

section Clearing

variable (config : AuctionConfig) (supply minQty : Nat) (bids : List TaggedBid)

theorem allocate_sortBids :
    allocate config supply minQty (sortBids bids).zipIdx
        (Allocation.start config (sortBids bids).length) =
      (Allocation.start config (sortBids bids).length).enter []
        (lotsOf config supply minQty bids) := by
  have h := allocate_eq config supply minQty (sortBids bids) []
    (Allocation.start config (sortBids bids).length) (Nat.zero_le supply) rfl
  exact h

/-- The rate the day clears at: that of the last winner. -/
def rateOf (lots : List Lot) : Nat :=
  ((receivers lots).getLast?.map fun lot => lot.1.2.intexBidRate).getD config.minIntexBidRate

/-- The result read off a list of lots. -/
def clearingOf (lots : List Lot) : ClearingResult where
  issuedIntexCount := (lots.map Prod.snd).sum
  clearingRate := rateOf config lots
  winners := (receivers lots).map fun lot => lot.1.2.bidderAddress
  winnerQuantities := (receivers lots).map Prod.snd
  winnerChains := (receivers lots).map fun lot => lot.1.1
  winnerCurrencies := (receivers lots).map
    fun lot => (lot.1.2.issuanceCurrency, lot.1.2.referenceCurrency)
  allBidders := lots.map fun lot => lot.1.2.bidderAddress
  refundedAmounts := lots.map fun lot =>
    (settleBid config.escrowBasisMinor (rateOf config lots) lot.1.2 lot.2).2
  paidAmounts := lots.map fun lot =>
    (settleBid config.escrowBasisMinor (rateOf config lots) lot.1.2 lot.2).1
  bidderChains := lots.map fun lot => lot.1.1

theorem map_fst_lotsOf : (lotsOf config supply minQty bids).map Prod.fst = sortBids bids :=
  Rationing.map_fst_served _ _ _

/-- The clearing of the sorted bids is the one of their lots. -/
theorem calculateClearing_sortBids :
    calculateClearing (sortBids bids) config supply minQty =
      clearingOf config (lotsOf config supply minQty bids) := by
  have hsettled := Lists.map_zipIdx_getD
    (fun (entry : TaggedBid) won => settleBid config.escrowBasisMinor
      (rateOf config (lotsOf config supply minQty bids)) entry.2 won)
    (lotsOf config supply minQty bids) []
  rw [map_fst_lotsOf] at hsettled
  have hbids {γ : Type} (f : TaggedBid → γ) :
      (sortBids bids).map f = (lotsOf config supply minQty bids).map fun lot => f lot.1 := by
    rw [← map_fst_lotsOf config supply minQty, map_map]
    rfl
  rw [calculateClearing, allocate_sortBids]
  simp only [Allocation.enter, Allocation.start, nil_append, zero_add]
  show ClearingResult.mk _ _ _ _ _ _ _ _ _ _ = ClearingResult.mk _ _ _ _ _ _ _ _ _ _
  congr 1
  · exact hbids _
  · refine Eq.trans (congrArg (List.map Prod.snd) hsettled) ?_
    rw [map_map]
    rfl
  · refine Eq.trans (congrArg (List.map Prod.fst) hsettled) ?_
    rw [map_map]
    rfl
  · exact hbids _

variable {config} {supply minQty : Nat} {bids : List TaggedBid}

theorem lotsOf_ranked :
    (lotsOf config supply minQty bids).Pairwise fun a b => a.1.2.RanksBefore b.1.2 := by
  have h := sortBids_sorted bids
  rw [← map_fst_lotsOf config supply minQty] at h
  exact (pairwise_map (R := fun a b : TaggedBid => a.2.RanksBefore b.2)).mp h

variable {last lot winner : Lot}

theorem won_le_of_mem (h : lot ∈ lotsOf config supply minQty bids) :
    lot.2 ≤ lot.1.2.intexQuantity :=
  (Rationing.le_of_mem_served _ h).trans (demand_le _ _ _)

/-- A winner took part. -/
theorem eligible_of_mem_receivers
    (h : lot ∈ receivers (lotsOf config supply minQty bids)) : Eligible config minQty lot.1.2 := by
  obtain ⟨hmem, hpos⟩ := mem_receivers.mp h
  exact demand_pos.mp (lt_of_lt_of_le hpos (Rationing.le_of_mem_served _ hmem))

theorem demand_eq_of_eligible (h : Eligible config minQty entry.2) :
    demand config minQty entry = entry.2.intexQuantity := if_pos h

/-- The whole demand is that of the eligible bids, in any order. -/
theorem sum_demand : ((sortBids bids).map (demand config minQty)).sum =
    ((bids.filter fun entry => Eligible config minQty entry.2).map
      fun entry => entry.2.intexQuantity).sum := by
  rw [((sortBids_perm bids).map _).sum_eq]
  induction bids with
  | nil => rfl
  | cons entry bids ih =>
    by_cases h : Eligible config minQty entry.2
    · rw [filter_cons_of_pos (by simpa using h)]
      simp [demand_eq_of_eligible h, ih]
    · rw [filter_cons_of_neg (by simpa using h)]
      simp [demand, h, ih]

/-- The last winner's rate is the lowest winning one. -/
theorem rateOf_lowest {front : List Lot}
    (h : receivers (lotsOf config supply minQty bids) = front ++ [last]) :
    rateOf config (lotsOf config supply minQty bids) = last.1.2.intexBidRate ∧
      ∀ lot ∈ front ++ [last], last.1.2.intexBidRate ≤ lot.1.2.intexBidRate := by
  refine ⟨by simp [rateOf, h], ?_⟩
  have hranked : (front ++ [last]).Pairwise fun a b => a.1.2.RanksBefore b.1.2 :=
    h ▸ lotsOf_ranked.filter _
  exact forall_mem_append.mpr ⟨fun lot hlot =>
    ((pairwise_append.mp hranked).2.2 lot hlot last (by simp)).rate_le,
    forall_mem_singleton.mpr le_rfl⟩

/-- No eligible bid that is not filled in full outbids a winner. -/
theorem unfilled_rate_le (hlot : lot ∈ lotsOf config supply minQty bids)
    (hel : Eligible config minQty lot.1.2) (hlt : lot.2 < lot.1.2.intexQuantity)
    (hw : winner ∈ receivers (lotsOf config supply minQty bids)) :
    lot.1.2.intexBidRate ≤ winner.1.2.intexBidRate := by
  -- of two lots the later one wins nothing once the earlier one is short, and ranks below it
  let R : Lot → Lot → Prop := fun a b => a.2 < demand config minQty a.1 → 0 < b.2 →
    a.1.2.intexBidRate ≤ b.1.2.intexBidRate
  have hlater : (lotsOf config supply minQty bids).Pairwise R :=
    (Rationing.served_pairwise _ _ _).imp fun hstop hlt hpos => absurd (hstop hlt) (by omega)
  have hearlier : (lotsOf config supply minQty bids).Pairwise (flip R) :=
    lotsOf_ranked.imp fun hrank _ _ => hrank.rate_le
  have hall := List.Pairwise.forall_of_forall_of_flip (fun _ _ _ _ => le_rfl) hlater hearlier
  obtain ⟨hmem, hpos⟩ := mem_receivers.mp hw
  refine hall hlot hmem ?_ hpos
  rwa [demand_eq_of_eligible hel]

/-- A bid's payment is within its lock, so that the refund completes it. -/
theorem settleBid_conserved (h : lot ∈ lotsOf config supply minQty bids) :
    (settleBid config.escrowBasisMinor (rateOf config (lotsOf config supply minQty bids))
        lot.1.2 lot.2).1 +
      (settleBid config.escrowBasisMinor (rateOf config (lotsOf config supply minQty bids))
        lot.1.2 lot.2).2 =
      rateLock lot.1.2.intexQuantity config.escrowBasisMinor lot.1.2.intexBidRate := by
  unfold settleBid
  split
  · rename_i hpos
    have hmem : lot ∈ receivers (lotsOf config supply minQty bids) := mem_receivers.mpr ⟨h, hpos⟩
    obtain ⟨front, last, hsplit⟩ :=
      (eq_nil_or_concat' _).resolve_left (ne_nil_of_mem hmem)
    obtain ⟨hrate, hlowest⟩ := rateOf_lowest hsplit
    have hle : rateOf config (lotsOf config supply minQty bids) ≤ lot.1.2.intexBidRate := by
      rw [hrate]
      exact hlowest lot (hsplit ▸ hmem)
    exact Nat.add_sub_cancel' (rateLock_mono _ (won_le_of_mem h) hle)
  · exact zero_add _

/-- The supply is issued, or all that eligible bids ask for. -/
theorem issuedIntexCount_clearingOf :
    (clearingOf config (lotsOf config supply minQty bids)).issuedIntexCount =
      min supply (((bids.filter fun entry => Eligible config minQty entry.2).map
        fun entry => entry.2.intexQuantity).sum) :=
  (Rationing.sum_served _ _ _).trans (by rw [sum_demand])

/-- A clearing issues at most the supply. -/
theorem issuedIntexCount_le :
    (calculateClearing (sortBids bids) config supply minQty).issuedIntexCount ≤ supply := by
  rw [calculateClearing_sortBids, issuedIntexCount_clearingOf]
  exact min_le_left _ _

/-- What the eligible bids above a rate ask for. -/
def demandAbove (config : AuctionConfig) (minQty rate : Nat) (bids : List TaggedBid) : Nat :=
  (bids.map fun entry => if rate < entry.2.intexBidRate then demand config minQty entry else 0).sum

/-- A bid at most at a rate wins exactly when more is issued than the bids above the rate ask for:
as long as one of them is short nobody below it wins. -/
theorem exists_winner_le_iff {rate : Nat} :
    (∃ lot ∈ receivers (lotsOf config supply minQty bids), lot.1.2.intexBidRate ≤ rate) ↔
      demandAbove config minQty rate bids <
        (calculateClearing (sortBids bids) config supply minQty).issuedIntexCount := by
  have habove : demandAbove config minQty rate bids = ((lotsOf config supply minQty bids).map
      fun lot => if rate < lot.1.2.intexBidRate then demand config minQty lot.1 else 0).sum := by
    rw [demandAbove, ← ((sortBids_perm bids).map _).sum_eq, ← map_fst_lotsOf config supply minQty,
      map_map]
    rfl
  rw [habove, calculateClearing_sortBids]
  show _ ↔ _ < ((lotsOf config supply minQty bids).map Prod.snd).sum
  constructor
  · rintro ⟨winner, hw, hle⟩
    refine sum_lt_sum _ _ (fun lot hlot => ?_) ⟨winner, (mem_receivers.mp hw).1, ?_⟩
    · split
      · rename_i hlt
        by_contra hshort
        have hel : Eligible config minQty lot.1.2 := demand_pos.mp (by omega)
        rw [demand_eq_of_eligible hel] at hshort
        have := unfilled_rate_le hlot hel (by omega) hw
        omega
      · exact Nat.zero_le _
    · rw [if_neg (not_lt.mpr hle)]
      exact (mem_receivers.mp hw).2
  · intro hlt
    by_contra hnone
    refine absurd hlt (not_lt.mpr (sum_le_sum fun lot hlot => ?_))
    split
    · exact Rationing.le_of_mem_served _ hlot
    · rename_i hle
      by_contra hpos
      exact hnone ⟨lot, mem_receivers.mpr ⟨hlot, by omega⟩, not_lt.mp hle⟩

theorem issuedIntexCount_of_perm {bids' : List TaggedBid} (hperm : bids.Perm bids') :
    (calculateClearing (sortBids bids) config supply minQty).issuedIntexCount =
      (calculateClearing (sortBids bids') config supply minQty).issuedIntexCount := by
  rw [calculateClearing_sortBids, calculateClearing_sortBids, issuedIntexCount_clearingOf,
    issuedIntexCount_clearingOf, ((hperm.filter _).map _).sum_eq]

/-- Some bid wins at most at a rate in whatever order the bids came. -/
theorem exists_winner_le_of_perm {bids' : List TaggedBid} (hperm : bids.Perm bids') {rate : Nat}
    (h : ∃ lot ∈ receivers (lotsOf config supply minQty bids), lot.1.2.intexBidRate ≤ rate) :
    ∃ lot ∈ receivers (lotsOf config supply minQty bids'), lot.1.2.intexBidRate ≤ rate := by
  rw [exists_winner_le_iff] at h ⊢
  rwa [← issuedIntexCount_of_perm hperm, demandAbove, ← (hperm.map _).sum_eq]

theorem rateOf_le_of_perm {bids' : List TaggedBid} (hperm : bids.Perm bids') :
    rateOf config (lotsOf config supply minQty bids) ≤
      rateOf config (lotsOf config supply minQty bids') := by
  rcases eq_nil_or_concat' (receivers (lotsOf config supply minQty bids')) with hnil | ⟨front, last, h⟩
  · -- nobody wins in the other order either
    have hnone : receivers (lotsOf config supply minQty bids) = [] := by
      refine eq_nil_iff_forall_not_mem.mpr fun lot hlot => ?_
      obtain ⟨lot', hlot', -⟩ := exists_winner_le_of_perm hperm ⟨lot, hlot, le_rfl⟩
      exact not_mem_nil (hnil ▸ hlot')
    rw [rateOf, rateOf, hnil, hnone]
  · have hlast : last ∈ receivers (lotsOf config supply minQty bids') := by simp [h]
    obtain ⟨lot, hlot, hle⟩ := exists_winner_le_of_perm hperm.symm ⟨last, hlast, le_rfl⟩
    obtain ⟨front', last', h'⟩ := (eq_nil_or_concat' _).resolve_left (ne_nil_of_mem hlot)
    rw [(rateOf_lowest h).1, (rateOf_lowest h').1]
    exact ((rateOf_lowest h').2 lot (h' ▸ hlot)).trans hle

end Clearing

/-- What is issued and the rate it clears at do not depend on the order in which the bids came, ties
included. -/
theorem clearing_of_perm {bids bids' : List TaggedBid} (hperm : bids.Perm bids')
    (config : AuctionConfig) (supply minQty : Nat) :
    (calculateClearing (sortBids bids) config supply minQty).issuedIntexCount =
        (calculateClearing (sortBids bids') config supply minQty).issuedIntexCount ∧
      (calculateClearing (sortBids bids) config supply minQty).clearingRate =
        (calculateClearing (sortBids bids') config supply minQty).clearingRate := by
  refine ⟨issuedIntexCount_of_perm hperm, ?_⟩
  rw [calculateClearing_sortBids, calculateClearing_sortBids]
  exact le_antisymm (rateOf_le_of_perm hperm) (rateOf_le_of_perm hperm.symm)

theorem clearing_of_tie :
    let bids : List TaggedBid := [(1, ⟨7, 5, 0, 2, 840, 840⟩), (2, ⟨8, 5, 0, 3, 840, 840⟩)]
    (calculateClearing (sortBids bids) ⟨9, ⟨0, 0, 0⟩, 1, 1, 0, []⟩ 4 1).clearingRate =
      (calculateClearing (sortBids bids.reverse) ⟨9, ⟨0, 0, 0⟩, 1, 1, 0, []⟩ 4 1).clearingRate :=
  (clearing_of_perm (reverse_perm _).symm _ 4 1).2

/-- The clearing of a day's bids is a uniform-price auction. -/
theorem calculateClearing_uniformPrice (bids : List TaggedBid) (config : AuctionConfig)
    (supply minQty : Nat) :
    ∃ lots, UniformPrice config supply minQty bids lots
      (calculateClearing (sortBids bids) config supply minQty) := by
  refine ⟨lotsOf config supply minQty bids, ?_⟩
  rw [calculateClearing_sortBids]
  constructor
  case bids_perm =>
    rw [map_fst_lotsOf]
    exact sortBids_perm bids
  case ranked => exact lotsOf_ranked
  case issued => exact issuedIntexCount_clearingOf
  case winners_prefix =>
    have h := Rationing.receivers_prefix (demand config minQty) (sortBids bids) supply
    simp only [demand_pos] at h
    exact h
  case won_le => exact fun lot h => won_le_of_mem h
  case front_full =>
    intro front last h lot hlot
    have hmem : lot ∈ receivers (lotsOf config supply minQty bids) := by
      rw [h]
      exact mem_append_left _ hlot
    rw [Rationing.full_of_front _ h hlot, demand_eq_of_eligible (eligible_of_mem_receivers hmem)]
  case rate_of_none =>
    intro h
    show rateOf config _ = _
    simp [rateOf, h]
  case rate_lowest =>
    intro h
    obtain ⟨front, last, hsplit⟩ := (eq_nil_or_concat' _).resolve_left h
    obtain ⟨hrate, hlowest⟩ := rateOf_lowest hsplit
    rw [hsplit]
    refine ⟨⟨last, by simp, hrate⟩, fun lot hlot => ?_⟩
    show rateOf config _ ≤ _
    rw [hrate]
    exact hlowest lot hlot
  case unfilled_rate_le => exact fun lot hlot hel hlt winner hw => unfilled_rate_le hlot hel hlt hw
  case paid =>
    refine map_congr_left fun lot _ => ?_
    unfold settleBid paidFor
    split <;> rfl
  case conserved =>
    show zipWith _ (List.map _ _) (List.map _ _) = _
    rw [zipWith_map, zipWith_self]
    exact map_congr_left fun lot hlot => settleBid_conserved hlot
  all_goals rfl

end Rudis.Desis
