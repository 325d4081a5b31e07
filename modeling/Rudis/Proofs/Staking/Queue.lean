import Mathlib.Algebra.BigOperators.Intervals
import Rudis.Lib.Linked
import Rudis.Lib.Lists
import Rudis.Spec.Staking

/-!
# `Rudis.Proofs.Staking.Queue`: the unbonding queue as one list per validator

`Queue s lists` says that the links of the queue thread, for each validator, exactly the indices
`lists v`: strictly decreasing, below the count, owned by `v`, and every owned index is on its
owner's list. Each queue operation has one lemma that gives the lists after it: `Queue.enqueue` puts
the new index in front, the claim walk keeps the entries that are not mature (`Queue.claim`), the
slash walk keeps every list (`Queue.slash`), and the tail trim drops no listed index (`Queue.trim`).
-/

namespace Rudis.Staking

open List Nat
open Linked (Seg)

/-- The stored link of an entry. -/
def nextOf (entries : Nat → UnbondingEntry) (i : Nat) : Nat := (entries i).next

/-- The queue threads one list of indices per validator. -/
structure Queue (s : Store) (lists : Address → List Nat) : Prop where
  count_lt : s.unbondingCount < 2 ^ 32
  seg : ∀ v, Seg (nextOf s.entries) (s.perValUnbondingHead v) (lists v)
  decreasing : ∀ v, (lists v).Pairwise (· > ·)
  below : ∀ v, ∀ i ∈ lists v, i < s.unbondingCount
  owner : ∀ v, ∀ i ∈ lists v, (s.entries i).validator = v
  listed : ∀ i < s.unbondingCount, (s.entries i).validator ≠ 0 → i ∈ lists (s.entries i).validator
  /-- No entry belongs to the zero address, which marks a claimed one. -/
  zero : lists 0 = []

variable {s : Store} {v v' : Address} {amount completeTime n : Nat}

/-- Below the `u32` range an append takes the next index. -/
theorem enqueueUnbonding_eq (hamount : amount ≠ 0) (hroom : s.unbondingCount + 1 < 2 ^ 32) :
    s.enqueueUnbonding v amount completeTime = { s with
      entries := update s.entries s.unbondingCount
        ⟨v, amount, completeTime, s.perValUnbondingHead v⟩
      unbondingCount := s.unbondingCount + 1
      perValUnbondingHead :=
        update s.perValUnbondingHead v (s.unbondingCount + 1) } := by
  simp [Store.enqueueUnbonding, hamount, wrappingAdd_eq hroom]

namespace Queue

variable {s : Store} {lists : Address → List Nat}

theorem nodup (h : Queue s lists) (v : Address) : (lists v).Nodup :=
  (h.decreasing v).imp fun hgt => ne_of_gt hgt

/-- Two validators share no entry. -/
theorem disjoint (h : Queue s lists) {i : Nat} (hi : i ∈ lists v)
    (hi' : i ∈ lists v') : v = v' := (h.owner v i hi).symm.trans (h.owner v' i hi')

theorem length_lt_walkFuel (h : Queue s lists) (v : Address) : (lists v).length < walkFuel :=
  lt_of_le_of_lt (Lists.length_le_of_pairwise_gt (h.decreasing v) (h.below v)) h.count_lt

theorem of_empty (hcount : s.unbondingCount = 0) (hhead : ∀ v, s.perValUnbondingHead v = 0) :
    Queue s fun _ => [] where
  count_lt := by omega
  seg v := hhead v
  decreasing _ := List.Pairwise.nil
  below _ _ hi := by cases hi
  owner _ _ hi := by cases hi
  listed i hi := by omega
  zero := rfl

/-- With no entry counted every head is empty. -/
theorem head_eq_zero (h : Queue s lists) (hcount : s.unbondingCount = 0) (v : Address) :
    s.perValUnbondingHead v = 0 := by
  have hseg := h.seg v
  cases hlist : lists v with
  | nil =>
    rw [hlist] at hseg
    exact hseg
  | cons i rest =>
    have hbelow := h.below v i (hlist ▸ mem_cons_self)
    omega

/-! ### Appending an entry -/

/-- Appending an entry puts its index in front of the owner's list. -/
theorem enqueue (h : Queue s lists) (hv : v ≠ 0)
    (hamount : amount ≠ 0) (completeTime : Nat) (hroom : s.unbondingCount + 1 < 2 ^ 32) :
    Queue (s.enqueueUnbonding v amount completeTime)
      (update lists v (s.unbondingCount :: lists v)) := by
  have hfresh : ∀ a, ∀ i ∈ lists a, i ≠ s.unbondingCount := fun a i hi => (h.below a i hi).ne
  rw [enqueueUnbonding_eq hamount hroom]
  refine ⟨hroom, fun a => ?_, fun a => ?_, fun a i hi => ?_, fun a i hi => ?_, fun i hi hne => ?_,
    ?_⟩
  · -- The lists' own links are untouched, and the new entry links to the old head.
    have hold : ∀ b, Seg (nextOf (update s.entries s.unbondingCount
        ⟨v, amount, completeTime, s.perValUnbondingHead v⟩)) (s.perValUnbondingHead b) (lists b) :=
      fun b => (h.seg b).congr fun i hi => by simp [nextOf, hfresh b i hi]
    by_cases ha : a = v
    · subst ha
      simp only [update_self]
      refine ⟨rfl, ?_⟩
      simpa [nextOf] using hold a
    · simpa [ha] using hold a
  · by_cases ha : a = v
    · subst ha
      simpa using ⟨fun i hi => h.below a i hi, h.decreasing a⟩
    · simpa [ha] using h.decreasing a
  · by_cases ha : a = v
    · subst ha
      simp only [update_self, mem_cons] at hi
      rcases hi with rfl | hi
      · exact lt_succ_self _
      · exact (h.below a i hi).trans (lt_succ_self _)
    · simp only [update_of_ne ha] at hi
      exact (h.below a i hi).trans (lt_succ_self _)
  · by_cases ha : a = v
    · subst ha
      simp only [update_self, mem_cons] at hi
      rcases hi with rfl | hi
      · simp
      · simpa [hfresh a i hi] using h.owner a i hi
    · simp only [update_of_ne ha] at hi
      simpa [hfresh a i hi] using h.owner a i hi
  · by_cases hlast : i = s.unbondingCount
    · subst hlast
      simp
    · have hlt : i < s.unbondingCount := by
        have : i < s.unbondingCount + 1 := hi
        omega
      simp only [update_of_ne hlast] at hne ⊢
      have hmem := h.listed i hlt hne
      by_cases ho : (s.entries i).validator = v
      · rw [ho] at hmem ⊢
        simpa using Or.inr hmem
      · simpa [ho] using hmem
  · rw [update_of_ne hv.symm]
    exact h.zero

end Queue

/-! ### The claim walk -/

/-- Whether an entry may be paid out at a time. -/
def mature (entries : Nat → UnbondingEntry) (timestamp i : Nat) : Bool :=
  decide (timestamp ≥ (entries i).completeTime)

/-- Sum of the amounts at some indices. -/
def amountAt (entries : Nat → UnbondingEntry) (l : List Nat) : Nat :=
  (l.map fun i => (entries i).amount).sum

/-- The stored form of a list's last index. -/
def lastLink (l : List Nat) : Nat := (l.getLast?.map (· + 1)).getD 0

/-- The state of the claim walk over `entries` after it visited `done`: the mature entries are
zeroed and summed up, and ending the rebuilt list threads the others. -/
structure Claimed (entries : Nat → UnbondingEntry) (timestamp : Nat) (done : List Nat)
    (c : ClaimState) : Prop where
  total : c.totalClaimable = amountAt entries (done.filter (mature entries timestamp)) % 2 ^ 256
  seg : Seg (nextOf c.terminate) c.newHead (done.filter (!mature entries timestamp ·))
  tail : c.pendingTail = lastLink (done.filter (!mature entries timestamp ·))
  other : ∀ i ∉ done, c.terminate i = entries i
  paid : ∀ i ∈ done, mature entries timestamp i = true → c.terminate i = .empty
  kept : ∀ i ∈ done, mature entries timestamp i = false →
    { c.terminate i with next := 0 } = { entries i with next := 0 }

namespace Claimed

variable {entries : Nat → UnbondingEntry} {timestamp : Nat} {done : List Nat} {c : ClaimState}

variable (h : Claimed entries timestamp done c)

include h

/-- A rebuilt list that is not empty has a tail, and it is an entry already visited. -/
theorem tail_mem (ht : c.pendingTail ≠ 0) :
    (done.filter (!mature entries timestamp ·)).getLast? = some (c.pendingTail - 1) := by
  have htail := h.tail
  unfold lastLink at htail
  cases hl : (done.filter (!mature entries timestamp ·)).getLast? with
  | none => simp [hl, ht] at htail
  | some j => simp [hl] at htail ⊢; omega

theorem tail_mem_done (ht : c.pendingTail ≠ 0) : c.pendingTail - 1 ∈ done :=
  (mem_filter.mp (mem_of_getLast? (h.tail_mem ht))).1

variable {i : Nat}

/-- The walk has not changed what it has not visited. -/
theorem entries_eq (hi : i ∉ done) : c.entries i = entries i := by
  rw [← h.other i hi]
  unfold ClaimState.terminate
  split
  · rename_i ht
    have : i ≠ c.pendingTail - 1 := fun he => hi (he ▸ h.tail_mem_done ht)
    simp [this]
  · rfl

theorem newHead_eq_zero : c.newHead = 0 ↔ c.pendingTail = 0 := by
  have hseg := h.seg
  have htail := h.tail
  cases hl : done.filter (!mature entries timestamp ·) with
  | nil =>
    rw [hl] at hseg htail
    exact ⟨fun _ => htail, fun _ => hseg⟩
  | cons j l =>
    rw [hl] at hseg htail
    have hhead : c.newHead = j + 1 := hseg.1
    have : lastLink (j :: l) ≠ 0 := by simp [lastLink, getLast?_cons]
    exact ⟨fun h0 => by omega, fun h0 => absurd (htail.symm.trans h0) this⟩

omit h in
theorem nil (entries : Nat → UnbondingEntry) (timestamp : Nat) :
    Claimed entries timestamp [] ⟨entries, 0, 0, 0⟩ where
  total := rfl
  seg := rfl
  tail := rfl
  other _ _ := rfl
  paid _ hi := by cases hi
  kept _ hi := by cases hi

/-- Visiting a mature entry zeroes it and adds its amount. -/
theorem visit_mature (hi : i ∉ done) (hm : mature entries timestamp i = true) :
    Claimed entries timestamp (done ++ [i]) (c.visit timestamp (i + 1)) := by
  have hE := h.entries_eq hi
  have htime : (entries i).completeTime ≤ timestamp := by simpa [mature] using hm
  have hvisit : c.visit timestamp (i + 1) = { c with
      entries := update c.entries i .empty
      totalClaimable := wrappingAdd 256 c.totalClaimable (entries i).amount } := by
    simp [ClaimState.visit, htime, hE]
  have hterm : (c.visit timestamp (i + 1)).terminate = update c.terminate i .empty := by
    rw [hvisit]
    unfold ClaimState.terminate
    by_cases ht : c.pendingTail = 0
    · simp [ht]
    · have hne : c.pendingTail - 1 ≠ i := fun he => hi (he ▸ h.tail_mem_done ht)
      simp [ht, hne, update_comm hne]
  have hkept : (done ++ [i]).filter (!mature entries timestamp ·) =
      done.filter (!mature entries timestamp ·) := by simp [hm]
  refine ⟨?_, ?_, ?_, fun j hj => ?_, fun j hj hmj => ?_, fun j hj hmj => ?_⟩
  · rw [hvisit]
    simp [hm, amountAt, wrappingAdd, h.total]
  · rw [hkept, hterm]
    have hhead : (c.visit timestamp (i + 1)).newHead = c.newHead := by rw [hvisit]
    rw [hhead]
    refine h.seg.congr fun j hj => ?_
    have hne : j ≠ i := fun he => hi (he ▸ (mem_filter.mp hj).1)
    simp [nextOf, hne]
  · rw [hkept, hvisit]
    exact h.tail
  · have hne : j ≠ i := fun he => hj (by simp [he])
    rw [hterm, update_of_ne hne]
    exact h.other j fun hd => hj (by simp [hd])
  · rw [hterm]
    by_cases hne : j = i
    · simp [hne]
    · rw [update_of_ne hne]
      exact h.paid j (by simpa [hne] using hj) hmj
  · have hne : j ≠ i := fun he => by simp [he, hm] at hmj
    rw [hterm, update_of_ne hne]
    exact h.kept j (by simpa [hne] using hj) hmj

/-- What visiting an entry that is not mature does: it becomes the tail, and the head when there
was none. -/
theorem visit_of_not_mature (hi : i ∉ done) (hm : mature entries timestamp i = false) :
    c.visit timestamp (i + 1) =
      if c.pendingTail = 0 then { c with newHead := i + 1, pendingTail := i + 1 }
      else { c with
        entries := update c.entries (c.pendingTail - 1)
          { c.entries (c.pendingTail - 1) with next := i + 1 }
        pendingTail := i + 1 } := by
  have htime : ¬ timestamp ≥ (c.entries i).completeTime := by
    rw [h.entries_eq hi]
    simpa [mature] using hm
  rw [ClaimState.visit, Nat.add_sub_cancel, if_neg htime]
  simp only [h.newHead_eq_zero]

/-- The entries after linking `i` behind the last one kept. -/
theorem visit_kept_terminate (hi : i ∉ done) (hm : mature entries timestamp i = false) :
    (c.visit timestamp (i + 1)).terminate =
      update
        (if c.pendingTail = 0 then c.terminate else update c.terminate (c.pendingTail - 1)
            { c.terminate (c.pendingTail - 1) with next := i + 1 })
        i { entries i with next := 0 } := by
  have hE := h.entries_eq hi
  rw [h.visit_of_not_mature hi hm]
  by_cases ht : c.pendingTail = 0
  · simp [ClaimState.terminate, hE, ht]
  · have hne : i ≠ c.pendingTail - 1 := fun he => hi (he ▸ h.tail_mem_done ht)
    simp [ClaimState.terminate, hE, ht, hne]

/-- Visiting another entry links it behind the last one kept. -/
theorem visit_kept (hnd : done.Nodup) (hi : i ∉ done) (hm : mature entries timestamp i = false) :
    Claimed entries timestamp (done ++ [i]) (c.visit timestamp (i + 1)) := by
  have hvisit := h.visit_of_not_mature hi hm
  have hterm := h.visit_kept_terminate hi hm
  have hkept : (done ++ [i]).filter (!mature entries timestamp ·) =
      done.filter (!mature entries timestamp ·) ++ [i] := by simp [hm]
  -- Only the tail is relinked, and the tail is one of the entries kept.
  have hsame : ∀ j, j ≠ i → (c.pendingTail ≠ 0 → j ≠ c.pendingTail - 1) →
      (c.visit timestamp (i + 1)).terminate j = c.terminate j := by
    intro j hji hjt
    rw [hterm, update_of_ne hji]
    split
    · rfl
    · rename_i ht
      exact update_of_ne (hjt ht) _ _
  have htailKept : c.pendingTail ≠ 0 → mature entries timestamp (c.pendingTail - 1) = false := by
    intro ht
    simpa using (mem_filter.mp (mem_of_getLast? (h.tail_mem ht))).2
  refine ⟨?_, ?_, ?_, fun j hj => ?_, fun j hj hmj => ?_, fun j hj hmj => ?_⟩
  · rw [hvisit, filter_append, filter_singleton, hm]
    split <;> simpa using h.total
  · rw [hkept]
    by_cases ht : c.pendingTail = 0
    · have hempty : done.filter (!mature entries timestamp ·) = [] :=
        (h.newHead_eq_zero.mpr ht ▸ h.seg).eq_nil
      rw [hempty, hvisit, if_pos ht]
      refine ⟨rfl, ?_⟩
      simp [nextOf, ClaimState.terminate, Seg]
    · have hhead : (c.visit timestamp (i + 1)).newHead = c.newHead := by rw [hvisit, if_neg ht]
      have hne : c.pendingTail - 1 ≠ i := fun he => hi (he ▸ h.tail_mem_done ht)
      rw [hhead]
      refine h.seg.snoc (hnd.filter _) (h.tail_mem ht) (fun j hj hjt => ?_) ?_ ?_
      · have hji : j ≠ i := fun he => hi (he ▸ (mem_filter.mp hj).1)
        simp [nextOf, hsame j hji fun _ => hjt]
      · simp [nextOf, hterm, ht, hne]
      · simp [nextOf, hterm]
  · rw [hkept, hvisit]
    split <;> simp [lastLink]
  · have hne : j ≠ i := fun he => hj (by simp [he])
    have hd : j ∉ done := fun hd => hj (by simp [hd])
    rw [hsame j hne fun ht he => hd (he ▸ h.tail_mem_done ht)]
    exact h.other j hd
  · have hne : j ≠ i := fun he => by simp [he, hm] at hmj
    rw [hsame j hne fun ht he => by simp [he, htailKept ht] at hmj]
    exact h.paid j (by simpa [hne] using hj) hmj
  · by_cases hne : j = i
    · rw [hterm, hne, update_self]
    · have hold := h.kept j (by simpa [hne] using hj) hmj
      rw [hterm, update_of_ne hne, ← hold]
      split
      · rfl
      · by_cases hjt : j = c.pendingTail - 1
        · rw [hjt, update_self]
        · rw [update_of_ne hjt]

end Claimed

variable {entries : Nat → UnbondingEntry}

/-- The claim walk over a list ends and has visited the whole list. -/
theorem claimLoop_claimed {timestamp : Nat} :
    ∀ {rest done : List Nat} {c : ClaimState} {fuel current : Nat},
      Claimed entries timestamp done c → (done ++ rest).Nodup →
      Seg (nextOf entries) current rest → rest.length < fuel →
      ∃ c', claimLoop timestamp fuel c current = .ok c' ∧
        Claimed entries timestamp (done ++ rest) c' := by
  intro rest
  induction rest with
  | nil =>
    intro done c fuel current hc _ hseg hfuel
    obtain ⟨fuel, rfl⟩ := exists_eq_succ_of_ne_zero (ne_of_gt hfuel)
    have hzero : current = 0 := hseg
    exact ⟨c, by simp [claimLoop, hzero], by simpa using hc⟩
  | cons i rest ih =>
    intro done c fuel current hc hnd hseg hfuel
    obtain ⟨fuel, rfl⟩ := exists_eq_succ_of_ne_zero (ne_of_gt (zero_lt_of_lt hfuel))
    obtain ⟨rfl, hrest⟩ := hseg
    have hi : i ∉ done := fun hd => (nodup_append.mp hnd).2.2 i hd i mem_cons_self rfl
    have hstep : Claimed entries timestamp (done ++ [i]) (c.visit timestamp (i + 1)) := by
      cases hm : mature entries timestamp i with
      | true => exact hc.visit_mature hi hm
      | false => exact hc.visit_kept (nodup_append.mp hnd).1 hi hm
    have hnd' : (done ++ [i] ++ rest).Nodup := by simpa using hnd
    obtain ⟨c', hloop, hc'⟩ := ih hstep hnd' hrest (lt_of_succ_lt_succ hfuel)
    refine ⟨c', ?_, by simpa using hc'⟩
    rw [claimLoop, if_neg (succ_ne_zero i), Nat.add_sub_cancel, hc.entries_eq hi]
    exact hloop

/-- An entry the claim keeps has its owner, amount and time. -/
theorem Claimed.kept_fields {timestamp : Nat} {done : List Nat}
    {c : ClaimState} (h : Claimed entries timestamp done c) {i : Nat} (hi : i ∈ done)
    (hm : mature entries timestamp i = false) :
    (c.terminate i).validator = (entries i).validator ∧
      (c.terminate i).amount = (entries i).amount := by
  have hkept := h.kept i hi hm
  simp only [UnbondingEntry.mk.injEq] at hkept
  exact ⟨hkept.1, hkept.2.1⟩

variable {lists : Address → List Nat}

/-- A claim takes the mature entries off the caller's list. -/
theorem Queue.claim (h : Queue s lists) (v : Address) (timestamp : Nat) :
    ∃ c, claimLoop timestamp walkFuel ⟨s.entries, 0, 0, 0⟩ (s.perValUnbondingHead v) = .ok c ∧
      Claimed s.entries timestamp (lists v) c ∧
      Queue { s with
          entries := c.terminate
          perValUnbondingHead := update s.perValUnbondingHead v c.newHead }
        (update lists v ((lists v).filter (!mature s.entries timestamp ·))) := by
  have hnd : ([] ++ lists v).Nodup := by simpa using h.nodup v
  obtain ⟨c, hloop, hc⟩ := claimLoop_claimed (Claimed.nil s.entries timestamp) hnd (h.seg v)
    (h.length_lt_walkFuel v)
  rw [nil_append] at hc
  refine ⟨c, hloop, hc, h.count_lt, fun a => ?_, fun a => ?_, fun a i hi => ?_, fun a i hi => ?_,
    fun i hi hne => ?_, ?_⟩
  · by_cases ha : a = v
    · subst ha
      simpa using hc.seg
    · simp only [update_of_ne ha]
      refine (h.seg a).congr fun i hi => ?_
      have hother : i ∉ lists v := fun hv => ha (h.disjoint hi hv)
      simp [nextOf, hc.other i hother]
  · by_cases ha : a = v
    · subst ha
      simpa using (h.decreasing a).filter _
    · simpa [ha] using h.decreasing a
  · by_cases ha : a = v
    · subst ha
      simp only [update_self] at hi
      exact h.below a i (mem_filter.mp hi).1
    · simp only [update_of_ne ha] at hi
      exact h.below a i hi
  · by_cases ha : a = v
    · subst ha
      simp only [update_self] at hi
      obtain ⟨hmem, hm⟩ := mem_filter.mp hi
      exact (hc.kept_fields hmem (by simpa using hm)).1.trans (h.owner a i hmem)
    · simp only [update_of_ne ha] at hi
      have hother : i ∉ lists v := fun hv => ha (h.disjoint hi hv)
      simpa [hc.other i hother] using h.owner a i hi
  · -- An entry that still has an owner was not paid out.
    by_cases hmem : i ∈ lists v
    · cases hm : mature s.entries timestamp i with
      | true => exact absurd (by simp [hc.paid i hmem hm, UnbondingEntry.empty]) hne
      | false =>
        have hown := (hc.kept_fields hmem hm).1.trans (h.owner v i hmem)
        simp only [hown, update_self]
        exact mem_filter.mpr ⟨hmem, by simp [hm]⟩
    · simp only [hc.other i hmem] at hne ⊢
      have hlisted := h.listed i hi hne
      have hov : (s.entries i).validator ≠ v := fun he => hmem (he ▸ hlisted)
      simpa [hov] using hlisted
  · by_cases hv : v = 0
    · subst hv
      simp only [update_self, h.zero, filter_nil]
    · rw [update_of_ne (Ne.symm hv)]
      exact h.zero

/-! ### The slash walk -/

def slashOf (percent : Nat) (e : UnbondingEntry) : Nat :=
  if e.amount = 0 then 0 else wrappingMul 256 e.amount percent / 100

variable (percent time : Nat)

/-- A slash leaves owner and link of an entry. -/
theorem slashEntry_fields (e : UnbondingEntry) :
    (slashEntry percent time e).1.validator = e.validator ∧
      (slashEntry percent time e).1.next = e.next ∧
      (slashEntry percent time e).1.amount = e.amount - slashOf percent e ∧
      (slashEntry percent time e).2 = slashOf percent e := by
  unfold slashEntry slashOf
  split <;> simp_all

/-- The entries after slashing a list of indices. -/
def slashAt (l : List Nat) (entries : Nat → UnbondingEntry) : Nat → UnbondingEntry :=
  fun i => if i ∈ l then (slashEntry percent time (entries i)).1 else entries i

/-- Slashing a list leaves owners and links and lowers the amounts on the list. -/
theorem slashAt_fields (l : List Nat) (entries : Nat → UnbondingEntry) (i : Nat) :
    (slashAt percent time l entries i).validator = (entries i).validator ∧
      (slashAt percent time l entries i).next = (entries i).next ∧
      (slashAt percent time l entries i).amount =
        if i ∈ l then (entries i).amount - slashOf percent (entries i)
        else (entries i).amount := by
  have hentry := slashEntry_fields percent time (entries i)
  unfold slashAt
  split
  · exact ⟨hentry.1, hentry.2.1, hentry.2.2.1⟩
  · exact ⟨rfl, rfl, rfl⟩

/-- The slash walk over a list ends, slashes each of its entries once and sums up what it took. -/
theorem slashLoop_eq {percent time : Nat} :
    ∀ {l : List Nat} {entries : Nat → UnbondingEntry} {total fuel current : Nat}, l.Nodup →
      Seg (nextOf entries) current l → l.length < fuel → total < 2 ^ 256 →
      slashLoop percent time fuel entries total current =
        .ok (slashAt percent time l entries,
          (total + (l.map fun i => slashOf percent (entries i)).sum) % 2 ^ 256) := by
  intro l
  induction l with
  | nil =>
    intro entries total fuel current _ hseg hfuel htotal
    obtain ⟨fuel, rfl⟩ := exists_eq_succ_of_ne_zero (ne_of_gt hfuel)
    have hzero : current = 0 := hseg
    have hsame : slashAt percent time [] entries = entries := funext fun i => by simp [slashAt]
    rw [slashLoop, if_pos hzero, hsame, map_nil, sum_nil, add_zero, mod_eq_of_lt htotal]
  | cons i l ih =>
    intro entries total fuel current hnd hseg hfuel htotal
    obtain ⟨fuel, rfl⟩ := exists_eq_succ_of_ne_zero (ne_of_gt (zero_lt_of_lt hfuel))
    obtain ⟨rfl, hrest⟩ := hseg
    obtain ⟨hi, hnd⟩ := nodup_cons.mp hnd
    have hne : ∀ j ∈ l, j ≠ i := fun j hj he => hi (he ▸ hj)
    have hseg : Seg (nextOf (update entries i (slashEntry percent time (entries i)).1))
        (entries i).next l :=
      hrest.congr fun j hj => by simp [nextOf, hne j hj]
    rw [slashLoop, if_neg (succ_ne_zero i)]
    simp only [Nat.add_sub_cancel]
    rw [ih hnd hseg (lt_of_succ_lt_succ hfuel) (wrappingAdd_lt _ _ _)]
    have hentries : slashAt percent time l
        (update entries i (slashEntry percent time (entries i)).1) =
        slashAt percent time (i :: l) entries := by
      funext j
      by_cases hj : j = i
      · simp [slashAt, hj, hi]
      · simp [slashAt, hj]
    have hsum : (l.map fun j => slashOf percent
        (update entries i (slashEntry percent time (entries i)).1 j)) =
        l.map fun j => slashOf percent (entries j) :=
      map_congr_left fun j hj => by rw [update_of_ne (hne j hj)]
    rw [hentries, hsum, wrappingAdd, mod_add_mod, map_cons, sum_cons,
      (slashEntry_fields percent time (entries i)).2.2.2, add_assoc]

/-- A slash keeps every list. -/
theorem Queue.slash (h : Queue s lists) (v : Address) (percent time : Nat) :
    Queue { s with entries := slashAt percent time (lists v) s.entries } lists := by
  have hfields := slashAt_fields percent time (lists v) s.entries
  refine ⟨h.count_lt, fun a => ?_, h.decreasing, h.below, fun a i hi => ?_, fun i hi hne => ?_,
    h.zero⟩
  · exact (h.seg a).congr fun i _ => (hfields i).2.1
  · exact (hfields i).1.trans (h.owner a i hi)
  · simp only [hfields] at hne ⊢
    exact h.listed i hi hne

/-! ### The tail trim -/

theorem trimTail_le (entries : Nat → UnbondingEntry) :
    ∀ ops count, trimTail entries ops count ≤ count := by
  intro ops
  induction ops with
  | zero => exact fun count => le_refl count
  | succ ops ih =>
    intro count
    cases count with
    | zero => exact le_refl 0
    | succ count =>
      unfold trimTail
      split
      · exact le_rfl
      · exact (ih count).trans (le_succ count)

/-- Only entries without an owner are trimmed. -/
theorem validator_of_trimmed :
    ∀ {ops count i : Nat}, trimTail entries ops count ≤ i → i < count →
      (entries i).validator = 0 := by
  intro ops
  induction ops with
  | zero =>
    intro count i hle hlt
    exact absurd hlt (not_lt.mpr hle)
  | succ ops ih =>
    intro count i hle hlt
    cases count with
    | zero => exact absurd hlt (Nat.not_lt_zero i)
    | succ count =>
      unfold trimTail at hle
      split at hle
      · exact absurd hlt (not_lt.mpr hle)
      · rename_i hv
        by_cases hi : i = count
        · rw [hi]
          exact not_not.mp hv
        · exact ih hle (by omega)

/-- Trimming the tail drops no listed index. -/
theorem Queue.trim (h : Queue s lists) (ops : Nat) :
    Queue { s with unbondingCount := trimTail s.entries ops s.unbondingCount } lists := by
  have hle := trimTail_le s.entries ops s.unbondingCount
  refine ⟨lt_of_le_of_lt hle h.count_lt, h.seg, h.decreasing, fun v i hi => ?_, h.owner,
    fun i hi => h.listed i (lt_of_lt_of_le hi hle), h.zero⟩
  by_contra hge
  have hv : v = 0 :=
    (h.owner v i hi).symm.trans (validator_of_trimmed (not_lt.mp hge) (h.below v i hi))
  rw [hv, h.zero] at hi
  cases hi

end Rudis.Staking
