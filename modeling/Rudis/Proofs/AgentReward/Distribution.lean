import Rudis.Lib.Lists
import Rudis.Spec.AgentReward

/-!
# `Rudis.Proofs.AgentReward.Distribution`: what the capped distribution gives each address

The two walks of a redistribution round are described by one relation: `Raised` says that the
entries keep their address and count, that shares only grow and stop at the cap, and that what
the shares gained is what the excess lost. Both walks are `Raised` steps, and so is the whole loop
(`redistribute_raised`). After its first round either the excess is used up or every share is at
the cap, so the order of the walks decides only who gets the excess, never how much is given.

* `rewardOf_rewarded`: what an address ends with, as a function of the counts: between its first
  share and the excess more, and below the cap only when the excess was given out in full.
* `Rewarded.eq_of_covered`: where the excess fills every open address, or only one is open, the
  reward is the first share plus the excess, cut at the cap.
* `orderFair_of`: where the order of the addresses is immaterial, the distribution is fair up to
  one unit per address. `skewedCounts_unfair` is a list where it is not.
-/

namespace Rudis.AgentReward

open List

/-! ### Shares that grow towards the cap -/

def shareSum (shares : List Share) : Nat := (shares.map Share.share).sum

@[simp] theorem shareSum_nil : shareSum [] = 0 := rfl

@[simp] theorem shareSum_cons (s : Share) (l : List Share) :
    shareSum (s :: l) = s.share + shareSum l := by
  simp [shareSum]

/-- A share is at most the cap, and the capped mark stands on full entries only. -/
structure Share.Bounded (maxShare : Nat) (s : Share) : Prop where
  le : s.share ≤ maxShare
  full : s.capped → s.share = maxShare

/-- An entry before and after some walks. -/
structure RaisedEntry (maxShare : Nat) (s s' : Share) : Prop where
  address : s'.address = s.address
  count : s'.tributeCount = s.tributeCount
  grows : s.share ≤ s'.share
  bounded : s'.Bounded maxShare

theorem RaisedEntry.refl {maxShare : Nat} {s : Share} (h : s.Bounded maxShare) :
    RaisedEntry maxShare s s :=
  ⟨rfl, rfl, le_rfl, h⟩

theorem RaisedEntry.trans {maxShare : Nat} {s t u : Share} (h : RaisedEntry maxShare s t)
    (h' : RaisedEntry maxShare t u) : RaisedEntry maxShare s u :=
  ⟨h'.address.trans h.address, h'.count.trans h.count, h.grows.trans h'.grows, h'.bounded⟩

/-- A working list and its excess, before and after some walks. -/
structure Raised (maxShare : Nat) (l : List Share) (e : Nat) (l' : List Share) (e' : Nat) :
    Prop where
  entries : Forall₂ (RaisedEntry maxShare) l l'
  total : shareSum l' + e' = shareSum l + e

section Walks

variable {maxShare available e e' e'' : Nat} {s s' : Share} {l l' l'' : List Share}

theorem Raised.refl (h : ∀ s ∈ l, s.Bounded maxShare) : Raised maxShare l e l e :=
  ⟨forall₂_same.mpr fun s hs => .refl (h s hs), rfl⟩

theorem Raised.nil : Raised maxShare [] e [] e := .refl (by simp)

/-- One entry that gains what the excess loses, then the rest. -/
theorem Raised.cons (hs : RaisedEntry maxShare s s') (h : Raised maxShare l e' l' e'')
    (hgain : s'.share + e' = s.share + e) : Raised maxShare (s :: l) e (s' :: l') e'' := by
  refine ⟨.cons hs h.entries, ?_⟩
  have := h.total
  rw [shareSum_cons, shareSum_cons]
  omega

theorem forall₂_trans (h : Forall₂ (RaisedEntry maxShare) l l')
    (h' : Forall₂ (RaisedEntry maxShare) l' l'') :
    Forall₂ (RaisedEntry maxShare) l l'' := by
  induction h generalizing l'' with
  | nil =>
    cases h'
    exact .nil
  | cons hs _ ih =>
    cases h' with
    | cons hs' h' => exact .cons (hs.trans hs') (ih h')

theorem Raised.trans (h : Raised maxShare l e l' e') (h' : Raised maxShare l' e' l'' e'') :
    Raised maxShare l e l'' e'' :=
  ⟨forall₂_trans h.entries h'.entries, h'.total.trans h.total⟩

theorem Raised.bounded (h : Raised maxShare l e l' e') : ∀ s ∈ l', s.Bounded maxShare := by
  obtain ⟨hentries, -⟩ := h
  induction hentries with
  | nil => simp
  | cons hs _ ih =>
    exact forall_mem_cons.mpr ⟨hs.bounded, ih⟩

theorem shareSum_mono (h : Forall₂ (RaisedEntry maxShare) l l') : shareSum l ≤ shareSum l' := by
  induction h with
  | nil => exact le_rfl
  | cons hs _ ih =>
    rw [shareSum_cons, shareSum_cons]
    exact Nat.add_le_add hs.grows ih

/-- Every entry has a successor, and what it gained is part of what the list gained. -/
theorem exists_raised (h : Forall₂ (RaisedEntry maxShare) l l') (hs : s ∈ l) :
    ∃ s' ∈ l', RaisedEntry maxShare s s' ∧ s'.share + shareSum l ≤ s.share + shareSum l' := by
  induction h with
  | nil => simp at hs
  | @cons t t' l l' ht htail ih =>
    rcases mem_cons.mp hs with rfl | hs
    · refine ⟨t', mem_cons_self, ht, ?_⟩
      have := shareSum_mono htail
      rw [shareSum_cons, shareSum_cons]
      omega
    · obtain ⟨s', hs', hr, hle⟩ := ih hs
      refine ⟨s', mem_cons_of_mem _ hs', hr, ?_⟩
      have := ht.grows
      rw [shareSum_cons, shareSum_cons]
      omega

/-! ### The two walks -/

variable {n toGive : Nat}

/-- An entry with room that receives no more than its room. -/
theorem raisedEntry_receive (hmax : maxShare < 2 ^ 256) (hs : s.Bounded maxShare)
    (hopen : s.isClosed maxShare = false) (hgive : toGive ≤ maxShare - s.share) :
    RaisedEntry maxShare s (s.receive maxShare toGive) ∧
      (s.receive maxShare toGive).share = s.share + toGive := by
  have hle := hs.le
  have hshare : (s.receive maxShare toGive).share = s.share + toGive := by
    show wrappingAdd 256 s.share toGive = _
    exact wrappingAdd_eq (by omega)
  have hcapped : s.capped = false := by
    simp only [Share.isClosed, Bool.or_eq_false_iff] at hopen
    exact hopen.1
  refine ⟨⟨rfl, rfl, by omega, by omega, ?_⟩, hshare⟩
  intro hfull
  have hreach : maxShare ≤ (s.receive maxShare toGive).share := by
    simpa [Share.receive, hcapped] using hfull
  omega

theorem share_lt_of_open (hopen : s.isClosed maxShare = false) : s.share < maxShare := by
  simp only [Share.isClosed, Bool.or_eq_false_iff, decide_eq_false_iff_not] at hopen
  omega

theorem share_eq_of_closed (hs : s.Bounded maxShare) (hclosed : s.isClosed maxShare = true) :
    s.share = maxShare := by
  simp only [Share.isClosed, Bool.or_eq_true, decide_eq_true_eq] at hclosed
  rcases hclosed with h | h
  · exact hs.full h
  · exact le_antisymm hs.le h

/-- The proportional walk gives each open entry at most its room and at most the excess. -/
theorem giveProportional_raised (hmax : maxShare < 2 ^ 256) (he : e < 2 ^ 256)
    (hl : ∀ s ∈ l, s.Bounded maxShare) (havail : ∀ s ∈ l, maxShare - s.share ≤ available) :
    Raised maxShare l e (giveProportional maxShare available l e).1
      (giveProportional maxShare available l e).2 := by
  induction l generalizing e with
  | nil => exact .nil
  | cons s l ih =>
    have hs := hl s mem_cons_self
    have hrest : ∀ e₁ ≤ e, Raised maxShare l e₁ (giveProportional maxShare available l e₁).1
        (giveProportional maxShare available l e₁).2 := by
      intro e₁ he₁
      exact ih (by omega) (fun t ht => hl t (mem_cons_of_mem _ ht))
        (fun t ht => havail t (mem_cons_of_mem _ ht))
    have hskip := (hrest e le_rfl).cons (.refl hs) rfl
    rw [giveProportional]
    by_cases hclosed : s.isClosed maxShare = true
    · rw [if_pos hclosed]
      exact hskip
    rw [if_neg hclosed]
    have hopen : s.isClosed maxShare = false := by simpa using hclosed
    dsimp only
    split
    · exact hskip
    split
    · exact hskip
    -- The part is floored from `excess * canReceive / available` with `canReceive ≤ available`; a
    -- product that wraps only makes it smaller.
    rename_i hroom hgive
    generalize htoGive : min (maxShare - s.share)
      (wrappingMul 256 e (maxShare - s.share) / available) = toGive
    have hle : toGive ≤ maxShare - s.share := htoGive ▸ min_le_left _ _
    have hlee : toGive ≤ e := by
      rw [← htoGive]
      refine (min_le_right _ _).trans ((Nat.div_le_div_right (mod_le _ _)).trans ?_)
      refine (Nat.div_le_div_left (havail s mem_cons_self) (by omega)).trans ?_
      rw [Nat.mul_div_cancel _ (by omega)]
    clear htoGive
    have hsub : wrappingSub 256 e toGive = e - toGive := wrappingSub_eq hlee he
    obtain ⟨hentry, hshare⟩ := raisedEntry_receive hmax hs hopen hle
    rw [hsub]
    split
    · exact (Raised.refl fun t ht => hl t (mem_cons_of_mem _ ht)).cons hentry (by omega)
    · exact (hrest (e - toGive) (by omega)).cons hentry (by omega)

/-- The dust walk keeps the totals, and ends with no excess or with every share at the cap. -/
theorem giveDust_raised (hmax : maxShare < 2 ^ 256) (he : e < 2 ^ 256)
    (hl : ∀ s ∈ l, s.Bounded maxShare) :
    Raised maxShare l e (giveDust maxShare l e).1 (giveDust maxShare l e).2.1 ∧
      ((giveDust maxShare l e).2.1 = 0 ∨ ∀ s ∈ (giveDust maxShare l e).1, s.share = maxShare) := by
  induction l generalizing e with
  | nil => exact ⟨.nil, .inr (by simp [giveDust])⟩
  | cons s l ih =>
    have hs := hl s mem_cons_self
    have hrest := fun e₁ (he₁ : e₁ ≤ e) =>
      ih (e := e₁) (by omega) fun t ht => hl t (mem_cons_of_mem _ ht)
    rw [giveDust]
    by_cases hclosed : s.isClosed maxShare = true
    · rw [if_pos hclosed]
      obtain ⟨hr, hend⟩ := hrest e le_rfl
      exact ⟨hr.cons (.refl hs) rfl, hend.imp_right fun hall =>
        forall_mem_cons.mpr ⟨share_eq_of_closed hs hclosed, hall⟩⟩
    rw [if_neg hclosed]
    have hopen : s.isClosed maxShare = false := by simpa using hclosed
    have hlt := share_lt_of_open hopen
    dsimp only
    rw [if_neg (by omega)]
    generalize htoGive : min (maxShare - s.share) e = toGive
    have hle : toGive ≤ maxShare - s.share := by omega
    have hlee : toGive ≤ e := by omega
    have hsub : wrappingSub 256 e toGive = e - toGive := wrappingSub_eq hlee he
    obtain ⟨hentry, hshare⟩ := raisedEntry_receive hmax hs hopen hle
    rw [hsub]
    split
    · rename_i hzero
      have hkeep : Raised maxShare l (e - toGive) l (e - toGive) :=
        .refl fun t ht => hl t (mem_cons_of_mem _ ht)
      exact ⟨hkeep.cons hentry (by omega), .inl hzero⟩
    · -- What is left after the entry took all it could means that the entry is full.
      obtain ⟨hr, hend⟩ := hrest (e - toGive) (by omega)
      exact ⟨hr.cons hentry (by omega), hend.imp_right fun hall =>
        forall_mem_cons.mpr ⟨by omega, hall⟩⟩

/-! ### The redistribution loop -/

/-- Room of a working list below the cap. -/
def roomOf (maxShare : Nat) (shares : List Share) : Nat :=
  (shares.map fun s => maxShare - s.share).sum

theorem availableOf_eq (hl : ∀ s ∈ l, s.Bounded maxShare) (hroom : roomOf maxShare l < 2 ^ 256) :
    availableOf maxShare l = roomOf maxShare l := by
  have hsum : ((l.filter fun s => !s.capped && decide (s.share < maxShare)).map
      fun s => maxShare - s.share).sum = roomOf maxShare l := by
    clear hroom
    induction l with
    | nil => rfl
    | cons s l ih =>
      have hs := hl s mem_cons_self
      have htail := ih fun t ht => hl t (mem_cons_of_mem _ ht)
      by_cases hopen : (!s.capped && decide (s.share < maxShare)) = true
      · rw [filter_cons, if_pos hopen]
        simp only [roomOf, map_cons, sum_cons] at htail ⊢
        omega
      · rw [filter_cons, if_neg hopen, htail]
        -- A skipped entry has no room.
        have hfull : s.share = maxShare := by
          refine share_eq_of_closed hs ?_
          simp only [Share.isClosed, Bool.or_eq_true, decide_eq_true_eq]
          simp only [Bool.and_eq_true, Bool.not_eq_true', decide_eq_true_eq, not_and] at hopen
          cases hc : s.capped
          · exact .inr (Nat.le_of_not_lt (hopen hc))
          · exact .inl rfl
        simp [roomOf, hfull]
  unfold availableOf
  rw [foldl_wrappingAdd (by omega), hsum, zero_add]

theorem room_le_roomOf (hs : s ∈ l) : maxShare - s.share ≤ roomOf maxShare l :=
  single_le_sum (fun _ _ => Nat.zero_le _) _ (mem_map_of_mem hs)

theorem share_eq_of_roomOf_zero (hl : ∀ s ∈ l, s.Bounded maxShare) (h : roomOf maxShare l = 0) :
    ∀ s ∈ l, s.share = maxShare := by
  intro s hs
  have hroom : maxShare - s.share ≤ roomOf maxShare l := room_le_roomOf hs
  have := (hl s hs).le
  omega

/-- A list that is full everywhere is left alone. -/
theorem redistribute_of_full (hfull : ∀ s ∈ l, s.share = maxShare) :
    redistribute maxShare n l e = (l, e) := by
  cases n with
  | zero => rfl
  | succ n =>
    have havail : availableOf maxShare l = 0 := by
      have hnone : (l.filter fun s => !s.capped && decide (s.share < maxShare)) = [] := by
        rw [filter_eq_nil_iff]
        intro s hs
        simp [hfull s hs]
      rw [availableOf, hnone]
      rfl
    rw [redistribute]
    split
    · rfl
    · rw [if_pos havail]

/-- The loop raises the shares, and ends with no excess or with every share at the cap. -/
theorem redistribute_raised (hmax : maxShare < 2 ^ 256) (he : e < 2 ^ 256)
    (hl : ∀ s ∈ l, s.Bounded maxShare) (hroom : e ≠ 0 → roomOf maxShare l < 2 ^ 256) :
    Raised maxShare l e (redistribute maxShare (n + 1) l e).1
        (redistribute maxShare (n + 1) l e).2 ∧
      ((redistribute maxShare (n + 1) l e).2 = 0 ∨
        ∀ s ∈ (redistribute maxShare (n + 1) l e).1, s.share = maxShare) := by
  rw [redistribute]
  split
  · exact ⟨.refl hl, .inl ‹_›⟩
  rw [availableOf_eq hl (hroom ‹_›)]
  dsimp only
  split
  · exact ⟨.refl hl, .inr (share_eq_of_roomOf_zero hl ‹_›)⟩
  have hgiven : Raised maxShare l e (giveProportional maxShare (roomOf maxShare l) l e).1
      (giveProportional maxShare (roomOf maxShare l) l e).2 :=
    giveProportional_raised hmax he hl fun s hs => room_le_roomOf hs
  split
  · exact ⟨hgiven, .inl ‹_›⟩
  have hexcess : (giveProportional maxShare (roomOf maxShare l) l e).2 < 2 ^ 256 := by
    have := hgiven.total
    have := shareSum_mono hgiven.entries
    omega
  obtain ⟨hdust, hend⟩ := giveDust_raised hmax hexcess hgiven.bounded
  have hall := hgiven.trans hdust
  split
  · -- The next round finds nothing to give or nobody to take it.
    have hstop : ∀ {k : Nat} {l₁ : List Share} {e₁ : Nat},
        (e₁ = 0 ∨ ∀ s ∈ l₁, s.share = maxShare) → redistribute maxShare k l₁ e₁ = (l₁, e₁) := by
      intro k l₁ e₁ h
      rcases h with rfl | h
      · cases k <;> simp [redistribute]
      · exact redistribute_of_full h
    rw [hstop hend]
    exact ⟨hall, hend⟩
  · exact ⟨hall, hend⟩

end Walks

/-! ### The first shares, as functions of the counts -/

section FirstShares

variable {pool total c : Nat} {cs cs' : List Nat}

/-- 32% of the pool. -/
def cap (pool : Nat) : Nat := pool * 32 / 100

/-- The proportional part of a count, cut at the cap. -/
def firstShare (pool total count : Nat) : Nat := min (pool * count / total) (cap pool)

/-- What the first shares leave of the pool. -/
def firstExcess (pool : Nat) (cs : List Nat) : Nat :=
  pool - (cs.map (firstShare pool cs.sum)).sum

/-- What one address can still receive after its first share. -/
def openRoom (pool total count : Nat) : Nat := cap pool - firstShare pool total count

/-- What all addresses can still receive. -/
def openRooms (pool : Nat) (cs : List Nat) : Nat := (cs.map (openRoom pool cs.sum)).sum

/-- How many addresses the first shares leave below the cap. -/
def openCount (pool : Nat) (cs : List Nat) : Nat :=
  (cs.filter fun c => decide (firstShare pool cs.sum c < cap pool)).length

/-- No sum and no part leaves its machine integer. The rooms are added up for an excess only. -/
structure Fits (pool : Nat) (cs : List Nat) : Prop where
  tributes : cs.sum < 2 ^ 64
  cap : pool * 32 < 2 ^ 256
  parts : ∀ c ∈ cs, pool * c < 2 ^ 256
  rooms : firstExcess pool cs ≠ 0 → openRooms pool cs < 2 ^ 256

theorem firstShare_le_cap : firstShare pool total c ≤ cap pool := min_le_right _ _

theorem firstShare_mono {c' : Nat} (h : c ≤ c') :
    firstShare pool total c ≤ firstShare pool total c' := by
  have hpart : pool * c / total ≤ pool * c' / total :=
    Nat.div_le_div_right (Nat.mul_le_mul_left _ h)
  unfold firstShare
  omega

theorem firstExcess_perm (h : cs.Perm cs') : firstExcess pool cs = firstExcess pool cs' := by
  unfold firstExcess
  rw [h.sum_eq, (h.map _).sum_eq]

theorem openRooms_perm (h : cs.Perm cs') : openRooms pool cs = openRooms pool cs' := by
  unfold openRooms
  rw [h.sum_eq, (h.map _).sum_eq]

theorem Fits.perm (h : Fits pool cs) (hperm : cs.Perm cs') : Fits pool cs' := by
  refine ⟨hperm.sum_eq ▸ h.tributes, h.cap, fun c hc => h.parts c (hperm.mem_iff.mpr hc), ?_⟩
  rw [← firstExcess_perm hperm, ← openRooms_perm hperm]
  exact h.rooms

/-- Floors of parts that make up a whole sum to at most the whole. -/
theorem sum_parts_le : (cs.map fun c => pool * c / total).sum * total ≤ pool * cs.sum := by
  induction cs with
  | nil => simp
  | cons c cs ih =>
    have hfloor : pool * c / total * total ≤ pool * c := Nat.div_mul_le_self _ _
    rw [map_cons, sum_cons, sum_cons, add_mul, mul_add]
    exact Nat.add_le_add hfloor ih

/-- With one open address its room is all the room there is. -/
theorem openRooms_of_one (hone : openCount pool cs ≤ 1) (hc : c ∈ cs)
    (hopen : firstShare pool cs.sum c < cap pool) :
    openRooms pool cs = openRoom pool cs.sum c := by
  unfold openCount at hone
  unfold openRooms
  generalize cs.sum = total at *
  have hperm := perm_cons_erase hc
  rw [(hperm.map _).sum_eq, map_cons, sum_cons]
  rw [(hperm.filter _).length_eq, filter_cons, if_pos (by simpa using hopen)] at hone
  have hnone : (cs.erase c).filter (fun c => decide (firstShare pool total c < cap pool)) = [] := by
    rw [← length_eq_zero_iff]
    rw [length_cons] at hone
    omega
  have hrest : ((cs.erase c).map (openRoom pool total)).sum = 0 := by
    rw [sum_eq_zero_iff]
    intro x hx
    obtain ⟨d, hd, rfl⟩ := mem_map.mp hx
    have hclosed : ¬ firstShare pool total d < cap pool := by
      simpa using (filter_eq_nil_iff.mp hnone) d hd
    unfold openRoom
    omega
  omega

end FirstShares

/-! ### The distribution -/

section Distribution

variable {pool : Nat} {counts counts' : List (Address × Nat)} {p q : Address × Nat}

def amounts (counts : List (Address × Nat)) : List Nat := counts.map Prod.snd

theorem sortedCounts_perm : (sortedCounts counts).Perm counts := perm_insertionSort _ _

theorem totalTributesOf_eq : totalTributesOf counts = (amounts counts).sum % 2 ^ 64 := by
  unfold totalTributesOf
  rw [← amounts, foldl_wrappingAdd_mod (by decide), zero_add]

theorem maxShareOf_eq (hcap : pool * 32 < 2 ^ 256) : maxShareOf pool = cap pool := by
  unfold maxShareOf cap
  rw [show maxAddressSharePct = 32 from rfl, wrappingMul_eq hcap]

/-- The entry the distribution starts an address with. -/
theorem initialShare_spec (hcap : pool * 32 < 2 ^ 256) (total : Nat) (p : Address × Nat) :
    let s := initialShare pool total p
    s.address = p.1 ∧ s.share = min (wrappingMul 256 pool p.2 / total) (cap pool) ∧
      s.Bounded (cap pool) := by
  unfold initialShare
  rw [maxShareOf_eq hcap]
  dsimp only
  split
  · rename_i hcut
    exact ⟨rfl, (Nat.min_eq_right hcut.le).symm, le_rfl, fun _ => rfl⟩
  · rename_i hkeep
    exact ⟨rfl, (Nat.min_eq_left (Nat.le_of_not_lt hkeep)).symm, Nat.le_of_not_lt hkeep,
      fun h => by simp at h⟩

theorem initialShare_eq (hfits : Fits pool (amounts counts)) (hp : p ∈ counts) :
    (initialShare pool (amounts counts).sum p).share = firstShare pool (amounts counts).sum p.2 := by
  rw [(initialShare_spec hfits.cap _ p).2.1, wrappingMul_eq (hfits.parts _ (mem_map_of_mem hp))]
  rfl

/-- The entries the distribution starts with, in ascending order of addresses. -/
def firstEntries (pool : Nat) (counts : List (Address × Nat)) : List Share :=
  (sortedCounts counts).map (initialShare pool (amounts counts).sum)

theorem mem_firstEntries {s : Share} :
    s ∈ firstEntries pool counts ↔ ∃ p ∈ counts, initialShare pool (amounts counts).sum p = s := by
  simp [firstEntries, sortedCounts_perm.mem_iff]

theorem firstEntries_bounded (hcap : pool * 32 < 2 ^ 256) :
    ∀ s ∈ firstEntries pool counts, s.Bounded (cap pool) := by
  intro s hs
  obtain ⟨p, -, rfl⟩ := mem_firstEntries.mp hs
  exact (initialShare_spec hcap _ p).2.2

theorem shareSum_firstEntries_le (hcap : pool * 32 < 2 ^ 256) (hsum : (amounts counts).sum ≠ 0) :
    shareSum (firstEntries pool counts) ≤ pool := by
  have hle : shareSum (firstEntries pool counts) ≤
      ((sortedCounts counts).map fun p => pool * p.2 / (amounts counts).sum).sum := by
    rw [shareSum, firstEntries, map_map]
    refine sum_le_sum fun p _ => ?_
    show (initialShare pool (amounts counts).sum p).share ≤ _
    rw [(initialShare_spec hcap _ p).2.1]
    exact (min_le_left _ _).trans (Nat.div_le_div_right (mod_le _ _))
  rw [(sortedCounts_perm.map _).sum_eq] at hle
  have hparts := @sum_parts_le pool (amounts counts).sum (amounts counts)
  rw [amounts, map_map] at hparts
  exact hle.trans (Nat.le_of_mul_le_mul_right hparts (Nat.pos_of_ne_zero hsum))

/-- A sum over the first entries of what depends on the share is a sum over the counts. -/
theorem sum_firstEntries (hfits : Fits pool (amounts counts)) (f : Nat → Nat) :
    ((firstEntries pool counts).map fun s => f s.share).sum =
      ((amounts counts).map fun c => f (firstShare pool (amounts counts).sum c)).sum := by
  have hmap : ((firstEntries pool counts).map fun s => f s.share) =
      (sortedCounts counts).map fun p => f (firstShare pool (amounts counts).sum p.2) := by
    rw [firstEntries, map_map]
    refine map_congr_left fun p hp => ?_
    show f (initialShare pool (amounts counts).sum p).share = _
    rw [initialShare_eq hfits (sortedCounts_perm.mem_iff.mp hp)]
  rw [hmap, (sortedCounts_perm.map _).sum_eq, amounts, map_map]
  rfl

theorem shareSum_firstEntries (hfits : Fits pool (amounts counts)) :
    shareSum (firstEntries pool counts) =
      ((amounts counts).map (firstShare pool (amounts counts).sum)).sum :=
  sum_firstEntries hfits fun share => share

theorem roomOf_firstEntries (hfits : Fits pool (amounts counts)) :
    roomOf (cap pool) (firstEntries pool counts) = openRooms pool (amounts counts) :=
  sum_firstEntries hfits fun share => cap pool - share

variable {count m reward : Nat}

theorem roomOf_add_shareSum {l : List Share} (hl : ∀ s ∈ l, s.Bounded m) :
    roomOf m l + shareSum l = l.length * m := by
  induction l with
  | nil => simp [roomOf]
  | cons s l ih =>
    have hs := (hl s mem_cons_self).le
    have htail := ih fun t ht => hl t (mem_cons_of_mem _ ht)
    simp only [roomOf, map_cons, sum_cons, shareSum_cons, length_cons, add_mul, one_mul] at htail ⊢
    omega

theorem raised_addresses {l l' : List Share}
    (h : Forall₂ (RaisedEntry m) l l') : l'.map Share.address = l.map Share.address := by
  induction h with
  | nil => rfl
  | cons hs _ ih => rw [map_cons, map_cons, hs.address, ih]

theorem firstEntries_addresses (hcap : pool * 32 < 2 ^ 256) :
    (firstEntries pool counts).map Share.address = (sortedCounts counts).map Prod.fst := by
  rw [firstEntries, map_map]
  exact map_congr_left fun q _ => (initialShare_spec hcap _ q).1

theorem raised_rewards {final : List Share} (hcap : pool * 32 < 2 ^ 256)
    (h : Forall₂ (RaisedEntry m) (firstEntries pool counts) final) :
    (final.map Share.toReward).map AddressReward.address = (sortedCounts counts).map Prod.fst := by
  rw [map_map]
  exact (raised_addresses h).trans (firstEntries_addresses hcap)

/-- With nothing to hand out the whole pool is the excess. -/
theorem distribution_of_zero (h : pool = 0 ∨ (amounts counts).sum % 2 ^ 64 = 0) :
    calculateDistributionWithCap pool counts = ([], pool) := by
  unfold calculateDistributionWithCap
  rw [totalTributesOf_eq]
  rcases h with rfl | hsum
  · simp
  · rw [hsum]
    split <;> simp

/-- The distribution hands the pool out: the rewards are the first entries raised by the excess,
and an excess stays only when everyone is at the cap. Only the room has to fit in its word, where
there is an excess: a part that wraps is made up for by a larger excess. -/
theorem distribution_hands_out (hpool : pool ≠ 0) (hsum : (amounts counts).sum ≠ 0)
    (htributes : (amounts counts).sum < 2 ^ 64) (hcap : pool * 32 < 2 ^ 256)
    (hroom : shareSum (firstEntries pool counts) ≠ pool →
      roomOf (cap pool) (firstEntries pool counts) < 2 ^ 256) :
    ∃ final e', calculateDistributionWithCap pool counts = (final.map Share.toReward, e') ∧
      Raised (cap pool) (firstEntries pool counts) (pool - shareSum (firstEntries pool counts))
        final e' ∧ (e' = 0 ∨ ∀ s ∈ final, s.share = cap pool) := by
  have hne : counts.isEmpty = false := by
    cases counts with
    | nil => simp [amounts] at hsum
    | cons => rfl
  have hle := shareSum_firstEntries_le hcap hsum
  have hdistributed : ((firstEntries pool counts).map Share.share).foldl (wrappingAdd 256) 0 =
      shareSum (firstEntries pool counts) := by
    unfold shareSum at hle ⊢
    rw [foldl_wrappingAdd (by omega), zero_add]
  have hlt : cap pool < 2 ^ 256 := by
    unfold cap
    omega
  obtain ⟨hr, hend⟩ := redistribute_raised (n := 9) (e := pool - shareSum (firstEntries pool counts))
    hlt (by omega) (firstEntries_bounded hcap) fun he => hroom (by omega)
  refine ⟨_, _, ?_, hr, hend⟩
  unfold calculateDistributionWithCap
  have hentries : (sortedCounts counts).map (initialShare pool (amounts counts).sum) =
      firstEntries pool counts := rfl
  rw [hne, totalTributesOf_eq, Nat.mod_eq_of_lt htributes, maxShareOf_eq hcap]
  dsimp only
  rw [hentries, hdistributed]
  simp [hpool, hsum, maxRedistributionIterations]

theorem distribution_raised (hpool : pool ≠ 0) (hsum : (amounts counts).sum ≠ 0)
    (hfits : Fits pool (amounts counts)) :
    ∃ final e', calculateDistributionWithCap pool counts = (final.map Share.toReward, e') ∧
      Raised (cap pool) (firstEntries pool counts) (firstExcess pool (amounts counts)) final e' ∧
      (e' = 0 ∨ ∀ s ∈ final, s.share = cap pool) := by
  rw [firstExcess, ← shareSum_firstEntries hfits]
  refine distribution_hands_out hpool hsum hfits.tributes hfits.cap fun hne => ?_
  have hle := shareSum_firstEntries_le hfits.cap hsum
  rw [roomOf_firstEntries hfits]
  refine hfits.rooms ?_
  rw [firstExcess, ← shareSum_firstEntries hfits]
  omega

/-- Rewards and excess make up the pool, no reward is above the cap, and an excess is left only
when every listed address is at the cap; provided that the room of the first shares fits in a word
where there is an excess to give. -/
theorem distribution_conserves (pool : Nat) (counts : List (Address × Nat)) (hpool : pool < 2 ^ 240)
    (htributes : (amounts counts).sum < 2 ^ 64)
    (hroom : (amounts counts).sum ≠ 0 → shareSum (firstEntries pool counts) ≠ pool →
      roomOf (cap pool) (firstEntries pool counts) < 2 ^ 256) :
    ((calculateDistributionWithCap pool counts).1.map AddressReward.rewardAmount).sum +
        (calculateDistributionWithCap pool counts).2 = pool ∧
      (∀ r ∈ (calculateDistributionWithCap pool counts).1, r.rewardAmount ≤ 32 * pool / 100) ∧
      ((amounts counts).sum ≠ 0 → (calculateDistributionWithCap pool counts).2 ≠ 0 →
        ((calculateDistributionWithCap pool counts).1.map AddressReward.address).Perm
          (counts.map Prod.fst) ∧
        ∀ r ∈ (calculateDistributionWithCap pool counts).1, r.rewardAmount = 32 * pool / 100) := by
  have hcap : pool * 32 < 2 ^ 256 := by omega
  rw [show 32 * pool / 100 = cap pool by rw [cap, mul_comm]]
  by_cases hzero : pool = 0 ∨ (amounts counts).sum = 0
  · rw [distribution_of_zero (hzero.imp_right fun h => by rw [h, Nat.zero_mod])]
    refine ⟨by simp, by simp, fun hsum he => absurd ?_ he⟩
    exact hzero.resolve_right hsum
  rw [not_or] at hzero
  have hle := shareSum_firstEntries_le hcap hzero.2
  obtain ⟨final, e', hcalc, hr, hend⟩ := distribution_hands_out hzero.1 hzero.2 htributes hcap
    (hroom hzero.2)
  rw [hcalc]
  refine ⟨?_, fun r hmem => ?_, fun _ he => ⟨?_, fun r hmem => ?_⟩⟩
  · have htotal := hr.total
    rw [map_map]
    change shareSum final + e' = pool
    omega
  · obtain ⟨s, hs, rfl⟩ := mem_map.mp hmem
    exact (hr.bounded s hs).le
  · rw [raised_rewards hcap hr.entries]
    exact sortedCounts_perm.map _
  · obtain ⟨s, hs, rfl⟩ := mem_map.mp hmem
    exact hend.resolve_left he s hs

theorem distribution_conserves_two : ((calculateDistributionWithCap 1000 [(1#160, 1), (2#160, 1)]).1.map
    AddressReward.rewardAmount).sum + (calculateDistributionWithCap 1000 [(1#160, 1), (2#160, 1)]).2 =
      1000 :=
  (distribution_conserves 1000 [(1#160, 1), (2#160, 1)] (by decide) (by decide) (by decide +kernel)).1

/-- One address with a tribute among `n` listed without one. -/
def crowd (n : Nat) : List (Address × Nat) :=
  (1#160, 1) :: (List.range n).map fun i => (BitVec.ofNat 160 (i + 2), 0)

theorem amounts_crowd (n : Nat) : (amounts (crowd n)).sum = 1 := by
  simp [amounts, crowd, Function.comp_def]

/-- Whoever has no tribute starts open at zero, the other one starts at the cap. -/
theorem initialShare_crowd (n : Nat) :
    ((sortedCounts (crowd n)).map (initialShare (100 * 2 ^ 233) 1)).Perm
      (⟨1#160, 1, 2 ^ 238, true⟩ ::
        (List.range n).map fun i => ⟨BitVec.ofNat 160 (i + 2), 0, 0, false⟩) := by
  refine (sortedCounts_perm.map _).trans (.of_eq ?_)
  rw [crowd, map_cons, map_map, show initialShare (100 * 2 ^ 233) 1 (1#160, 1) =
    ⟨1#160, 1, 2 ^ 238, true⟩ by decide]
  refine congrArg _ (map_congr_left fun i _ => ?_)
  simp [initialShare, wrappingMul]

/-- With a pool of `100 * 2 ^ 233` the rooms of the crowd add up to `2 ^ 256`, which wraps to zero:
the redistribution stops at once, and the excess stays with everyone but one below the cap. -/
theorem crowd_keeps_excess : (amounts (crowd (2 ^ 18))).sum = 1 ∧
    (calculateDistributionWithCap (100 * 2 ^ 233) (crowd (2 ^ 18))).2 ≠ 0 ∧
    ∃ r ∈ (calculateDistributionWithCap (100 * 2 ^ 233) (crowd (2 ^ 18))).1,
      r.rewardAmount < 32 * (100 * 2 ^ 233) / 100 := by
  obtain ⟨n, hn⟩ : ∃ n : Nat, n = 2 ^ 18 := ⟨_, rfl⟩
  rw [← hn]
  have hmax : maxShareOf (100 * 2 ^ 233) = 2 ^ 238 := by decide
  have hperm := initialShare_crowd n
  generalize hl : (sortedCounts (crowd n)).map (initialShare (100 * 2 ^ 233) 1) = l at hperm
  have hdistributed : (l.map Share.share).foldl (wrappingAdd 256) 0 = 2 ^ 238 := by
    rw [foldl_wrappingAdd_mod (by decide), (hperm.map _).sum_eq]
    simp [Function.comp_def]
  have havail : availableOf (2 ^ 238) l = 0 := by
    rw [availableOf, foldl_wrappingAdd_mod (by decide), ((hperm.filter _).map _).sum_eq]
    have hwraps : n * 2 ^ 238 % 2 ^ 256 = 0 := by rw [hn, ← pow_add, Nat.mod_self]
    simpa [filter_map, Function.comp_def] using hwraps
  have hcalc : calculateDistributionWithCap (100 * 2 ^ 233) (crowd n) =
      (l.map Share.toReward, 100 * 2 ^ 233 - 2 ^ 238) := by
    unfold calculateDistributionWithCap
    rw [totalTributesOf_eq, amounts_crowd, Nat.mod_eq_of_lt (show 1 < 2 ^ 64 by decide), hmax]
    dsimp only
    rw [hl, hdistributed, maxRedistributionIterations, redistribute]
    simp only [havail]
    simp [crowd]
  rw [hcalc]
  have hmem := mem_map_of_mem (f := fun i => Share.mk (BitVec.ofNat 160 (i + 2)) 0 0 false)
    (mem_range.mpr (show 0 < n by omega))
  exact ⟨amounts_crowd n, show 100 * 2 ^ 233 - 2 ^ 238 ≠ 0 by decide, _, mem_map_of_mem (hperm.symm.subset
    (mem_cons_of_mem _ hmem)), by decide⟩

/-- What the distribution gives one address, in terms of the counts alone: at least its first
share, at most the excess more, at most the cap; and when it is below the cap, the excess was
given out in full. -/
structure Rewarded (pool : Nat) (cs : List Nat) (count reward : Nat) : Prop where
  lower : firstShare pool cs.sum count ≤ reward
  upper : reward ≤ firstShare pool cs.sum count + firstExcess pool cs
  capped : reward ≤ cap pool
  spent : reward = cap pool ∨ cap pool + firstExcess pool cs ≤ reward + openRooms pool cs

theorem rewardOf_rewarded (hnd : (counts.map Prod.fst).Nodup) (hpool : pool ≠ 0)
    (hsum : (amounts counts).sum ≠ 0) (hfits : Fits pool (amounts counts)) (hp : p ∈ counts) :
    Rewarded pool (amounts counts) p.2 (rewardOf pool counts p.1) := by
  obtain ⟨final, e', hcalc, hr, hend⟩ := distribution_raised hpool hsum hfits
  have haddr := (initialShare_spec hfits.cap (amounts counts).sum p).1
  have hshare := initialShare_eq hfits hp
  obtain ⟨s, hs, hentry, hgain⟩ := exists_raised hr.entries (mem_firstEntries.mpr ⟨p, hp, rfl⟩)
  -- The addresses of the result are those of the list, so the entry is the one looked up.
  have hkeys : ((final.map Share.toReward).map AddressReward.address).Nodup := by
    rw [raised_rewards hfits.cap hr.entries]
    exact ((sortedCounts_perm.map _).nodup_iff).mpr hnd
  have hreward : rewardOf pool counts p.1 = s.share := by
    have hfind := Lists.find?_eq_of_nodup hkeys (mem_map_of_mem hs)
    have hkey : s.toReward.address = p.1 := hentry.address.trans haddr
    rw [hkey] at hfind
    unfold rewardOf
    rw [hcalc, hfind]
    rfl
  have htotal := hr.total
  have hgrows := hentry.grows
  have hle := hentry.bounded.le
  rw [hshare] at hgain hgrows
  rw [hreward]
  refine ⟨hgrows, by omega, hle, ?_⟩
  rcases hend with rfl | hfull
  · -- With no excess left the room of the list has shrunk by the whole excess.
    right
    have hbefore := roomOf_add_shareSum (@firstEntries_bounded _ counts hfits.cap)
    have hafter := roomOf_add_shareSum hr.bounded
    have hlen := hr.entries.length_eq
    have hroom : cap pool - s.share ≤ roomOf (cap pool) final := room_le_roomOf hs
    rw [roomOf_firstEntries hfits, hlen] at hbefore
    omega
  · exact .inl (hfull s hs)

/-- Where the excess covers all room, or only one address has room, an address ends at its first
share plus the excess, cut at the cap. -/
theorem Rewarded.eq_of_covered {cs : List Nat}
    (h : Rewarded pool cs count reward) (hcount : count ∈ cs)
    (hcase : openRooms pool cs ≤ firstExcess pool cs ∨ openCount pool cs ≤ 1) :
    reward = min (cap pool) (firstShare pool cs.sum count + firstExcess pool cs) := by
  obtain ⟨hlower, hupper, hcapped, hspent⟩ := h
  have hfirst : firstShare pool cs.sum count ≤ cap pool := firstShare_le_cap
  by_cases hopen : firstShare pool cs.sum count < cap pool
  · rcases hcase with hcover | hone
    · have hroom : openRoom pool cs.sum count ≤ openRooms pool cs :=
        single_le_sum (fun _ _ => Nat.zero_le _) _ (mem_map_of_mem hcount)
      unfold openRoom at hroom
      omega
    · have hroom := openRooms_of_one hone hcount hopen
      unfold openRoom at hroom
      omega
  · omega

/-! ### Fairness -/

/-- The order of the addresses cannot matter by more than the dust: the excess is dust, or it
fills every open address, or there is at most one address to give it to. -/
def OrderImmaterial (pool : Nat) (cs : List Nat) : Prop :=
  firstExcess pool cs ≤ cs.length ∨ openRooms pool cs ≤ firstExcess pool cs ∨ openCount pool cs ≤ 1

/-- A pair under another name. -/
def renamed (f : Address → Address) (p : Address × Nat) : Address × Nat := (f p.1, p.2)

/-- Fairness of a distribution up to one unit per address: equal counts are rewarded alike, a
larger count is not rewarded less, and no renaming of the addresses changes a reward. -/
structure OrderFair (pool : Nat) (counts : List (Address × Nat)) : Prop where
  equal : ∀ p ∈ counts, ∀ q ∈ counts, p.2 = q.2 →
    rewardOf pool counts p.1 ≤ rewardOf pool counts q.1 + counts.length
  larger : ∀ p ∈ counts, ∀ q ∈ counts, p.2 < q.2 →
    rewardOf pool counts p.1 ≤ rewardOf pool counts q.1 + counts.length
  names : ∀ f : Address → Address, Function.Injective f → ∀ counts' : List (Address × Nat),
    counts'.Perm (counts.map (renamed f)) → ∀ p ∈ counts,
      rewardOf pool counts p.1 ≤ rewardOf pool counts' (f p.1) + counts.length ∧
        rewardOf pool counts' (f p.1) ≤ rewardOf pool counts p.1 + counts.length

/-- Every reward lies within the dust above a monotone function of the count that depends on the
counts alone. -/
theorem exists_base (cs : List Nat) (h : OrderImmaterial pool cs) :
    ∃ base : Nat → Nat, Monotone base ∧ ∀ count ∈ cs, ∀ reward, Rewarded pool cs count reward →
      base count ≤ reward ∧ reward ≤ base count + cs.length := by
  rcases h with hdust | hcase
  · refine ⟨firstShare pool cs.sum, fun _ _ => firstShare_mono, fun count _ reward hr => ?_⟩
    have := hr.lower
    have := hr.upper
    omega
  · refine ⟨fun count => min (cap pool) (firstShare pool cs.sum count + firstExcess pool cs),
      fun c c' hle => ?_, fun count hcount reward hr => ?_⟩
    · have hmono : firstShare pool cs.sum c ≤ firstShare pool cs.sum c' := firstShare_mono hle
      dsimp only
      omega
    · have := hr.eq_of_covered hcount hcase
      dsimp only
      omega

/-- An empty distribution gives nothing. -/
theorem rewardOf_of_zero (h : pool = 0 ∨ (amounts counts).sum % 2 ^ 64 = 0) (who : Address) :
    rewardOf pool counts who = 0 := by
  rw [rewardOf, distribution_of_zero h]
  rfl

/-- Where nothing is handed out, or the arithmetic stays in range and the order of the walks is
immaterial, the capped distribution is fair. -/
theorem orderFair_of (hnd : (counts.map Prod.fst).Nodup)
    (h : (pool = 0 ∨ (amounts counts).sum % 2 ^ 64 = 0) ∨
      Fits pool (amounts counts) ∧ OrderImmaterial pool (amounts counts)) :
    OrderFair pool counts := by
  have hlen : (amounts counts).length = counts.length := length_map _
  -- One bound for every listing of the same counts under any names.
  have hbound : ∃ base : Nat → Nat, Monotone base ∧ ∀ l : List (Address × Nat),
      (l.map Prod.fst).Nodup → (amounts l).Perm (amounts counts) → ∀ p ∈ l,
        base p.2 ≤ rewardOf pool l p.1 ∧ rewardOf pool l p.1 ≤ base p.2 + counts.length := by
    by_cases hzero : pool = 0 ∨ (amounts counts).sum % 2 ^ 64 = 0
    · refine ⟨fun _ => 0, monotone_const, fun l _ hperm p _ => ?_⟩
      rw [rewardOf_of_zero (hperm.sum_eq ▸ hzero)]
      exact ⟨le_rfl, Nat.zero_le _⟩
    · obtain ⟨hfits, himm⟩ := h.resolve_left hzero
      obtain ⟨base, hmono, hbase⟩ := exists_base (amounts counts) himm
      rw [Nat.mod_eq_of_lt hfits.tributes, not_or] at hzero
      refine ⟨base, hmono, fun l hl hperm p hp => ?_⟩
      have hr := rewardOf_rewarded hl hzero.1 (hperm.sum_eq ▸ hzero.2) (hfits.perm hperm.symm) hp
      have hcount : p.2 ∈ amounts counts := hperm.mem_iff.mp (mem_map_of_mem hp)
      rw [← hlen]
      refine hbase p.2 hcount _ ⟨?_, ?_, hr.capped, ?_⟩
      · rw [← hperm.sum_eq]
        exact hr.lower
      · rw [← hperm.sum_eq, ← firstExcess_perm hperm]
        exact hr.upper
      · rw [← firstExcess_perm hperm, ← openRooms_perm hperm]
        exact hr.spent
  obtain ⟨base, hmono, hbase⟩ := hbound
  have hown := hbase counts hnd (.refl _)
  have hordered : ∀ p ∈ counts, ∀ q ∈ counts, p.2 ≤ q.2 →
      rewardOf pool counts p.1 ≤ rewardOf pool counts q.1 + counts.length := by
    intro p hp q hq hle
    have := hown p hp
    have := hown q hq
    have := hmono hle
    omega
  refine ⟨fun p hp q hq h => hordered p hp q hq h.le, fun p hp q hq h => hordered p hp q hq h.le,
    fun f hf counts' hperm p hp => ?_⟩
  have hnames : (counts'.map Prod.fst).Nodup := by
    rw [(hperm.map _).nodup_iff, map_map]
    show (counts.map (f ∘ Prod.fst)).Nodup
    rw [← map_map]
    exact hnd.map hf
  have hcounts : (amounts counts').Perm (amounts counts) := by
    have h := hperm.map Prod.snd
    rwa [map_map] at h
  have hown' := hown p hp
  have hother := hbase counts' hnames hcounts (renamed f p) (hperm.mem_iff.mpr (mem_map_of_mem hp))
  simp only [renamed] at hother
  omega

/-- Three addresses whose caps the excess fills. -/
def coveredCounts : List (Address × Nat) := [(0xA#160, 97), (0xC#160, 3), (0xB#160, 40)]

theorem coveredCounts_fair : OrderFair 1000 coveredCounts :=
  orderFair_of (by decide) (.inr ⟨⟨by decide, by decide, by decide, fun _ => by decide⟩,
    .inr (.inl (by decide))⟩)

/-- One address with nearly all tributes, and three with one tribute each. -/
def skewedCounts : List (Address × Nat) :=
  [(0xA#160, 97), (0xB#160, 1), (0xC#160, 1), (0xD#160, 1)]

/-- Of three addresses with one tribute each, the one with the lowest address is filled up to the
cap with 320, and the one with the highest gets 106. -/
theorem skewedCounts_unfair :
    (calculateDistributionWithCap 1000 skewedCounts).1.map AddressReward.rewardAmount =
        [320, 320, 254, 106] ∧
      ¬ OrderFair 1000 skewedCounts := by
  refine ⟨by decide +kernel, fun h => ?_⟩
  have hB : rewardOf 1000 skewedCounts 0xB#160 = 320 := by decide +kernel
  have hD : rewardOf 1000 skewedCounts 0xD#160 = 106 := by decide +kernel
  have hle := h.equal (0xB#160, 1) (by decide) (0xD#160, 1) (by decide) rfl
  rw [hB, hD] at hle
  exact absurd hle (by decide)

end Distribution

end Rudis.AgentReward
