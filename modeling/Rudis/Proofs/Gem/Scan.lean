import Rudis.Lib.SwapRemove
import Rudis.Proofs.BinTree
import Rudis.Proofs.PriceMath
import Rudis.Spec.Gem

/-!
# `Rudis.Proofs.Gem.Scan`: the qualification scan

`Store.Indexed` is the bin index: the bins of a currency hold its `Issued` gems by floor price, each
once, and the trie the bins that are not empty. One gem of the scan is promoted or nothing changes
(`tryQualify_cases`). A scan that has come to bin `c` leaves no gem to promote below `c`
(`Scanned`); because a floor price below the rate has no higher bin than the rate, a scan that has
come to the end leaves none at all (`Drained`). `qualifyScan_exact` puts the calls together.

A gem whose call price is beyond the last bin cannot enter the index of qualified gems. The scan
skips it and it stays `Issued` (`callPrice_withoutBin`).
-/

namespace Rudis.Gem

open List
open Tx
open BinTree (findFirstLeftInclusive maxBinId)

/-! ### Bins -/

section
variable {b : Bin} {x : BinIndex} {idx gemId binId : Nat}

theorem Bin.gems_swapRemove (h : idx < b.count) :
    (b.swapRemove idx).gems = b.gems.swapRemove idx := by
  obtain ⟨count, gemAt⟩ := b
  obtain ⟨n, rfl⟩ : ∃ n, count = n + 1 := ⟨count - 1, by simp only at h; omega⟩
  have hfront : (Bin.mk (n + 1) gemAt).gems = (List.range n).map gemAt ++ [gemAt n] := by
    rw [Bin.gems, range_succ, map_append, map_singleton]
  rw [hfront, swapRemove_concat]
  refine ext_getElem (by simp [Bin.gems, Bin.swapRemove]) fun i hi _ => ?_
  have hin : i < n := by simpa [Bin.gems, Bin.swapRemove] using hi
  have hne : i ≠ n := ne_of_lt hin
  simp only [Bin.gems, Bin.swapRemove, Nat.add_sub_cancel, getElem_map, getElem_range,
    getElem_set, update_of_ne hne]
  by_cases hidx : idx = i
  · rw [if_pos hidx, if_pos (by omega), ← hidx, update_self]
  · rw [if_neg hidx]
    split
    · exact update_of_ne (Ne.symm hidx) _ _
    · rfl

/-- A gem of the bin is found at its position. -/
theorem Bin.find_eq_some (hmem : gemId ∈ b.gems) :
    ∃ i, b.find gemId = some i ∧ i < b.count ∧ b.gems[i]? = some gemId := by
  obtain ⟨j, hj, hgem⟩ := mem_map.mp hmem
  cases hfind : b.find gemId with
  | none =>
    have hnone := find?_eq_none.mp hfind j hj
    simp [hgem] at hnone
  | some i =>
    have hi := mem_range.mp (mem_of_find?_eq_some hfind)
    have heq := find?_some hfind
    refine ⟨i, rfl, hi, ?_⟩
    rw [Bin.gems, getElem?_map, getElem?_range hi]
    simpa using heq

/-- The gems of each bin are distinct, and the trie holds the bins that are not empty. -/
structure BinIndex.WF (x : BinIndex) : Prop where
  trie : ∃ bins, x.tree.Represents bins ∧ ∀ binId, binId ∈ bins ↔ (x.bin binId).count ≠ 0
  nodup : ∀ binId, (x.bin binId).gems.Nodup

theorem Bin.count_ne_zero (hmem : gemId ∈ b.gems) : b.count ≠ 0 := by
  intro hzero
  rw [Bin.gems, hzero] at hmem
  exact not_mem_nil hmem

theorem BinIndex.remove_eq (hmem : gemId ∈ (x.bin binId).gems) :
    ∃ idx, idx < (x.bin binId).count ∧ (x.bin binId).gems[idx]? = some gemId ∧
      x.remove binId gemId =
        { tree := if ((x.bin binId).swapRemove idx).count = 0 then (BinTree.remove x.tree binId).1
            else x.tree
          bin := update x.bin binId ((x.bin binId).swapRemove idx) } := by
  obtain ⟨idx, hfind, hlt, hget⟩ := Bin.find_eq_some hmem
  refine ⟨idx, hlt, hget, ?_⟩
  rw [BinIndex.remove, if_neg (Bin.count_ne_zero hmem), hfind]

/-- A gem leaves its bin, the others stay, and the trie follows. -/
theorem BinIndex.WF.remove (h : x.WF) (hmem : gemId ∈ (x.bin binId).gems) :
    (x.remove binId gemId).WF ∧
      ∀ binId' gemId', gemId' ∈ ((x.remove binId gemId).bin binId').gems ↔
        gemId' ∈ (x.bin binId').gems ∧ ¬(binId' = binId ∧ gemId' = gemId) := by
  obtain ⟨idx, hlt, hget, heq⟩ := BinIndex.remove_eq hmem
  have hcons : (gemId :: ((x.bin binId).swapRemove idx).gems).Perm (x.bin binId).gems := by
    rw [Bin.gems_swapRemove hlt]
    exact swapRemove_cons_perm hget
  have hnodup := nodup_cons.mp (hcons.nodup_iff.mpr (h.nodup binId))
  rw [heq]
  refine ⟨⟨?_, ?_⟩, ?_⟩
  · obtain ⟨bins, hrep, hbins⟩ := h.trie
    have hin : binId ∈ bins := (hbins binId).mpr (Bin.count_ne_zero hmem)
    by_cases hlast : ((x.bin binId).swapRemove idx).count = 0
    · -- the bin is empty now and leaves the trie
      refine ⟨bins.erase binId, ?_, fun binId' => ?_⟩
      · simp only [if_pos hlast]
        exact (BinTree.represents_remove hrep (hrep.bounded binId hin)).1
      · by_cases hbin : binId' = binId
        · subst hbin
          simp [hlast]
        · simp [hbin, hbins binId']
    · refine ⟨bins, ?_, fun binId' => ?_⟩
      · simp only [if_neg hlast]
        exact hrep
      · by_cases hbin : binId' = binId
        · subst hbin
          simp [hlast, hin]
        · simp [hbin, hbins binId']
  · intro binId'
    by_cases hbin : binId' = binId
    · subst hbin
      simpa using hnodup.2
    · simpa [hbin] using h.nodup binId'
  · intro binId' gemId'
    by_cases hbin : binId' = binId
    · subst hbin
      simp only [update_self, true_and]
      rw [← hcons.mem_iff, mem_cons]
      constructor
      · intro hin
        exact ⟨.inr hin, fun hgem => hnodup.1 (hgem ▸ hin)⟩
      · rintro ⟨rfl | hin, hne⟩
        · exact absurd rfl hne
        · exact hin
    · simp [hbin]

end

/-! ### The index of the unqualified gems -/

/-- The gem is `Issued` and belongs in this bin of the currency. -/
def Store.Belongs (s : Store) (iso binId gemId : Nat) : Prop :=
  ∃ g, s.gemItems gemId = some g ∧ g.state = .issued ∧ g.referenceCurrency = iso ∧
    priceToBin g.floorPriceMinor = .ok binId

/-- The bins hold exactly the `Issued` gems, each by currency and floor price. -/
structure Store.Indexed (s : Store) : Prop where
  wf : ∀ iso, (s.unqualified iso).WF
  mem : ∀ iso binId gemId, gemId ∈ ((s.unqualified iso).bin binId).gems ↔ s.Belongs iso binId gemId
  binned : ∀ gemId g, s.gemItems gemId = some g → g.state = .issued →
    ∃ binId, priceToBin g.floorPriceMinor = .ok binId
  zero : s.gemItems 0 = none

/-- A gem the scan promotes at this rate. -/
def GemData.Qualifies (iso rate : Nat) (g : GemData) : Prop :=
  g.state = .issued ∧ g.referenceCurrency = iso ∧ g.floorPriceMinor < rate ∧
    ∃ binId, priceToBin g.callPriceMinor = .ok binId

def GemData.promoted (g : GemData) (now : Nat) : GemData :=
  { g with state := .qualified, qualifiedAt := now }

/-- The store after a promotion. -/
def Store.promote (s : Store) (now gemId floorBin callBin : Nat) (g : GemData) : Store :=
  { s with
    unqualified := update s.unqualified g.referenceCurrency
      ((s.unqualified g.referenceCurrency).remove floorBin gemId)
    qualified := update s.qualified g.referenceCurrency
      ((s.qualified g.referenceCurrency).insert callBin gemId)
    gemItems := update s.gemItems gemId (some (g.promoted now)) }

section
variable {s s' : Store} {now iso rate gemId : Nat} {a : Bool} {g : GemData}

theorem getGem_ok : Ok (getGem gemId) s g s' ↔ s.gemItems gemId = some g ∧ s' = s := by
  simp only [getGem, rules, okOr_eq_ok]

theorem setState_qualified_ok {u : Unit} (hg : s.gemItems gemId = some g)
    (hstate : g.state = .issued) :
    Ok (setState now gemId .qualified) s u s' ↔
      ∃ floorBin callBin, priceToBin g.floorPriceMinor = .ok floorBin ∧
        priceToBin g.callPriceMinor = .ok callBin ∧
        s' = s.promote now gemId floorBin callBin g := by
  have hleaves : GemState.qualified ≠ .issued := by decide
  have hcalled : ¬(GemState.issued = .called ∧ GemState.qualified ≠ .called) := by decide
  simp only [setState, getGem_ok, rules, hg, Option.some.injEq, ↓existsAndEq, when, hstate,
    if_pos hleaves, if_neg hcalled, reindex, removeUnqualified, insertQualified]
  rfl

/-- What one gem of the scan can do. -/
theorem qualify_ok :
    Ok (qualify now iso rate gemId) s a s' ↔
      ∃ g, s.gemItems gemId = some g ∧
        (¬(g.state = .issued ∧ g.referenceCurrency = iso ∧ g.floorPriceMinor < rate) ∧
            a = false ∧ s' = s ∨
          (g.state = .issued ∧ g.referenceCurrency = iso ∧ g.floorPriceMinor < rate) ∧
            a = true ∧ ∃ floorBin callBin, priceToBin g.floorPriceMinor = .ok floorBin ∧
              priceToBin g.callPriceMinor = .ok callBin ∧
              s' = s.promote now gemId floorBin callBin g) := by
  simp only [qualify, rules, getGem_ok, ↓existsAndEq, ok_ite, not_le]
  refine exists_congr fun g => and_congr_right fun hg => ?_
  by_cases hstate : g.state = .issued
  · simp only [setState_qualified_ok hg hstate, hstate]
    by_cases hiso : g.referenceCurrency = iso
    · by_cases hrate : g.floorPriceMinor < rate
      · have hle : ¬rate ≤ g.floorPriceMinor := by omega
        simp only [hiso, hrate, hle, ne_eq, not_true_eq_false, false_and, false_or, true_and,
          and_self, exists_and_left, and_comm]
      · have hle : rate ≤ g.floorPriceMinor := by omega
        simp [hiso, hrate, hle]
    · simp [hiso]
  · simp [hstate]

/-- One gem of the scan is promoted, or nothing changes. -/
theorem tryQualify_cases (now iso rate gemId : Nat) (h : s.Indexed) :
    (∃ g floorBin callBin, s.gemItems gemId = some g ∧ g.Qualifies iso rate ∧
      priceToBin g.floorPriceMinor = .ok floorBin ∧
      tryQualify now iso rate s gemId = s.promote now gemId floorBin callBin g) ∨
    (∀ g, s.gemItems gemId = some g → ¬g.Qualifies iso rate) ∧
      tryQualify now iso rate s gemId = s := by
  by_cases hq : ∃ g, s.gemItems gemId = some g ∧ g.Qualifies iso rate
  · obtain ⟨g, hg, hqual⟩ := hq
    obtain ⟨hstate, hiso, hrate, callBin, hcall⟩ := hqual
    obtain ⟨floorBin, hfloor⟩ := h.binned gemId g hg hstate
    have hok : Ok (qualify now iso rate gemId) s true (s.promote now gemId floorBin callBin g) :=
      qualify_ok.mpr
        ⟨g, hg, .inr ⟨⟨hstate, hiso, hrate⟩, rfl, floorBin, callBin, hfloor, hcall, rfl⟩⟩
    exact .inl ⟨g, floorBin, callBin, hg, ⟨hstate, hiso, hrate, callBin, hcall⟩, hfloor,
      hok.checkpoint⟩
  · right
    refine ⟨fun g hg hqual => hq ⟨g, hg, hqual⟩, ?_⟩
    rcases checkpoint_cases (qualify now iso rate gemId) s with ⟨a, hok⟩ | hsame
    · obtain ⟨g, hg, ⟨-, -, hsame⟩ | ⟨⟨hstate, hiso, hrate⟩, -, _, callBin, -, hcall, -⟩⟩ :=
        qualify_ok.mp hok
      · exact hsame
      · exact absurd ⟨g, hg, hstate, hiso, hrate, callBin, hcall⟩ hq
    · exact hsame

/-- A promotion takes the gem out of its bin. -/
theorem Store.Indexed.promote {floorBin callBin : Nat} (h : s.Indexed)
    (hg : s.gemItems gemId = some g) (hstate : g.state = .issued)
    (hfloor : priceToBin g.floorPriceMinor = .ok floorBin) :
    (s.promote now gemId floorBin callBin g).Indexed := by
  have hmem : gemId ∈ ((s.unqualified g.referenceCurrency).bin floorBin).gems :=
    (h.mem _ _ _).mpr ⟨g, hg, hstate, rfl, hfloor⟩
  obtain ⟨hwf, hgems⟩ := (h.wf g.referenceCurrency).remove hmem
  have hitems : ∀ id, id ≠ gemId →
      (s.promote now gemId floorBin callBin g).gemItems id = s.gemItems id :=
    fun id hid => update_of_ne hid _ _
  have hself : (s.promote now gemId floorBin callBin g).gemItems gemId = some (g.promoted now) :=
    update_self ..
  have hnot : ∀ iso binId, ¬(s.promote now gemId floorBin callBin g).Belongs iso binId gemId := by
    rintro iso binId ⟨g', hg', hissued, -⟩
    rw [hself, Option.some.injEq] at hg'
    rw [← hg'] at hissued
    cases hissued
  have hother : ∀ iso binId id, id ≠ gemId →
      ((s.promote now gemId floorBin callBin g).Belongs iso binId id ↔ s.Belongs iso binId id) := by
    intro iso binId id hid
    rw [Store.Belongs, Store.Belongs, hitems id hid]
  refine ⟨fun iso => ?_, fun iso binId id => ?_, fun id g' hg' hissued => ?_, ?_⟩
  · by_cases hiso : iso = g.referenceCurrency
    · subst hiso
      simpa [Store.promote] using hwf
    · simpa [Store.promote, hiso] using h.wf iso
  · by_cases hiso : iso = g.referenceCurrency
    · subst hiso
      show id ∈ ((update s.unqualified _ _ g.referenceCurrency).bin binId).gems ↔ _
      rw [update_self, hgems, h.mem]
      by_cases hid : id = gemId
      · subst hid
        -- it belonged to its own bin only
        refine iff_of_false ?_ (hnot _ _)
        rintro ⟨⟨g', hg', -, -, hbin⟩, hne⟩
        rw [hg, Option.some.injEq] at hg'
        rw [← hg', hfloor, Except.ok.injEq] at hbin
        exact hne ⟨hbin.symm, rfl⟩
      · rw [hother _ _ _ hid]
        simp [hid]
    · show id ∈ ((update s.unqualified _ _ iso).bin binId).gems ↔ _
      rw [update_of_ne hiso, h.mem]
      by_cases hid : id = gemId
      · subst hid
        refine iff_of_false ?_ (hnot _ _)
        rintro ⟨g', hg', -, hcurrency, -⟩
        rw [hg, Option.some.injEq] at hg'
        rw [← hg'] at hcurrency
        exact hiso hcurrency.symm
      · exact (hother _ _ _ hid).symm
  · by_cases hid : id = gemId
    · subst hid
      rw [hself, Option.some.injEq] at hg'
      rw [← hg'] at hissued
      cases hissued
    · rw [hitems id hid] at hg'
      exact h.binned id g' hg' hissued
  · have hne : 0 ≠ gemId := by
      rintro rfl
      rw [h.zero] at hg
      cases hg
    rw [hitems 0 hne]
    exact h.zero

end

/-! ### From one gem to a bin -/

/-- A gem is as before, or it was promoted. -/
def Promotes (iso rate : Nat) (o o' : Option GemData) : Prop :=
  o' = o ∨ ∃ g t, o = some g ∧ g.Qualifies iso rate ∧ o' = some (g.promoted t)

/-- No gem is left to promote in what is stored here. -/
def Settled (iso rate : Nat) (o : Option GemData) : Prop := ∀ g, o = some g → ¬g.Qualifies iso rate

section
variable {iso rate : Nat} {o o' o'' : Option GemData}

theorem not_qualifies_promoted (g : GemData) (t : Nat) : ¬(g.promoted t).Qualifies iso rate :=
  fun h => nomatch h.1

theorem Promotes.of_settled (h : Promotes iso rate o o') (ho : Settled iso rate o) : o' = o := by
  rcases h with h | ⟨g, _, hg, hqual, -⟩
  · exact h
  · exact absurd hqual (ho g hg)

/-- A promoted gem is not promoted again. -/
theorem Promotes.trans (h : Promotes iso rate o o') (h' : Promotes iso rate o' o'') :
    Promotes iso rate o o'' := by
  rcases h with rfl | ⟨g, t, hg, hqual, rfl⟩
  · exact h'
  · have hsettled : Settled iso rate (some (g.promoted t)) := by
      rintro _ ⟨⟩
      exact not_qualifies_promoted g t
    rw [h'.of_settled hsettled]
    exact .inr ⟨g, t, hg, hqual, rfl⟩

theorem Promotes.settled (h : Promotes iso rate o o') (ho : Settled iso rate o) :
    Settled iso rate o' := by
  rw [h.of_settled ho]
  exact ho

end

/-- What a scan keeps between two stores. -/
structure Scans (iso rate : Nat) (s s' : Store) : Prop where
  indexed : s'.Indexed
  cursor : s'.qualifyScanCursor = s.qualifyScanCursor
  promotes : ∀ id, Promotes iso rate (s.gemItems id) (s'.gemItems id)

section
variable {s : Store}

theorem tryQualify_scans (now iso rate gemId : Nat) (h : s.Indexed) :
    Scans iso rate s (tryQualify now iso rate s gemId) ∧
      Settled iso rate ((tryQualify now iso rate s gemId).gemItems gemId) := by
  rcases tryQualify_cases now iso rate gemId h with
    ⟨g, floorBin, callBin, hg, hqual, hfloor, heq⟩ | ⟨hsettled, heq⟩
  · rw [heq]
    refine ⟨⟨h.promote hg hqual.1 hfloor, rfl, fun id => ?_⟩, ?_⟩
    · by_cases hid : id = gemId
      · subst hid
        exact .inr ⟨g, now, hg, hqual, update_self ..⟩
      · exact .inl (update_of_ne hid _ _)
    · intro g' hg'
      obtain rfl : g.promoted now = g' := by simpa [Store.promote] using hg'
      exact not_qualifies_promoted g now
  · rw [heq]
    exact ⟨⟨h, rfl, fun _ => .inl rfl⟩, hsettled⟩

/-- The gems of a snapshot, one after the other. -/
theorem foldl_inspectGem (now iso rate : Nat) (h : s.Indexed) (ids : List Nat) (inspected : Nat) :
    Scans iso rate s (ids.foldl (inspectGem now iso rate) (s, inspected)).1 ∧
      ∀ id ∈ ids,
        Settled iso rate ((ids.foldl (inspectGem now iso rate) (s, inspected)).1.gemItems id) := by
  induction ids generalizing s inspected with
  | nil => exact ⟨⟨h, rfl, fun _ => .inl rfl⟩, fun _ hid => absurd hid not_mem_nil⟩
  | cons gemId ids ih =>
    obtain ⟨hstep, hsettled⟩ := tryQualify_scans now iso rate gemId h
    obtain ⟨hrest, hids⟩ := ih hstep.indexed (saturatingAdd 32 inspected 1)
    rw [foldl_cons]
    exact ⟨⟨hrest.indexed, hrest.cursor.trans hstep.cursor,
      fun id => (hstep.promotes id).trans (hrest.promotes id)⟩,
      forall_mem_cons.mpr ⟨(hrest.promotes gemId).settled hsettled, hids⟩⟩

end

/-! ### From a bin to the end of the range -/

theorem priceToBin_mono {p q a b : Nat} (hpq : p ≤ q) (ha : priceToBin p = .ok a)
    (hb : priceToBin q = .ok b) : a ≤ b := by
  rw [priceToBin] at ha hb
  split at ha
  · injection ha with ha
    omega
  · rw [if_neg (by omega)] at hb
    exact PriceMath.binId_mono (by decide) (by omega) hpq ha hb

theorem priceToBin_le {p a : Nat} (h : priceToBin p = .ok a) : a ≤ maxBinId := by
  rw [priceToBin] at h
  split at h
  · injection h with h
    omega
  · exact PriceMath.binId_le h

/-- The scan has come to bin `c`: what is left to promote lies at `c` or above. -/
structure Scanned (iso rate c : Nat) (s₀ s : Store) : Prop where
  indexed : s.Indexed
  promotes : ∀ id, Promotes iso rate (s₀.gemItems id) (s.gemItems id)
  pending : ∀ id g binId, s.gemItems id = some g → g.Qualifies iso rate →
    priceToBin g.floorPriceMinor = .ok binId → c ≤ binId

/-- The scan has come to its end. -/
structure Drained (iso rate : Nat) (s₀ s : Store) : Prop where
  indexed : s.Indexed
  promotes : ∀ id, Promotes iso rate (s₀.gemItems id) (s.gemItems id)
  settled : ∀ id, Settled iso rate (s.gemItems id)

section
variable {s₀ s : Store} {now iso rate rBin budget c next : Nat}

theorem Store.Indexed.setScanCursor (h : s.Indexed) (c : Nat) : (s.setScanCursor iso c).Indexed :=
  ⟨h.wf, h.mem, h.binned, h.zero⟩

theorem Scanned.setScanCursor (h : Scanned iso rate c s₀ s) (c' : Nat) :
    Scanned iso rate c s₀ (s.setScanCursor iso c') :=
  ⟨h.indexed.setScanCursor c', h.promotes, h.pending⟩

/-- A gem that is still to be promoted is in a bin of the trie, at the cursor or above and not
above the bin of the rate. -/
theorem Scanned.bin_of_qualifies (h : Scanned iso rate c s₀ s) (hrate : priceToBin rate = .ok rBin)
    {id : Nat} {g : GemData} (hg : s.gemItems id = some g) (hqual : g.Qualifies iso rate) :
    ∃ binId, id ∈ ((s.unqualified iso).bin binId).gems ∧ c ≤ binId ∧ binId ≤ rBin := by
  obtain ⟨binId, hfloor⟩ := h.indexed.binned id g hg hqual.1
  exact ⟨binId, (h.indexed.mem _ _ _).mpr ⟨g, hg, hqual.1, hqual.2.1, hfloor⟩,
    h.pending id g binId hg hqual hfloor, priceToBin_mono (le_of_lt hqual.2.2.1) hfloor hrate⟩

/-- No bin of the range is left. -/
theorem Scanned.drained (h : Scanned iso rate c s₀ s) (hrate : priceToBin rate = .ok rBin)
    (hend : ∀ binId, ((s.unqualified iso).bin binId).count ≠ 0 → c ≤ binId → rBin < binId) :
    Drained iso rate s₀ (s.setScanCursor iso 0) := by
  refine ⟨h.indexed.setScanCursor 0, h.promotes, fun id g hg hqual => ?_⟩
  obtain ⟨binId, hmem, hc, hle⟩ := h.bin_of_qualifies hrate hg hqual
  exact not_lt.mpr hle (hend binId (Bin.count_ne_zero hmem) hc)

/-- The first bin from the cursor on is scanned. -/
theorem Scanned.scan_bin (h : Scanned iso rate c s₀ s) (now inspected : Nat)
    (hnext : ∀ binId, ((s.unqualified iso).bin binId).count ≠ 0 → c ≤ binId → next ≤ binId) :
    Scanned iso rate (next + 1) s₀
      ((binSnapshot s iso next).foldl (inspectGem now iso rate) (s, inspected)).1 := by
  obtain ⟨hscan, hids⟩ := foldl_inspectGem now iso rate h.indexed (binSnapshot s iso next) inspected
  refine ⟨hscan.indexed, fun id => (h.promotes id).trans (hscan.promotes id),
    fun id g binId hg hqual hfloor => ?_⟩
  -- it was to be promoted before, too
  have hsame : s.gemItems id = some g := by
    rcases hscan.promotes id with hsame | ⟨g', t, -, -, hpromoted⟩
    · exact hsame.symm.trans hg
    · obtain rfl : g'.promoted t = g := by simpa using hpromoted.symm.trans hg
      exact absurd hqual (not_qualifies_promoted g' t)
  have hmem : id ∈ ((s.unqualified iso).bin binId).gems :=
    (h.indexed.mem _ _ _).mpr ⟨g, hsame, hqual.1, hqual.2.1, hfloor⟩
  have hle := hnext binId (Bin.count_ne_zero hmem) (h.pending id g binId hsame hqual hfloor)
  rcases Nat.lt_or_eq_of_le hle with hlt | rfl
  · exact hlt
  · -- the bin itself was in the snapshot
    have hne : id ≠ 0 := by
      rintro rfl
      rw [h.indexed.zero] at hsame
      cases hsame
    have hin : id ∈ binSnapshot s iso next :=
      mem_filter.mpr ⟨hmem, decide_eq_true hne⟩
    exact absurd hqual (hids id hin g hg)

/-- What one run of the loop leaves: the end, or a higher cursor. -/
def Advanced (iso rate budget inspected c : Nat) (s₀ s : Store) : Prop :=
  s.qualifyScanCursor iso = 0 ∧ Drained iso rate s₀ s ∨
    ∃ c', s.qualifyScanCursor iso = c' ∧ c ≤ c' ∧ c' ≤ maxBinId ∧ Scanned iso rate c' s₀ s ∧
      (inspected < budget → c < c')

theorem setScanCursor_cursor (s : Store) (iso c : Nat) :
    (s.setScanCursor iso c).qualifyScanCursor iso = c := update_self ..

/-- The bins from the cursor on, as the trie finds them. -/
theorem Store.Indexed.find_cases (h : s.Indexed) (iso c : Nat) :
    (findFirstLeftInclusive (s.unqualified iso).tree c = none ∧
      ∀ binId, ((s.unqualified iso).bin binId).count ≠ 0 → binId < c) ∨
    ∃ next, findFirstLeftInclusive (s.unqualified iso).tree c = some next ∧ c ≤ next ∧
      ∀ binId, ((s.unqualified iso).bin binId).count ≠ 0 → c ≤ binId → next ≤ binId := by
  obtain ⟨bins, hrep, hbins⟩ := (h.wf iso).trie
  obtain ⟨hsome, hnone⟩ := BinTree.findFirst_isLeast hrep c
  cases hfind : findFirstLeftInclusive (s.unqualified iso).tree c with
  | none => exact .inl ⟨rfl, fun binId hcount => hnone hfind binId ((hbins binId).mpr hcount)⟩
  | some next =>
    obtain ⟨hmem, hleast⟩ := hsome next hfind
    exact .inr ⟨next, rfl, hmem.2, fun binId hcount hc => hleast ⟨(hbins binId).mpr hcount, hc⟩⟩

theorem qualifyLoop_advanced (hrate : priceToBin rate = .ok rBin) (fuel : Nat) :
    ∀ {s : Store} (inspected : Nat) {c : Nat}, Scanned iso rate c s₀ s → c ≤ maxBinId →
      maxBinId < fuel + c →
      Advanced iso rate budget inspected c s₀
        (qualifyLoop now iso rate rBin budget fuel s inspected c).1 := by
  induction fuel with
  | zero =>
    intro s inspected c _ hc hfuel
    omega
  | succ fuel ih =>
    intro s inspected c h hc hfuel
    rw [qualifyLoop]
    by_cases hbudget : inspected ≥ budget
    · -- the budget is spent: the cursor stays here
      rw [if_pos hbudget]
      exact .inr ⟨c, setScanCursor_cursor s iso c, le_refl c, hc, h.setScanCursor c,
        fun hlt => absurd hbudget (not_le.mpr hlt)⟩
    · rw [if_neg hbudget]
      rcases h.indexed.find_cases iso c with ⟨hfind, hend⟩ | ⟨next, hfind, hle, hnext⟩
      · rw [hfind]
        exact .inl ⟨setScanCursor_cursor s iso 0, h.drained hrate fun binId hcount hcb =>
          absurd (hend binId hcount) (not_lt.mpr hcb)⟩
      · simp only [hfind]
        by_cases hrange : next > rBin
        · rw [if_pos hrange]
          exact .inl ⟨setScanCursor_cursor s iso 0, h.drained hrate fun binId hcount hcb =>
            lt_of_lt_of_le hrange (hnext binId hcount hcb)⟩
        · rw [if_neg hrange]
          have hscanned := h.scan_bin now inspected hnext
          split
          · rename_i hmax
            rcases ih _ hscanned hmax (by omega) with hdone | ⟨c', hc', hle', hmax', hs', -⟩
            · exact .inl hdone
            · exact .inr ⟨c', hc', by omega, hmax', hs', fun _ => by omega⟩
          · -- the last bin of the trie was scanned
            rename_i hmax
            refine .inl ⟨setScanCursor_cursor _ iso 0, hscanned.drained hrate fun binId _ hcb => ?_⟩
            have hrBin := priceToBin_le hrate
            omega

/-- One call of the scan. -/
theorem qualifyWithRate_advanced (now budget : Nat) (hrate : priceToBin rate = .ok rBin)
    (h : Scanned iso rate (s.qualifyScanCursor iso) s₀ s)
    (hmax : s.qualifyScanCursor iso ≤ maxBinId) :
    Advanced iso rate budget 0 (s.qualifyScanCursor iso) s₀
      (qualifyWithRate now iso rate budget s).1 := by
  rw [qualifyWithRate, hrate]
  have hfuel : maxBinId < scanFuel := by decide
  exact qualifyLoop_advanced hrate scanFuel 0 h hmax (by omega)

end

/-! ### Repeated calls -/

/-- The store after `n` calls, each with its own time and budget. -/
def scanCalls (now budget : Nat → Nat) (iso rate : Nat) (s : Store) : Nat → Store
  | 0 => s
  | n + 1 => (qualifyWithRate (now n) iso rate (budget n) (scanCalls now budget iso rate s n)).1

section
variable {s : Store} {iso rate rBin : Nat} {now budget : Nat → Nat}

/-- Until the cursor returns to zero it rises with every call. -/
theorem scanned_scanCalls (now : Nat → Nat) (n : Nat) (h : s.Indexed)
    (hrate : priceToBin rate = .ok rBin) (hbudget : ∀ n, 0 < budget n)
    (hcursor : s.qualifyScanCursor iso = 0)
    (hopen : ∀ m, 0 < m → m ≤ n → (scanCalls now budget iso rate s m).qualifyScanCursor iso ≠ 0) :
    Scanned iso rate ((scanCalls now budget iso rate s n).qualifyScanCursor iso) s
        (scanCalls now budget iso rate s n) ∧
      n ≤ (scanCalls now budget iso rate s n).qualifyScanCursor iso ∧
      (scanCalls now budget iso rate s n).qualifyScanCursor iso ≤ maxBinId := by
  induction n with
  | zero =>
    refine ⟨⟨h, fun _ => .inl rfl, fun _ _ _ _ _ _ => ?_⟩, Nat.zero_le _, ?_⟩
    · show s.qualifyScanCursor iso ≤ _
      omega
    · show s.qualifyScanCursor iso ≤ _
      omega
  | succ n ih =>
    obtain ⟨hscanned, hle, hmax⟩ := ih fun m hm hmn => hopen m hm (by omega)
    rcases qualifyWithRate_advanced (now n) (budget n) hrate hscanned hmax with
      ⟨hzero, -⟩ | ⟨c', hc', -, hmax', hs', hlt⟩
    · exact absurd hzero (hopen (n + 1) (Nat.succ_pos n) le_rfl)
    · have hrise := hlt (hbudget n)
      rw [scanCalls, hc']
      exact ⟨hs', by omega, hmax'⟩

/-- Called with any positive budgets until its cursor returns to zero, which it does, the scan
promotes exactly the `Issued` gems of the currency with a floor price below the rate and a call
price that has a bin, and changes no other gem. -/
theorem qualifyScan_exact (now : Nat → Nat) (h : s.Indexed) (hrate : priceToBin rate = .ok rBin)
    (hbudget : ∀ n, 0 < budget n) (hcursor : s.qualifyScanCursor iso = 0) :
    ∃ n, 0 < n ∧ (scanCalls now budget iso rate s n).qualifyScanCursor iso = 0 ∧
      (∀ m, 0 < m → m < n → (scanCalls now budget iso rate s m).qualifyScanCursor iso ≠ 0) ∧
      (scanCalls now budget iso rate s n).Indexed ∧
      ∀ id,
        (∀ g, s.gemItems id = some g → g.Qualifies iso rate →
          ∃ t, (scanCalls now budget iso rate s n).gemItems id = some (g.promoted t)) ∧
        ((∀ g, s.gemItems id = some g → ¬g.Qualifies iso rate) →
          (scanCalls now budget iso rate s n).gemItems id = s.gemItems id) := by
  classical
  have hreturns : ∃ n, 0 < n ∧ (scanCalls now budget iso rate s n).qualifyScanCursor iso = 0 := by
    by_contra hnever
    have hrise := scanned_scanCalls now (maxBinId + 1) h hrate hbudget hcursor
      fun m hm _ hzero => hnever ⟨m, hm, hzero⟩
    omega
  obtain ⟨hpos, hzero⟩ := Nat.find_spec hreturns
  have hfirst : ∀ m, 0 < m → m < Nat.find hreturns →
      (scanCalls now budget iso rate s m).qualifyScanCursor iso ≠ 0 :=
    fun m hm hlt hz => Nat.find_min hreturns hlt ⟨hm, hz⟩
  generalize Nat.find hreturns = n at hpos hzero hfirst
  obtain ⟨k, rfl⟩ : ∃ k, n = k + 1 := ⟨n - 1, by omega⟩
  obtain ⟨hscanned, -, hmax⟩ := scanned_scanCalls now k h hrate hbudget hcursor
    fun m hm hle => hfirst m hm (by omega)
  have hdrained : Drained iso rate s (scanCalls now budget iso rate s (k + 1)) := by
    rcases qualifyWithRate_advanced (now k) (budget k) hrate hscanned hmax with
      ⟨-, hdone⟩ | ⟨c', hc', -, -, -, hlt⟩
    · exact hdone
    · have hrise := hlt (hbudget k)
      rw [scanCalls, hc'] at hzero
      omega
  refine ⟨k + 1, hpos, hzero, hfirst, hdrained.indexed,
    fun id => ⟨fun g hg hqual => ?_, fun hnot => ?_⟩⟩
  · rcases hdrained.promotes id with hsame | ⟨g', t, hg', -, hpromoted⟩
    · exact absurd hqual (hdrained.settled id g (hsame.trans hg))
    · obtain rfl : g = g' := Option.some.inj (hg.symm.trans hg')
      exact ⟨t, hpromoted⟩
  · exact (hdrained.promotes id).of_settled hnot

end

variable (callPriceMinor : Nat)

/-- A gem in the bin of the lowest price. -/
def lowestGem : GemData where
  owner := 1
  gemType := 1
  promisLoadMinor := 1
  entryPriceMinor := 1
  floorPriceMinor := 1
  issuanceCurrency := 840
  referenceCurrency := 840
  state := .issued
  issuedAt := 0
  callPriceMinor := callPriceMinor
  calledAt := 0
  callNoticePeriod := 0
  callRate := 128
  callWindow := 0
  callThreshold := 0
  qualifiedAt := 0
  settledAt := 0

/-- A store with this one gem. -/
def lowestGemStore : Store :=
  { Store.empty with
    gemItems := update (fun _ => none) 1 (some (lowestGem callPriceMinor))
    unqualified := update (fun _ => .empty) 840 (BinIndex.empty.insert 8383075 1) }

theorem priceToBin_one : priceToBin 1 = .ok 8383075 := by decide +kernel

theorem wf_empty : BinIndex.empty.WF :=
  ⟨⟨∅, BinTree.represents_empty, fun _ => by simp [BinIndex.empty]⟩, fun _ => nodup_nil⟩

theorem wf_singleton : (BinIndex.empty.insert 8383075 1).WF := by
  refine ⟨⟨insert 8383075 ∅, (BinTree.represents_add BinTree.represents_empty (by decide)).1,
    fun binId => ?_⟩, fun binId => ?_⟩ <;>
  by_cases hbin : binId = 8383075
  · subst hbin
    simp [BinIndex.insert, BinIndex.empty, Bin.push, wrappingAdd]
  · simp [BinIndex.insert, BinIndex.empty, hbin]
  · subst hbin
    simp [BinIndex.insert, BinIndex.empty, Bin.push, Bin.gems, wrappingAdd]
  · simp [BinIndex.insert, BinIndex.empty, Bin.gems, hbin]

theorem indexed_lowestGemStore : (lowestGemStore callPriceMinor).Indexed := by
  have hitem : ∀ id g, (lowestGemStore callPriceMinor).gemItems id = some g ↔
      id = 1 ∧ lowestGem callPriceMinor = g := by
    intro id g
    by_cases hid : id = 1 <;> simp [lowestGemStore, hid]
  have hgems : ∀ binId id, id ∈ ((BinIndex.empty.insert 8383075 1).bin binId).gems ↔
      binId = 8383075 ∧ id = 1 := by
    intro binId id
    by_cases hbin : binId = 8383075
    · subst hbin
      simp [BinIndex.insert, BinIndex.empty, Bin.push, Bin.gems, wrappingAdd]
    · simp [BinIndex.insert, BinIndex.empty, Bin.gems, hbin]
  refine ⟨fun iso => ?_, fun iso binId id => ?_, fun id g hg _ => ?_, rfl⟩
  · by_cases hiso : iso = 840
    · subst hiso
      simpa [lowestGemStore] using wf_singleton
    · simpa [lowestGemStore, hiso] using wf_empty
  · simp only [Store.Belongs, hitem]
    by_cases hiso : iso = 840
    · subst hiso
      simp only [lowestGemStore, update_self, hgems]
      constructor
      · rintro ⟨rfl, rfl⟩
        exact ⟨_, ⟨rfl, rfl⟩, rfl, rfl, priceToBin_one⟩
      · rintro ⟨_, ⟨rfl, rfl⟩, -, -, hbin⟩
        exact ⟨Except.ok.inj (hbin.symm.trans priceToBin_one), rfl⟩
    · refine iff_of_false ?_ ?_
      · simp [lowestGemStore, hiso, BinIndex.empty, Bin.gems]
      · rintro ⟨_, ⟨rfl, rfl⟩, -, hcurrency, -⟩
        exact hiso hcurrency.symm
  · obtain ⟨rfl, rfl⟩ := (hitem id g).mp hg
    exact ⟨_, priceToBin_one⟩

/-- The gem at the lowest floor price qualifies at the next price. -/
theorem qualifyScan_exact_lowestGem :
    ∃ n t, (scanCalls (fun _ => 0) (fun _ => 1) 840 2 (lowestGemStore 2) n).gemItems 1 =
      some ((lowestGem 2).promoted t) := by
  have hrate : priceToBin 2 = .ok 8383353 := by decide +kernel
  have hbudget : ∀ n, 0 < (fun _ : Nat => 1) n := fun _ => Nat.one_pos
  have hcursor : (lowestGemStore 2).qualifyScanCursor 840 = 0 := rfl
  obtain ⟨n, -, -, -, -, hgems⟩ :=
    qualifyScan_exact (fun _ => 0) (indexed_lowestGemStore 2) hrate hbudget hcursor
  obtain ⟨t, ht⟩ := (hgems 1).1 (lowestGem 2) rfl ⟨rfl, rfl, by decide, 8383353, hrate⟩
  exact ⟨n, t, ht⟩

/-- A gem whose call price has no bin is passed over although the rate is above its floor price. -/
theorem callPrice_withoutBin :
    (lowestGemStore (2 ^ 255)).Indexed ∧ priceToBin 2 = .ok 8383353 ∧
      (lowestGemStore (2 ^ 255)).gemItems 1 = some (lowestGem (2 ^ 255)) ∧
      (lowestGem (2 ^ 255)).floorPriceMinor < 2 ∧
      (qualifyWithRate 0 840 2 256 (lowestGemStore (2 ^ 255))).1.qualifyScanCursor 840 = 0 ∧
      (qualifyWithRate 0 840 2 256 (lowestGemStore (2 ^ 255))).1.gemItems 1 =
        some (lowestGem (2 ^ 255)) :=
  ⟨indexed_lowestGemStore _, by decide +kernel, rfl, by decide, by decide +kernel,
    by decide +kernel⟩

end Rudis.Gem
