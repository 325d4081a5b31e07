import Rudis.Spec.BinTree

/-!
# `Rudis.Proofs.BinTree`: the bin trie is a finite set of ids

A bin `id` below `2 ^ 24` has its bit in leaf word `id / 256`, which has its bit in mid word
`id / 65536`, which has its bit in the root. `Tree.Cascade` says that an upper bit is set exactly when
the word below it is not zero, and `Tree.Represents t s` that the set leaf bits are the ids in `s`.

* `represents_add`, `represents_remove`: an update of the trie writes the path of an id
  (`Tree.Writes`), which is the update of the set.
* `findFirst_isLeast`: under `Represents`, the search finds the least member from the start on.
* `trie_refines_set`: both along every run of updates.
-/

namespace Rudis.BinTree

open BitVec (lt_of_getLsbD)
open Nat (shiftLeft_eq)
open Runs
open Words

/-! ### Addresses -/

section Addresses

variable {id t m l : Nat}

theorem top_eq (id : Nat) : top id = id / 65536 % 256 := by
  rw [top, Nat.shiftRight_eq_div_pow]
  exact Nat.and_two_pow_sub_one_eq_mod _ 8

theorem mid_eq (id : Nat) : mid id = id / 256 % 256 := by
  rw [mid, Nat.shiftRight_eq_div_pow]
  exact Nat.and_two_pow_sub_one_eq_mod _ 8

theorem lo_eq (id : Nat) : lo id = id % 256 := Nat.and_two_pow_sub_one_eq_mod id 8

theorem leafKey_eq (hm : m < 256) : leafKey t m = 256 * t + m := by
  rw [leafKey, ← Nat.shiftLeft_add_eq_or_of_lt (show m < 2 ^ 8 from hm), shiftLeft_eq, mul_comm]

theorem assemble_eq (hm : m < 256) (hl : l < 256) : assemble t m l = 65536 * t + 256 * m + l := by
  have hmid : m <<< 8 < 2 ^ 16 := by
    rw [shiftLeft_eq]
    omega
  have hsum : t <<< 16 ||| m <<< 8 = (256 * t + m) <<< 8 := by
    rw [← Nat.shiftLeft_add_eq_or_of_lt hmid, shiftLeft_eq, shiftLeft_eq, shiftLeft_eq]
    omega
  rw [assemble, hsum, ← Nat.shiftLeft_add_eq_or_of_lt (show l < 2 ^ 8 from hl), shiftLeft_eq]
  omega

theorem key_eq (hid : id ≤ maxBinId) : leafKey (top id) (mid id) = id / 256 := by
  have hmax : id ≤ 0xFFFFFF := hid
  rw [top_eq, mid_eq, leafKey_eq (mod_lt _ (by decide))]
  omega

end Addresses

/-! ### Least set bits -/

theorem getLsbD_limb (word : BitVec 256) (i j : Nat) :
    (limb word i).getLsbD j = (decide (j < 64) && word.getLsbD (64 * i + j)) :=
  BitVec.getLsbD_extractLsb' ..

variable {word : BitVec 256}

/-- The scan over the limbs finds the least set bit. -/
theorem isLeast_leastSignificantBit (h : word ≠ 0#256) :
    IsLeast {i | word.getLsbD i = true} (leastSignificantBit word) := by
  obtain ⟨i, hi⟩ := ne_zero_iff.mp h
  have hlt : i < 256 := lt_of_getLsbD hi
  cases hfind : (List.range 4).find? fun i => limb word i ≠ 0#64 with
  | none =>
    -- the bit lies in one of the four limbs
    rw [List.find?_eq_none] at hfind
    have hzero := hfind (i / 64) (List.mem_range.mpr (by omega))
    simp only [ne_eq, decide_not, Bool.not_eq_true', decide_eq_false_iff_not, not_not] at hzero
    have hbit := getLsbD_limb word (i / 64) (i % 64)
    rw [hzero, show 64 * (i / 64) + i % 64 = i by omega, hi] at hbit
    simp at hbit
    omega
  | some k =>
    obtain ⟨hk, hlimb, hmin⟩ := find?_range_eq_some.mp hfind
    simp only [ne_eq, decide_not, Bool.not_eq_true', decide_eq_false_iff_not] at hlimb
    obtain ⟨j, hj⟩ := ne_zero_iff.mp hlimb
    obtain ⟨⟨hfirst, hset⟩, hleast⟩ :=
      isLeast_firstSet ⟨j, lt_of_getLsbD hj, hj⟩
    rw [getLsbD_limb] at hset
    simp only [hfirst, decide_true, Bool.true_and] at hset
    have hlsb : leastSignificantBit word = firstSet 64 (limb word k).getLsbD + k * 64 := by
      simp only [leastSignificantBit, hfind, trailingZeros]
    rw [hlsb]
    constructor
    · show word.getLsbD _ = true
      rw [← hset]
      congr 1
      omega
    · -- an earlier bit would be in an earlier limb, which is zero, or earlier in this one
      intro b hb
      have hb' : word.getLsbD b = true := hb
      have hbit := getLsbD_limb word (b / 64) (b % 64)
      rw [show 64 * (b / 64) + b % 64 = b by omega, hb'] at hbit
      simp only [mod_lt b (show 64 > 0 by decide), decide_true, Bool.true_and] at hbit
      have hge : k ≤ b / 64 := by
        by_contra hlt'
        have hzero := hmin (b / 64) (by omega)
        simp only [ne_eq, decide_not, Bool.not_eq_false', decide_eq_true_eq] at hzero
        rw [hzero] at hbit
        simp at hbit
      rcases Nat.lt_or_eq_of_le hge with hlater | heq
      · omega
      · rw [← heq] at hbit
        have hle := hleast ⟨mod_lt b (by decide), hbit⟩
        omega

theorem getLsbD_maskFrom (word : BitVec 256) (n j : Nat) :
    (maskFrom word n).getLsbD j = (word.getLsbD j && decide (n ≤ j)) := by
  rw [maskFrom]
  split
  · rename_i hzero
    simp [hzero]
  · exact getLsbD_and_allOnes_shiftLeft

variable {i n : Nat}

/-- The least set bit from a position on. -/
theorem isLeast_maskFrom (h : maskFrom word n ≠ 0#256) :
    IsLeast {i | word.getLsbD i = true ∧ n ≤ i} (leastSignificantBit (maskFrom word n)) := by
  have hleast := isLeast_leastSignificantBit h
  simpa only [getLsbD_maskFrom, Bool.and_eq_true, decide_eq_true_eq] using hleast

/-- Nothing is set from a position on. -/
theorem maskFrom_eq_zero (h : maskFrom word n = 0#256) (hi : word.getLsbD i = true) : i < n := by
  by_contra hge
  refine ne_zero_iff.mpr ⟨i, ?_⟩ h
  rw [getLsbD_maskFrom, hi]
  simpa using hge

/-! ### The invariant -/

/-- An upper bit is set when the word below it is not zero. -/
structure Tree.Cascade (t : Tree) : Prop where
  mid : ∀ k < 65536, (t.midAt (k / 256)).getLsbD (k % 256) = true ↔ t.leafAt k ≠ 0#256
  root : ∀ j < 256, t.root.getLsbD j = true ↔ t.midAt j ≠ 0#256

/-- The set leaf bits are the ids of a set. -/
structure Tree.Represents (t : Tree) (s : Finset Nat) : Prop where
  cascade : t.Cascade
  bounded : ∀ id ∈ s, id ≤ maxBinId
  mem : ∀ id ≤ maxBinId, (t.leafAt (id / 256)).getLsbD (id % 256) = true ↔ id ∈ s

theorem represents_empty : Tree.empty.Represents ∅ where
  cascade := ⟨fun _ _ => by simp [Tree.empty], fun _ _ => by simp [Tree.empty]⟩
  bounded := fun _ hid => absurd hid (Finset.notMem_empty _)
  mem := fun _ _ => by simp [Tree.empty]

section Updates

variable {t : Tree} {s : Finset Nat} {id : Nat}

theorem contains_iff (h : t.Represents s) (hid : id ≤ maxBinId) :
    contains t id = true ↔ id ∈ s := by
  rw [contains, key_eq hid, lo_eq, decide_eq_true_eq,
    and_bit_ne_zero_iff (mod_lt id (by decide)), h.mem id hid]

/-- A trie with the path of an id written: the leaf bit, and above it the bits that say whether
the word below is not zero. -/
structure Tree.Writes (t t' : Tree) (id : Nat) (b : Bool) : Prop where
  leaf : ∀ k i, (t'.leafAt k).getLsbD i =
    if k = id / 256 ∧ i = id % 256 then b else (t.leafAt k).getLsbD i
  mid : ∀ j i, (t'.midAt j).getLsbD i =
    if j = id / 65536 ∧ i = id / 256 % 256 then decide (t'.leafAt (id / 256) ≠ 0#256)
    else (t.midAt j).getLsbD i
  root : ∀ j, t'.root.getLsbD j =
    if j = id / 65536 then decide (t'.midAt (id / 65536) ≠ 0#256) else t.root.getLsbD j

variable {t' : Tree} {b : Bool}

/-- Writing the path of an id adds it to the set or removes it. -/
theorem Tree.Represents.write (h : t.Represents s) (hid : id ≤ maxBinId) (hw : t.Writes t' id b) :
    t'.Represents (if b then insert id s else s.erase id) := by
  refine ⟨⟨fun k hk => ?_, fun j hj => ?_⟩, fun id' hid' => ?_, fun id' hid' => ?_⟩
  · by_cases hkey : k = id / 256
    · rw [hw.mid, if_pos (by omega), decide_eq_true_eq, hkey]
    · have hleaf : t'.leafAt k = t.leafAt k := BitVec.eq_of_getLsbD_eq fun i _ => by
        rw [hw.leaf, if_neg fun heq => hkey heq.1]
      rw [hw.mid, if_neg (by omega), hleaf]
      exact h.cascade.mid k hk
  · by_cases hkey : j = id / 65536
    · rw [hw.root, if_pos hkey, decide_eq_true_eq, hkey]
    · have hmid : t'.midAt j = t.midAt j := BitVec.eq_of_getLsbD_eq fun i _ => by
        rw [hw.mid, if_neg fun heq => hkey heq.1]
      rw [hw.root, if_neg hkey, hmid]
      exact h.cascade.root j hj
  · cases b with
    | false => exact h.bounded id' (Finset.mem_of_mem_erase hid')
    | true =>
      rcases Finset.mem_insert.mp hid' with rfl | hin
      · exact hid
      · exact h.bounded id' hin
  · rw [hw.leaf]
    by_cases heq : id' = id
    · rw [if_pos (by omega), heq]
      cases b <;> simp
    · rw [if_neg (by omega), h.mem id' hid']
      cases b <;> simp [heq]

variable {leaf root x : BitVec 256}

/-- A word above the leaf is only written when the word below it appears or vanishes. -/
theorem Tree.Cascade.writes (h : t.Cascade) (hid : id ≤ maxBinId)
    {midAt : Nat → BitVec 256} (hleaf : ∀ i, leaf.getLsbD i =
      if i = id % 256 then b else (t.leafAt (id / 256)).getLsbD i)
    (hmid : midAt = t.midAt ∧ (leaf ≠ 0#256 ↔ t.leafAt (id / 256) ≠ 0#256) ∨
      ∃ word, midAt = update t.midAt (id / 65536) word ∧ ∀ i, word.getLsbD i =
        if i = id / 256 % 256 then decide (leaf ≠ 0#256) else (t.midAt (id / 65536)).getLsbD i)
    (hroot : root = t.root ∧ (midAt (id / 65536) ≠ 0#256 ↔ t.midAt (id / 65536) ≠ 0#256) ∨
      ∀ j, root.getLsbD j =
        if j = id / 65536 then decide (midAt (id / 65536) ≠ 0#256) else t.root.getLsbD j) :
    t.Writes ⟨root, midAt, update t.leafAt (id / 256) leaf⟩ id b := by
  have hmax : id ≤ 0xFFFFFF := hid
  refine ⟨fun k i => ?_, fun j i => ?_, ?_⟩
  · by_cases hk : k = id / 256
    · simp [hk, hleaf]
    · simp [hk]
  · simp only [update_self]
    rcases hmid with ⟨rfl, hiff⟩ | ⟨word, rfl, hword⟩
    · split
      · rename_i heq
        have hup : id / 256 / 256 = id / 65536 := by omega
        rw [heq.1, heq.2, Bool.eq_iff_iff, decide_eq_true_eq, hiff, ← h.mid _ (by omega), hup]
      · rfl
    · by_cases hj : j = id / 65536
      · simp [hj, hword]
      · simp [hj]
  · rcases hroot with ⟨rfl, hiff⟩ | hroot
    · intro j
      split
      · rename_i heq
        rw [heq, Bool.eq_iff_iff, decide_eq_true_eq, hiff, h.root _ (by omega)]
      · rfl
    · exact hroot

/-- Nothing has to be written when the leaf bit has its value. -/
theorem Tree.Cascade.writes_self (h : t.Cascade) (hid : id ≤ maxBinId)
    (hbit : (t.leafAt (id / 256)).getLsbD (id % 256) = b) : t.Writes t id b := by
  have hw : t.Writes ⟨t.root, t.midAt, update t.leafAt (id / 256) (t.leafAt (id / 256))⟩ id b :=
    h.writes hid (fun i => by split <;> simp_all) (.inl ⟨rfl, Iff.rfl⟩) (.inl ⟨rfl, Iff.rfl⟩)
  rwa [update_eq_self] at hw

theorem getLsbD_set_eq (hn : n < 256) (hb : b = true) (i : Nat) :
    (x ||| bit 256 n).getLsbD i = if i = n then b else x.getLsbD i := by
  rw [getLsbD_set hn, hb]
  by_cases hi : i = n <;> simp [hi]

theorem getLsbD_clear_eq (hn : n < 256) (hb : b = false) (i : Nat) :
    (x &&& ~~~(bit 256 n)).getLsbD i = if i = n then b else x.getLsbD i := by
  rw [getLsbD_clear hn, hb]
  by_cases hi : i = n <;> simp [hi]

theorem path_eq (hid : id ≤ maxBinId) :
    top id = id / 65536 ∧ leafKey (id / 65536) (id / 256 % 256) = id / 256 := by
  have hmax : id ≤ 0xFFFFFF := hid
  have htop : top id = id / 65536 := by
    rw [top_eq]
    omega
  exact ⟨htop, by rw [← htop, ← mid_eq, key_eq hid]⟩

/-- Setting the bit of an id. -/
theorem writes_add (h : t.Cascade) (hid : id ≤ maxBinId) :
    t.Writes (add t id).1 id true ∧
      ((add t id).2 = true ↔ ¬ (t.leafAt (id / 256)).getLsbD (id % 256) = true) := by
  obtain ⟨htop, hkey⟩ := path_eq hid
  have hmax : id ≤ 0xFFFFFF := hid
  have hlo : id % 256 < 256 := mod_lt id (by decide)
  have hbyte : id / 256 % 256 < 256 := mod_lt _ (by decide)
  have hset := eq_set_iff (x := t.leafAt (id / 256)) hlo
  have hleaf : t.leafAt (id / 256) ||| bit 256 (id % 256) ≠ 0#256 := set_ne_zero hlo
  have hword : t.midAt (id / 65536) ||| bit 256 (id / 256 % 256) ≠ 0#256 := set_ne_zero hbyte
  simp only [add, lo_eq, htop, mid_eq, hkey]
  by_cases hbit : (t.leafAt (id / 256)).getLsbD (id % 256) = true
  · rw [if_pos (hset.mpr hbit)]
    exact ⟨h.writes_self hid hbit, iff_of_false Bool.false_ne_true (not_not.mpr hbit)⟩
  · rw [if_neg (fun heq => hbit (hset.mp heq))]
    by_cases hleaves : t.leafAt (id / 256) = 0#256
    · rw [if_pos hleaves]
      by_cases hmid : t.midAt (id / 65536) = 0#256
      · rw [if_pos hmid]
        refine ⟨h.writes hid (getLsbD_set_eq hlo rfl)
          (.inr ⟨_, rfl, getLsbD_set_eq hbyte (decide_eq_true hleaf)⟩)
          (.inr (getLsbD_set_eq (by omega) (decide_eq_true ?_))), iff_of_true rfl hbit⟩
        rwa [update_self]
      · rw [if_neg hmid]
        refine ⟨h.writes hid (getLsbD_set_eq hlo rfl)
          (.inr ⟨_, rfl, getLsbD_set_eq hbyte (decide_eq_true hleaf)⟩)
          (.inl ⟨rfl, iff_of_true ?_ hmid⟩), iff_of_true rfl hbit⟩
        rwa [update_self]
    · rw [if_neg hleaves]
      exact ⟨h.writes hid (getLsbD_set_eq hlo rfl) (.inl ⟨rfl, iff_of_true hleaf hleaves⟩)
        (.inl ⟨rfl, Iff.rfl⟩), iff_of_true rfl hbit⟩

/-- Clearing the bit of an id. -/
theorem writes_remove (h : t.Cascade) (hid : id ≤ maxBinId) :
    t.Writes (remove t id).1 id false ∧
      ((remove t id).2 = true ↔ ¬ (t.leafAt (id / 256)).getLsbD (id % 256) = false) := by
  obtain ⟨htop, hkey⟩ := path_eq hid
  have hmax : id ≤ 0xFFFFFF := hid
  have hlo : id % 256 < 256 := mod_lt id (by decide)
  have hbyte : id / 256 % 256 < 256 := mod_lt _ (by decide)
  have hclear := eq_clear_iff (x := t.leafAt (id / 256)) hlo
  -- a word that stays non-zero was not zero
  have hkept : ∀ {x y : BitVec 256}, x &&& y ≠ 0#256 → (x &&& y ≠ 0#256 ↔ x ≠ 0#256) :=
    fun hne => iff_of_true hne fun h0 => hne (by rw [h0, BitVec.zero_and])
  simp only [remove, lo_eq, htop, mid_eq, hkey]
  by_cases hbit : (t.leafAt (id / 256)).getLsbD (id % 256) = false
  · rw [if_pos (hclear.mpr hbit)]
    exact ⟨h.writes_self hid hbit, iff_of_false Bool.false_ne_true (not_not.mpr hbit)⟩
  · rw [if_neg (fun heq => hbit (hclear.mp heq))]
    by_cases hleaves : t.leafAt (id / 256) &&& ~~~(bit 256 (id % 256)) = 0#256
    · rw [if_neg (not_not.mpr hleaves)]
      by_cases hmid : t.midAt (id / 65536) &&& ~~~(bit 256 (id / 256 % 256)) = 0#256
      · rw [if_neg (not_not.mpr hmid)]
        refine ⟨h.writes hid (getLsbD_clear_eq hlo rfl)
          (.inr ⟨_, rfl, getLsbD_clear_eq hbyte (decide_eq_false (not_not.mpr hleaves))⟩)
          (.inr (getLsbD_clear_eq (by omega) (decide_eq_false ?_))), iff_of_true rfl hbit⟩
        rwa [update_self, not_not]
      · rw [if_pos hmid]
        refine ⟨h.writes hid (getLsbD_clear_eq hlo rfl)
          (.inr ⟨_, rfl, getLsbD_clear_eq hbyte (decide_eq_false (not_not.mpr hleaves))⟩)
          (.inl ⟨rfl, ?_⟩), iff_of_true rfl hbit⟩
        rw [update_self]
        exact hkept hmid
    · rw [if_pos hleaves]
      exact ⟨h.writes hid (getLsbD_clear_eq hlo rfl) (.inl ⟨rfl, hkept hleaves⟩)
        (.inl ⟨rfl, Iff.rfl⟩), iff_of_true rfl hbit⟩

theorem represents_add (h : t.Represents s) (hid : id ≤ maxBinId) :
    (add t id).1.Represents (insert id s) ∧ ((add t id).2 = true ↔ id ∉ s) := by
  obtain ⟨hw, hnew⟩ := writes_add h.cascade hid
  exact ⟨h.write hid hw, by rw [hnew, h.mem id hid]⟩

theorem represents_remove (h : t.Represents s) (hid : id ≤ maxBinId) :
    (remove t id).1.Represents (s.erase id) ∧ ((remove t id).2 = true ↔ id ∈ s) := by
  obtain ⟨hw, hnew⟩ := writes_remove h.cascade hid
  exact ⟨h.write hid hw, by rw [hnew, Bool.not_eq_false, h.mem id hid]⟩

end Updates

/-! ### The search -/

section Search

variable {t : Tree} {s : Finset Nat} {id start : Nat}

/-- The bits above a member are set. -/
theorem Tree.Represents.path (h : t.Represents s) (hid : id ∈ s) :
    (t.leafAt (id / 256)).getLsbD (id % 256) = true ∧
      (t.midAt (id / 65536)).getLsbD (id / 256 % 256) = true ∧
      t.root.getLsbD (id / 65536) = true := by
  have hmax : id ≤ 0xFFFFFF := h.bounded id hid
  have hup : id / 256 / 256 = id / 65536 := by omega
  have hleaf := (h.mem id (h.bounded id hid)).mpr hid
  have hmid := (h.cascade.mid (id / 256) (by omega)).mpr (ne_zero_iff.mpr ⟨_, hleaf⟩)
  rw [hup] at hmid
  exact ⟨hleaf, hmid, (h.cascade.root _ (by omega)).mpr (ne_zero_iff.mpr ⟨_, hmid⟩)⟩

/-- Below a set mid bit the descent finds the least member of its leaf word. -/
theorem isLeast_descend (h : t.Represents s) {j m : Nat} (hj : j < 256)
    (hbit : (t.midAt j).getLsbD m = true) :
    IsLeast {id | id ∈ s ∧ id / 256 = 256 * j + m} (descend t j m) := by
  have hm : m < 256 := lt_of_getLsbD hbit
  have hdiv : (256 * j + m) / 256 = j := by omega
  have hmod : (256 * j + m) % 256 = m := by omega
  have hne : t.leafAt (256 * j + m) ≠ 0#256 := by
    rw [← h.cascade.mid (256 * j + m) (by omega), hdiv, hmod]
    exact hbit
  obtain ⟨hset, hleast⟩ := isLeast_leastSignificantBit hne
  have hlt : leastSignificantBit (t.leafAt (256 * j + m)) < 256 := lt_of_getLsbD hset
  rw [descend, leafKey_eq hm, assemble_eq hm hlt]
  constructor
  · have hkey : (65536 * j + 256 * m + leastSignificantBit (t.leafAt (256 * j + m))) / 256 =
        256 * j + m := by omega
    have hlow : (65536 * j + 256 * m + leastSignificantBit (t.leafAt (256 * j + m))) % 256 =
        leastSignificantBit (t.leafAt (256 * j + m)) := by omega
    refine ⟨?_, hkey⟩
    rw [← h.mem _ (show _ ≤ 0xFFFFFF by omega), hkey, hlow]
    exact hset
  · rintro id ⟨hid, hkey⟩
    have hleaf := (h.path hid).1
    rw [hkey] at hleaf
    have hle := hleast hleaf
    omega

/-- The descent finds the least member from the start on when every such member lies at or after
its leaf word, and the start before it. -/
theorem isLeast_of_descend (h : t.Represents s) {j m : Nat} (hj : j < 256)
    (hbit : (t.midAt j).getLsbD m = true) (hstart : start / 256 < 256 * j + m)
    (hleast : ∀ id ∈ s, start ≤ id → 256 * j + m ≤ id / 256) :
    IsLeast {id | id ∈ s ∧ start ≤ id} (descend t j m) := by
  obtain ⟨⟨hin, hkey⟩, hlow⟩ := isLeast_descend h hj hbit
  refine ⟨⟨hin, by omega⟩, ?_⟩
  rintro id ⟨hid, hsid⟩
  rcases Nat.eq_or_lt_of_le (hleast id hid hsid) with heq | hlt
  · exact hlow ⟨hid, heq.symm⟩
  · omega

/-- The search finds the least member from the start on, or there is none. -/
theorem findFirst_isLeast (h : t.Represents s) (start : Nat) :
    (∀ b, findFirstLeftInclusive t start = some b → IsLeast {id | id ∈ s ∧ start ≤ id} b) ∧
      (findFirstLeftInclusive t start = none → ∀ id ∈ s, id < start) := by
  rw [findFirstLeftInclusive]
  by_cases hbig : start > maxBinId
  · rw [if_pos hbig]
    refine ⟨nofun, fun _ id hid => ?_⟩
    exact lt_of_le_of_lt (h.bounded id hid) hbig
  rw [if_neg hbig]
  have hstart : start ≤ 0xFFFFFF := le_of_not_gt hbig
  obtain ⟨htop, hkey⟩ := path_eq hstart
  simp only [lo_eq, htop, mid_eq, hkey]
  by_cases hleaf : maskFrom (t.leafAt (start / 256)) (start % 256) ≠ 0#256
  · -- the start's own leaf word has a bit at or past the start
    rw [if_pos hleaf]
    refine ⟨fun b hb => ?_, nofun⟩
    obtain ⟨⟨hset, hge⟩, hleast⟩ := isLeast_maskFrom hleaf
    have hlt := lt_of_getLsbD hset
    rw [Option.some.injEq, assemble_eq (mod_lt _ (by decide)) hlt] at hb
    have hbk : b / 256 = start / 256 := by omega
    refine ⟨⟨?_, by omega⟩, ?_⟩
    · have hlow : b % 256 =
          leastSignificantBit (maskFrom (t.leafAt (start / 256)) (start % 256)) := by omega
      rw [← h.mem b (show b ≤ 0xFFFFFF by omega), hbk, hlow]
      exact hset
    · rintro id ⟨hid, hsid⟩
      by_cases hsame : id / 256 = start / 256
      · have hbit := (h.path hid).1
        rw [hsame] at hbit
        have hle := hleast ⟨hbit, by omega⟩
        omega
      · omega
  rw [if_neg hleaf]
  rw [not_not] at hleaf
  -- nothing at or past the start shares its leaf word
  have hpast : ∀ id ∈ s, start ≤ id → start / 256 < id / 256 := by
    intro id hid hsid
    by_contra hle
    have hsame : id / 256 = start / 256 := by omega
    have hbit := (h.path hid).1
    rw [hsame] at hbit
    have hlt := maskFrom_eq_zero hleaf hbit
    omega
  by_cases hmid : start / 256 % 256 ≠ 255 ∧
      maskFrom (t.midAt (start / 65536)) (min (start / 256 % 256 + 1) 255) ≠ 0#256
  · rw [if_pos hmid]
    refine ⟨fun b hb => ?_, nofun⟩
    obtain ⟨⟨hset, hge⟩, hleast⟩ := isLeast_maskFrom hmid.2
    have hm := lt_of_getLsbD hset
    rw [← Option.some.inj hb]
    refine isLeast_of_descend h (by omega) hset (by omega) fun id hid hsid => ?_
    have hlater := hpast id hid hsid
    by_cases hsame : id / 65536 = start / 65536
    · have hbit := (h.path hid).2.1
      rw [hsame] at hbit
      have hle := hleast ⟨hbit, by omega⟩
      omega
    · omega
  rw [if_neg hmid]
  -- nothing at or past the start shares its mid word
  have hfar : ∀ id ∈ s, start ≤ id → start / 65536 < id / 65536 := by
    intro id hid hsid
    by_contra hle
    have hlater := hpast id hid hsid
    have hsame : id / 65536 = start / 65536 := by omega
    have hbit := (h.path hid).2.1
    rw [hsame] at hbit
    have hzero : maskFrom (t.midAt (start / 65536)) (min (start / 256 % 256 + 1) 255) = 0#256 := by
      by_contra hne
      exact hmid ⟨by omega, hne⟩
    have hlt := maskFrom_eq_zero hzero hbit
    omega
  by_cases hlast : start / 65536 = 255
  · rw [if_pos hlast]
    refine ⟨nofun, fun _ id hid => ?_⟩
    by_contra hge
    have hlater := hfar id hid (by omega)
    have hmax : id ≤ 0xFFFFFF := h.bounded id hid
    omega
  rw [if_neg hlast]
  by_cases hroot : maskFrom t.root (min (start / 65536 + 1) 255) = 0#256
  · rw [if_pos hroot]
    refine ⟨nofun, fun _ id hid => ?_⟩
    by_contra hge
    have hlater := hfar id hid (by omega)
    have hlt := maskFrom_eq_zero hroot (h.path hid).2.2
    omega
  · rw [if_neg hroot]
    refine ⟨fun b hb => ?_, nofun⟩
    obtain ⟨⟨hset, hge⟩, hleast⟩ := isLeast_maskFrom hroot
    have hj := lt_of_getLsbD hset
    obtain ⟨hmset, hmleast⟩ := isLeast_leastSignificantBit ((h.cascade.root _ hj).mp hset)
    have hm := lt_of_getLsbD hmset
    rw [← Option.some.inj hb]
    refine isLeast_of_descend h hj hmset (by omega) fun id hid hsid => ?_
    have hlater := hfar id hid hsid
    have hle := hleast ⟨(h.path hid).2.2, by omega⟩
    rcases Nat.eq_or_lt_of_le hle with hsame | hlt
    · have hbit := (h.path hid).2.1
      rw [← hsame] at hbit
      have hmle := hmleast hbit
      omega
    · omega

end Search

/-! ### Runs -/

/-- What an update does to the set. -/
def Op.apply (op : Op) (s : Finset Nat) : Finset Nat :=
  match op with
  | .add id => insert id s
  | .remove id => s.erase id

theorem represents_step {t : Tree} {s : Finset Nat} {op : Op} (h : t.Represents s)
    (hid : op.id ≤ maxBinId) : (step op t).Represents (op.apply s) := by
  cases op with
  | add id => exact (represents_add h hid).1
  | remove id => exact (represents_remove h hid).1

theorem represents_run {ops : List Op} (hids : ∀ op ∈ ops, op.id ≤ maxBinId) {t : Tree}
    {s : Finset Nat} (h : t.Represents s) : (run step ops t).Represents (run Op.apply ops s) := by
  induction ops generalizing t s with
  | nil => exact h
  | cons op ops ih =>
    have hrest : ∀ o ∈ ops, o.id ≤ maxBinId := fun o ho => hids o (List.mem_cons_of_mem op ho)
    exact ih hrest (represents_step h (hids op List.mem_cons_self))

/-- After any run of updates the trie is the set the updates build: the cascade holds, `contains` is
membership, an update reports whether membership changed, and the search finds the least member from
its start on. -/
theorem trie_refines_set (ops : List Op) (hids : ∀ op ∈ ops, op.id ≤ maxBinId) :
    (run step ops Tree.empty).Cascade ∧
    (∀ id ≤ maxBinId, contains (run step ops Tree.empty) id = true ↔ id ∈ run Op.apply ops ∅) ∧
    (∀ id ≤ maxBinId, (add (run step ops Tree.empty) id).2 = true ↔ id ∉ run Op.apply ops ∅) ∧
    (∀ id ≤ maxBinId, (remove (run step ops Tree.empty) id).2 = true ↔ id ∈ run Op.apply ops ∅) ∧
    ∀ start,
      (∀ b, findFirstLeftInclusive (run step ops Tree.empty) start = some b →
        IsLeast {id | id ∈ run Op.apply ops ∅ ∧ start ≤ id} b) ∧
      (findFirstLeftInclusive (run step ops Tree.empty) start = none →
        ∀ id ∈ run Op.apply ops ∅, id < start) := by
  have h := represents_run hids represents_empty
  exact ⟨h.cascade, fun id hid => contains_iff h hid, fun id hid => (represents_add h hid).2,
    fun id hid => (represents_remove h hid).2, findFirst_isLeast h⟩

/-- A run with bytes of 255 on each level. -/
theorem trie_refines_set_edges :
    findFirstLeftInclusive (run step
        [.add 0x0000FF, .add 0x00FFFF, .add 0xFFFFFF, .remove 0x0000FF] Tree.empty) 0x000100 =
      some 0x00FFFF ∧ (run step [.add 0x0000FF, .add 0x00FFFF, .add 0xFFFFFF, .remove 0x0000FF]
      Tree.empty).Cascade :=
  ⟨by decide +kernel, (trie_refines_set _ (by decide)).1⟩

end Rudis.BinTree
