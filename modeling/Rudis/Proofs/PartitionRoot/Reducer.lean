import Rudis.Spec.PartitionRoot

/-!
# `Rudis.Proofs.PartitionRoot.Reducer`: the sorted reducer computes the sparse Merkle root

The nodes of the tree satisfy one recursion everywhere (`smtNode_succ`), empty subtrees included,
and depend only on the leaves below them (`smtNode_congr`). The reducer keeps an invariant
(`Lifted`): the current subtree is the node above the last key, and the pending subtrees are the
left siblings on the path of that key. One level of lifting keeps it, the next leaf restarts it at
height zero, and at height 256 the current subtree is the root (`reduce_eq`).
-/

namespace Rudis.PartitionRoot

open List

variable {V : Type} (ops : TreeOps V)

/-! ### Indices of subtrees -/

/-- The index of the parent. -/
theorem div_two_pow_succ (k h : Nat) : k / 2 ^ (h + 1) = k / 2 ^ h / 2 := by
  rw [pow_succ, Nat.div_div_eq_div_mul]

/-- An index is twice its parent's, plus one on the right. -/
theorem index_eq (k : TreeKey) (h : Nat) :
    k.val / 2 ^ h = 2 * (k.val / 2 ^ (h + 1)) + (if isRight k h then 1 else 0) := by
  have hbit : isRight k h = decide (k.val / 2 ^ h % 2 = 1) := Nat.testBit_eq_decide_div_mod_eq
  rw [div_two_pow_succ, hbit]
  split
  · next hodd =>
    have := of_decide_eq_true hodd
    omega
  · next heven =>
    have : ¬ k.val / 2 ^ h % 2 = 1 := fun hodd => heven (decide_eq_true hodd)
    omega

variable {f j : Nat}

/-- Equal indices have equal ancestors. -/
theorem index_eq_of_le {a b h : Nat} (heq : a / 2 ^ h = b / 2 ^ h) (hj : h ≤ j) :
    a / 2 ^ j = b / 2 ^ j := by
  obtain ⟨d, rfl⟩ := Nat.exists_eq_add_of_le hj
  rw [pow_add, ← Nat.div_div_eq_div_mul, ← Nat.div_div_eq_div_mul, heq]

/-- Keys with one ancestor at a height agree in the bits from there on. -/
theorem isRight_eq_of_index {a b : TreeKey} {h : Nat} (heq : a.val / 2 ^ h = b.val / 2 ^ h)
    (hj : h ≤ j) : isRight a j = isRight b j := by
  show a.val.testBit j = b.val.testBit j
  rw [Nat.testBit_eq_decide_div_mod_eq, Nat.testBit_eq_decide_div_mod_eq, index_eq_of_le heq hj]

/-- A key whose bits all agree with another's from a height on has the same index there. -/
theorem index_eq_of_isRight {a b : TreeKey} {h : Nat}
    (heq : ∀ j, h ≤ j → j < 256 → isRight a j = isRight b j) : a.val / 2 ^ h = b.val / 2 ^ h := by
  apply Nat.eq_of_testBit_eq
  intro i
  rw [Nat.testBit_div_two_pow, Nat.testBit_div_two_pow]
  by_cases hi : i + h < 256
  · exact heq (i + h) (Nat.le_add_left h i) hi
  · have hle : 2 ^ 256 ≤ 2 ^ (i + h) := Nat.pow_le_pow_right (by decide) (by omega)
    rw [Nat.testBit_lt_two_pow (lt_of_lt_of_le a.isLt hle),
      Nat.testBit_lt_two_pow (lt_of_lt_of_le b.isLt hle)]

/-- Where two keys fork: they have one ancestor above, the smaller goes left, the larger right. -/
structure ForksAt (a b : TreeKey) (f : Nat) : Prop where
  /-- A height of the tree. -/
  lt : f < 256
  above : a.val / 2 ^ (f + 1) = b.val / 2 ^ (f + 1)
  /-- The smaller key goes left. -/
  left : isRight a f = false
  /-- The larger key goes right. -/
  right : isRight b f = true

theorem forkHeight_forksAt {a b : TreeKey} (hlt : a < b) : ForksAt a b (forkHeight a b) := by
  unfold forkHeight
  cases hfind : (List.range 256).reverse.find? fun h => isRight a h != isRight b h with
  | none =>
    -- without a differing bit the keys are equal
    have hall : ∀ j, 0 ≤ j → j < 256 → isRight a j = isRight b j := by
      intro j _ hj
      have := find?_eq_none.1 hfind j (by simpa using hj)
      simpa using this
    have heq := index_eq_of_isRight hall
    simp only [pow_zero, Nat.div_one] at heq
    exact absurd hlt (by rw [Fin.ext heq]; exact lt_irrefl b)
  | some f =>
    obtain ⟨hdiff, before, after, hsplit, hbefore⟩ := find?_eq_some_iff_append.1 hfind
    have hf : f < 256 := by
      have : f ∈ (List.range 256).reverse := by rw [hsplit]; simp
      simpa using this
    have habove : a.val / 2 ^ (f + 1) = b.val / 2 ^ (f + 1) := by
      refine index_eq_of_isRight fun j hj hj256 => ?_
      -- a higher bit stands before `f` in the reversed range
      have hmem : j ∈ before := by
        have hsorted : (before ++ f :: after).Pairwise (· > ·) := by
          rw [← hsplit, pairwise_reverse]
          exact pairwise_lt_range
        have hj' : j ∈ before ++ f :: after := by rw [← hsplit]; simpa using hj256
        rcases mem_append.1 hj' with hb | ha
        · exact hb
        · rcases mem_cons.1 ha with rfl | ha
          · omega
          · have := (pairwise_cons.1 (pairwise_append.1 hsorted).2.1).1 j ha
            omega
      simpa using hbefore j hmem
    have hle : a.val / 2 ^ f ≤ b.val / 2 ^ f := Nat.div_le_div_right (le_of_lt hlt)
    rw [index_eq a f, index_eq b f, habove] at hle
    have hdiff' : isRight a f ≠ isRight b f := by simpa using hdiff
    show ForksAt a b f
    refine ⟨hf, habove, ?_, ?_⟩ <;> revert hdiff' hle <;>
      cases isRight a f <;> cases isRight b f <;> simp

/-! ### The nodes of the tree -/

section Nodes

variable {leaves : List (TreeKey × B256)}

theorem leafOf_eq_none {k : Nat} (h : ∀ e ∈ leaves, e.1.val ≠ k) : leafOf leaves k = none := by
  unfold leafOf
  rw [find?_eq_none.2, Option.map_none]
  intro e he
  simpa using h e he

variable (h q : Nat)

/-- A subtree without leaves is zero. -/
theorem smtNode_eq_zero (hno : ∀ e ∈ leaves, e.1.val / 2 ^ h ≠ q) :
    smtNode ops leaves h q = ops.zero := by
  cases h with
  | zero =>
    have hnone : leafOf leaves q = none := leafOf_eq_none fun e he => by simpa using hno e he
    simp only [smtNode, hnone]
  | succ h =>
    have hany : (leaves.any fun leaf => leaf.1.val / 2 ^ (h + 1) == q) = false := by
      rw [any_eq_false]
      intro e he
      simpa using hno e he
    simp only [smtNode, hany, Bool.false_eq_true, if_false]

/-- The recursion of the tree, for empty subtrees as well. -/
theorem smtNode_succ :
    smtNode ops leaves (h + 1) q
      = ops.merge h (q * 2 ^ (h + 1)) (smtNode ops leaves h (2 * q))
          (smtNode ops leaves h (2 * q + 1)) := by
  by_cases hany : (leaves.any fun leaf => leaf.1.val / 2 ^ (h + 1) == q) = true
  · simp only [smtNode, hany, if_true]
  · have hno : ∀ e ∈ leaves, e.1.val / 2 ^ (h + 1) ≠ q := by
      intro e he heq
      exact hany (any_eq_true.2 ⟨e, he, by simpa using heq⟩)
    have hleft : smtNode ops leaves h (2 * q) = ops.zero :=
      smtNode_eq_zero ops h _ fun e he heq => hno e he (by rw [div_two_pow_succ]; omega)
    have hright : smtNode ops leaves h (2 * q + 1) = ops.zero :=
      smtNode_eq_zero ops h _ fun e he heq => hno e he (by rw [div_two_pow_succ]; omega)
    rw [smtNode_eq_zero ops (h + 1) q hno, hleft, hright, ops.merge_zero]

variable {leaves' : List (TreeKey × B256)}

/-- A node depends only on the leaves below it. -/
theorem smtNode_congr (heq : ∀ k, k / 2 ^ h = q → leafOf leaves k = leafOf leaves' k) :
    smtNode ops leaves h q = smtNode ops leaves' h q := by
  induction h generalizing q with
  | zero =>
    have := heq q (by simp)
    simp only [smtNode, this]
  | succ h ih =>
    rw [smtNode_succ, smtNode_succ, ih (2 * q) fun k hk => heq k (by rw [div_two_pow_succ]; omega),
      ih (2 * q + 1) fun k hk => heq k (by rw [div_two_pow_succ]; omega)]

/-- A further leaf changes no node outside its path. -/
theorem smtNode_append {leaf : TreeKey × B256} (hq : leaf.1.val / 2 ^ h ≠ q) :
    smtNode ops (leaves ++ [leaf]) h q = smtNode ops leaves h q := by
  refine smtNode_congr ops h q fun k hk => ?_
  have hne : (leaf.1.val == k) = false := by
    rw [beq_eq_false_iff_ne]
    rintro rfl
    exact hq hk
  unfold leafOf
  rw [find?_append]
  simp only [find?_cons, hne, find?_nil, Option.or_none]

theorem smtNode_append_self {leaf : TreeKey × B256} (hnew : ∀ e ∈ leaves, e.1.val ≠ leaf.1.val) :
    smtNode ops (leaves ++ [leaf]) 0 leaf.1.val = ops.ofLeaf leaf.2 := by
  have hnone : (leaves.find? fun e => e.1.val == leaf.1.val) = none := by
    rw [find?_eq_none]
    intro e he
    simpa using hnew e he
  have hleaf : leafOf (leaves ++ [leaf]) leaf.1.val = some leaf.2 := by
    unfold leafOf
    rw [find?_append, hnone]
    simp
  simp only [smtNode, hleaf]

/-- With distinct keys the order of the leaves does not matter. -/
theorem smtNode_perm (hperm : leaves.Perm leaves')
    (hnodup : (leaves.map Prod.fst).Nodup) (h q : Nat) :
    smtNode ops leaves h q = smtNode ops leaves' h q := by
  refine smtNode_congr ops h q fun k _ => ?_
  have hnodup' : (leaves'.map Prod.fst).Nodup := (hperm.map Prod.fst).nodup_iff.1 hnodup
  -- in a list with distinct keys the leaf found is the one with that key
  have hfound : ∀ {l l' : List (TreeKey × B256)} {c : B256}, l.Perm l' →
      (l'.map Prod.fst).Nodup → leafOf l k = some c → leafOf l' k = some c := by
    intro l l' c hp hn hc
    obtain ⟨e, he, rfl⟩ := Option.map_eq_some_iff.1 hc
    have hmem : e ∈ l' := hp.subset (mem_of_find?_eq_some he)
    have hkey : e.1.val = k := by simpa using find?_some he
    cases hfind : l'.find? fun e => e.1.val == k with
    | none =>
      have := find?_eq_none.1 hfind e hmem
      exact absurd hkey (by simpa using this)
    | some e' =>
      have hkey' : e'.1.val = k := by simpa using find?_some hfind
      have hsame : e' = e :=
        inj_on_of_nodup_map hn (mem_of_find?_eq_some hfind) hmem (Fin.ext (hkey'.trans hkey.symm))
      unfold leafOf
      rw [hfind, hsame]
      rfl
  apply Option.ext
  intro c
  exact ⟨hfound hperm hnodup', hfound hperm.symm hnodup⟩

end Nodes

/-! ### The invariant of the reducer -/

/-- The reducer holds `leaves`, of which `k` is the last key, with the current subtree lifted to a
height. -/
structure Lifted (leaves : List (TreeKey × B256)) (k : TreeKey) (height : Nat)
    (r : SortedPoseidonRootReducer V) : Prop where
  /-- No key is beyond `k`. -/
  le : ∀ e ∈ leaves, e.1 ≤ k
  /-- The current subtree is the node above `k`. -/
  current : r.current = some ⟨k, smtNode ops leaves height (k.val / 2 ^ height)⟩
  /-- Nothing is pending below the height. -/
  below : ∀ h, h < height → r.frontier h = none
  /-- Nothing is pending above the tree. -/
  beyond : ∀ h, 256 ≤ h → r.frontier h = none
  /-- A pending subtree is the left sibling on the path of `k`. -/
  pending : ∀ h left, height ≤ h → r.frontier h = some left →
    isRight k h = true ∧ left.key.val / 2 ^ h + 1 = k.val / 2 ^ h ∧
      left.value = smtNode ops leaves h (left.key.val / 2 ^ h)
  /-- A left sibling that is not pending is zero. -/
  absent : ∀ h, height ≤ h → r.frontier h = none → isRight k h = true →
    smtNode ops leaves h (k.val / 2 ^ h - 1) = ops.zero

variable {ops} {leaves : List (TreeKey × B256)} {k : TreeKey} {height : Nat}
  {r : SortedPoseidonRootReducer V}

/-- The value one level up is the parent node. -/
theorem Lifted.mergedValue_eq (hl : Lifted ops leaves k height r) :
    mergedValue ops r ⟨k, smtNode ops leaves height (k.val / 2 ^ height)⟩ height
      = .ok (smtNode ops leaves (height + 1) (k.val / 2 ^ (height + 1))) := by
  have hindex := index_eq k height
  rw [smtNode_succ]
  unfold mergedValue
  cases hfr : r.frontier height with
  | some left =>
    obtain ⟨hright, hsib, hvalue⟩ := hl.pending height left le_rfl hfr
    have hleft := index_eq left.key height
    simp only [hright, if_true] at hindex
    have hlr : isRight left.key height = false := by
      rw [← Bool.not_eq_true]
      intro hlr
      rw [hlr] at hleft
      simp only [if_true] at hleft
      omega
    simp only [hlr, Bool.false_eq_true, if_false] at hleft
    have hparent : left.key.val / 2 ^ (height + 1) = k.val / 2 ^ (height + 1) := by omega
    have hguard : ¬ (isRight left.key height = true ∨ isRight k height = false ∨
        parentPath left.key height ≠ parentPath k height) := by
      simp [hlr, hright, parentPath, hparent]
    have h0 : left.key.val / 2 ^ height = 2 * (k.val / 2 ^ (height + 1)) := by omega
    simp only [if_neg hguard, hvalue, h0, hindex]
    rfl
  | none =>
    cases hright : isRight k height with
    | true =>
      have hzero := hl.absent height le_rfl hfr hright
      simp only [hright, if_true] at hindex
      have h0 : k.val / 2 ^ height - 1 = 2 * (k.val / 2 ^ (height + 1)) := by omega
      rw [h0] at hzero
      simp only [if_true, hindex, hzero]
      rfl
    | false =>
      -- no key beyond `k`, so the right sibling is empty
      simp only [hright, Bool.false_eq_true, if_false, add_zero] at hindex
      have hzero : smtNode ops leaves height (2 * (k.val / 2 ^ (height + 1)) + 1) = ops.zero := by
        refine smtNode_eq_zero ops height _ fun e he heq => ?_
        have hle : e.1.val / 2 ^ height ≤ k.val / 2 ^ height := Nat.div_le_div_right (hl.le e he)
        omega
      simp only [Bool.false_eq_true, if_false, hindex, hzero]
      rfl

theorem Lifted.mergeCurrentLevel (hl : Lifted ops leaves k height r) :
    ∃ r', mergeCurrentLevel ops r height = .ok r' ∧ Lifted ops leaves k (height + 1) r' := by
  refine ⟨⟨update r.frontier height none,
    some ⟨k, smtNode ops leaves (height + 1) (k.val / 2 ^ (height + 1))⟩⟩, ?_, ?_⟩
  · simp only [PartitionRoot.mergeCurrentLevel, laws]
    exact ⟨_, hl.current, _, hl.mergedValue_eq, rfl⟩
  · have hnone : ∀ h, (h ≠ height → r.frontier h = none) →
        update r.frontier height none h = none := by
      intro h hrest
      by_cases heq : h = height
      · rw [heq, update_self]
      · rw [update_of_ne heq, hrest heq]
    have hkept : ∀ h, height + 1 ≤ h → update r.frontier height none h = r.frontier h :=
      fun h hh => update_of_ne (by omega) _ _
    refine ⟨hl.le, rfl, ?_, ?_, ?_, ?_⟩
    · exact fun h hh => hnone h fun _ => hl.below h (by omega)
    · exact fun h hh => hnone h fun _ => hl.beyond h hh
    · intro h left hh hfr
      exact hl.pending h left (by omega) ((hkept h hh).symm.trans hfr)
    · intro h hh hfr
      exact hl.absent h (by omega) ((hkept h hh).symm.trans hfr)

/-- Lifting from the leaf to a height. -/
theorem Lifted.liftCurrent (hl : Lifted ops leaves k 0 r) (target : Nat) :
    ∃ r', liftCurrent ops r target = .ok r' ∧ Lifted ops leaves k target r' := by
  induction target with
  | zero => exact ⟨r, rfl, hl⟩
  | succ target ih =>
    obtain ⟨mid, hmid, hlmid⟩ := ih
    obtain ⟨r', hr', hl'⟩ := hlmid.mergeCurrentLevel
    refine ⟨r', ?_, hl'⟩
    show (List.range (target + 1)).foldlM (PartitionRoot.mergeCurrentLevel ops) r = _
    rw [range_succ, foldlM_append]
    show (PartitionRoot.liftCurrent ops r target >>= fun _ => _) = _
    rw [hmid]
    show (PartitionRoot.mergeCurrentLevel ops mid target >>= pure) = _
    rw [hr']
    rfl

theorem Lifted.first (leaf : TreeKey × B256) :
    Lifted ops [leaf] leaf.1 0 ⟨fun _ => none, some ⟨leaf.1, ops.ofLeaf leaf.2⟩⟩ := by
  have hself : smtNode ops ([] ++ [leaf]) 0 leaf.1.val = ops.ofLeaf leaf.2 :=
    smtNode_append_self ops (by simp)
  refine ⟨by simp, ?_, fun _ _ => rfl, fun _ _ => rfl, fun _ _ _ h => (nomatch h), ?_⟩
  · rw [pow_zero, Nat.div_one]
    exact congrArg (fun v => some (PendingSortedNode.mk leaf.1 v)) hself.symm
  · intro h _ _ hright
    refine smtNode_eq_zero ops h _ fun e he heq => ?_
    have hindex := index_eq leaf.1 h
    simp only [hright, if_true] at hindex
    rw [mem_singleton.1 he] at heq
    omega

variable {leaf : TreeKey × B256}

/-- The next leaf: the current subtree becomes pending at the fork. -/
theorem Lifted.next (hl : Lifted ops leaves k f r) (hlt : k < leaf.1) (hfork : ForksAt k leaf.1 f) :
    Lifted ops (leaves ++ [leaf]) leaf.1 0
      ⟨update r.frontier f (some ⟨k, smtNode ops leaves f (k.val / 2 ^ f)⟩),
        some ⟨leaf.1, ops.ofLeaf leaf.2⟩⟩ := by
  have hk := index_eq k f
  have hk' := index_eq leaf.1 f
  simp only [hfork.left, hfork.right, Bool.false_eq_true, if_false, if_true, add_zero] at hk hk'
  have hsib : k.val / 2 ^ f + 1 = leaf.1.val / 2 ^ f := by rw [hk, hk', hfork.above]
  have hnew : ∀ e ∈ leaves, e.1.val ≠ leaf.1.val := fun e he heq =>
    absurd (hl.le e he) (by rw [Fin.ext heq]; exact not_le.2 hlt)
  refine ⟨?_, ?_, fun _ h => absurd h (Nat.not_lt_zero _), ?_, ?_, ?_⟩
  · exact forall_mem_append.2 ⟨fun e he => (hl.le e he).trans hlt.le, forall_mem_singleton.2 le_rfl⟩
  · rw [pow_zero, Nat.div_one, smtNode_append_self ops hnew]
  · intro h hh
    show update r.frontier f _ h = none
    rw [update_of_ne (by have := hfork.lt; omega)]
    exact hl.beyond h hh
  · intro h left _ hfr
    have hfr' : update r.frontier f _ h = some left := hfr
    by_cases heq : h = f
    · -- the subtree that was completed at the fork
      subst heq
      rw [update_self, Option.some.injEq] at hfr'
      subst hfr'
      refine ⟨hfork.right, hsib, ?_⟩
      rw [smtNode_append ops _ _ (by show leaf.1.val / 2 ^ h ≠ k.val / 2 ^ h; omega)]
    · rw [update_of_ne heq] at hfr'
      rcases lt_or_ge h f with hlow | hhigh
      · rw [hl.below h hlow] at hfr'
        exact nomatch hfr'
      · obtain ⟨hright, hidx, hvalue⟩ := hl.pending h left hhigh hfr'
        have hfh : f + 1 ≤ h := by omega
        have habove := index_eq_of_le hfork.above hfh
        refine ⟨by rw [← isRight_eq_of_index hfork.above hfh, hright], by rw [hidx, habove], ?_⟩
        rw [smtNode_append ops _ _ (by rw [← habove, ← hidx]; omega), hvalue]
  · intro h _ hfr hright
    have hfr' : update r.frontier f _ h = none := hfr
    have hindex := index_eq leaf.1 h
    simp only [hright, if_true] at hindex
    rcases Nat.lt_trichotomy h f with hlow | rfl | hhigh
    · -- below the fork no earlier key shares the path of the new one
      refine smtNode_eq_zero ops h _ fun e he heq => ?_
      rcases mem_append.1 he with he | he
      · have hup : e.1.val / 2 ^ (h + 1) = leaf.1.val / 2 ^ (h + 1) := by
          rw [div_two_pow_succ, heq]
          omega
        have hf := index_eq_of_le hup (show h + 1 ≤ f by omega)
        have hle : e.1.val / 2 ^ f ≤ k.val / 2 ^ f := Nat.div_le_div_right (hl.le e he)
        omega
      · rw [mem_singleton.1 he] at heq
        omega
    · rw [update_self] at hfr'
      exact nomatch hfr'
    · rw [update_of_ne (by omega)] at hfr'
      have hfh : f + 1 ≤ h := by omega
      have habove := index_eq_of_le hfork.above hfh
      rw [smtNode_append ops _ _ (by omega), ← habove]
      exact hl.absent h (by omega) hfr' (by rw [isRight_eq_of_index hfork.above hfh, hright])

/-- Pushing a larger key. -/
theorem Lifted.push (hl : Lifted ops leaves k 0 r) (hlt : k < leaf.1) (hne : leaf.2 ≠ 0) :
    ∃ r', r.push ops leaf = .ok r' ∧ Lifted ops (leaves ++ [leaf]) leaf.1 0 r' := by
  have hfork := forkHeight_forksAt hlt
  obtain ⟨lifted, hlift, hll⟩ := hl.liftCurrent (forkHeight k leaf.1)
  have hempty : lifted.frontier (forkHeight k leaf.1) = none := by
    cases hfr : lifted.frontier (forkHeight k leaf.1) with
    | none => rfl
    | some left =>
      have := (hll.pending _ left le_rfl hfr).1
      rw [hfork.left] at this
      exact nomatch this
  refine ⟨_, ?_, hll.next hlt hfork⟩
  have hcomplete : completeCurrent ops r ⟨k, smtNode ops leaves 0 (k.val / 2 ^ 0)⟩ leaf.1
      = .ok (update lifted.frontier (forkHeight k leaf.1)
          (some ⟨k, smtNode ops leaves (forkHeight k leaf.1)
            (k.val / 2 ^ forkHeight k leaf.1)⟩)) := by
    simp only [completeCurrent, laws]
    exact ⟨(), not_lt.2 hlt.le, (), ne_of_gt hlt, lifted, hlift, _, hll.current,
      (), by rw [hfork.left]; exact Bool.false_ne_true,
      (), by rw [hempty]; exact Bool.false_ne_true, rfl⟩
  simp only [SortedPoseidonRootReducer.push, nextFrontier, hl.current, laws]
  exact ⟨(), hne, _, hcomplete, rfl⟩

/-- Nothing is pending at the root. -/
theorem Lifted.finish (hl : Lifted ops leaves k 0 r) :
    r.finish ops = ops.checkedRoot (smtNode ops leaves 256 0) := by
  obtain ⟨lifted, hlift, hll⟩ := hl.liftCurrent 255
  obtain ⟨merged, hmerge, hlm⟩ := hll.mergeCurrentLevel
  have hnone : merged.anyPending = false := by
    unfold SortedPoseidonRootReducer.anyPending
    rw [any_eq_false]
    intro h hh
    rw [hlm.below h (mem_range.1 hh)]
    exact Bool.false_ne_true
  have hroot : k.val / 2 ^ 256 = 0 := Nat.div_eq_of_lt k.isLt
  have hcur : merged.current = some ⟨k, smtNode ops leaves 256 0⟩ := by
    rw [hlm.current, show 255 + 1 = 256 from rfl, hroot]
  unfold SortedPoseidonRootReducer.finish
  rw [hl.current]
  show (PartitionRoot.liftCurrent ops r 255 >>= fun _ => _) = _
  rw [hlift]
  show (PartitionRoot.mergeCurrentLevel ops lifted 255 >>= fun _ => _) = _
  rw [hmerge]
  show (throwIf (merged.anyPending = true) _ >>= fun _ => _) = _
  rw [throwIf, hnone, if_neg Bool.false_ne_true]
  show (okOr merged.current _ >>= fun _ => _) = _
  rw [hcur]
  rfl

/-! ### Whole lists of leaves -/

variable {rest : List (TreeKey × B256)}

/-- Pushing further leaves with ascending keys. -/
theorem Lifted.foldlM (hl : Lifted ops leaves k 0 r)
    (hasc : (k :: rest.map Prod.fst).Pairwise (· < ·)) (hne : ∀ e ∈ rest, e.2 ≠ 0) :
    ∃ k' r', rest.foldlM (SortedPoseidonRootReducer.push ops) r = .ok r' ∧
      Lifted ops (leaves ++ rest) k' 0 r' := by
  induction rest generalizing leaves k r with
  | nil => exact ⟨k, r, rfl, by rwa [append_nil]⟩
  | cons leaf rest ih =>
    obtain ⟨hhead, htail⟩ := pairwise_cons.1 hasc
    have hlt : k < leaf.1 := hhead leaf.1 (by simp)
    obtain ⟨mid, hpush, hlmid⟩ := hl.push hlt (hne leaf (by simp))
    obtain ⟨k', r', hfold, hl'⟩ := ih hlmid htail fun e he => hne e (by simp [he])
    refine ⟨k', r', ?_, ?_⟩
    · rw [foldlM_cons, hpush]
      exact hfold
    · rwa [append_assoc, singleton_append] at hl'

variable (ops)

/-- The root of sorted leaves. -/
def reduce (leaves : List (TreeKey × B256)) : Except TreeError B256 := do
  let r ← leaves.foldlM (SortedPoseidonRootReducer.push ops) SortedPoseidonRootReducer.new
  r.finish ops

theorem finish_new : SortedPoseidonRootReducer.new.finish ops = .ok 0 := by
  have hnew : (SortedPoseidonRootReducer.new : SortedPoseidonRootReducer V).anyPending = false :=
    any_eq_false.2 fun _ _ => Bool.false_ne_true
  unfold SortedPoseidonRootReducer.finish
  rw [if_pos (by rfl), hnew, throwIf, if_neg Bool.false_ne_true]
  rfl

/-- Over strictly ascending keys and non-zero leaves the reducer computes the root of the tree. -/
theorem reduce_eq (hasc : (leaves.map Prod.fst).Pairwise (· < ·)) (hne : ∀ e ∈ leaves, e.2 ≠ 0) :
    reduce ops leaves = updateAll ops leaves := by
  have hnodup : (leaves.map Prod.fst).Nodup := hasc.imp fun h => ne_of_lt h
  have hupdate : updateAll ops leaves
      = if leaves.isEmpty then .ok 0 else ops.checkedRoot (smtNode ops leaves 256 0) := by
    show (throwIf (¬ (leaves.map Prod.fst).Nodup) _ >>= fun _ => _) = _
    rw [throwIf, if_neg (not_not.2 hnodup)]
    rfl
  rw [hupdate]
  cases leaves with
  | nil =>
    unfold reduce
    rw [foldlM_nil, pure_bind, finish_new, if_pos isEmpty_nil]
  | cons leaf rest =>
    have hpush : SortedPoseidonRootReducer.new.push ops leaf
        = .ok ⟨fun _ => none, some ⟨leaf.1, ops.ofLeaf leaf.2⟩⟩ := by
      show (throwIf (leaf.2 = 0) _ >>= fun _ => _) = _
      rw [throwIf, if_neg (hne leaf (by simp))]
      rfl
    have hfirst : Lifted ops [leaf] leaf.1 0 _ := Lifted.first leaf
    obtain ⟨k, r, hfold, hl⟩ := hfirst.foldlM hasc fun e he => hne e (by simp [he])
    have hreduce : reduce ops (leaf :: rest) = r.finish ops := by
      show ((leaf :: rest).foldlM (SortedPoseidonRootReducer.push ops) _ >>= fun _ => _) = _
      rw [foldlM_cons, hpush]
      show (rest.foldlM (SortedPoseidonRootReducer.push ops) _ >>= fun _ => _) = _
      rw [hfold]
      rfl
    rw [hreduce, hl.finish]
    rfl

variable {r' : SortedPoseidonRootReducer V}

/-- What a push that succeeds says about the keys. -/
theorem push_ascending (h : r.push ops leaf = .ok r') :
    (∀ c, r.current = some c → c.key < leaf.1) ∧ ∃ v, r'.current = some ⟨leaf.1, v⟩ := by
  simp only [SortedPoseidonRootReducer.push, laws] at h
  obtain ⟨⟨⟩, -, frontier, hfr, rfl⟩ := h
  refine ⟨fun c hc => ?_, _, rfl⟩
  simp only [nextFrontier, hc, completeCurrent, laws] at hfr
  obtain ⟨⟨⟩, hless, ⟨⟩, heq, -⟩ := hfr
  exact lt_of_le_of_ne (not_lt.1 hless) (Ne.symm heq)

/-- Leaves the reducer takes have ascending keys. -/
theorem foldlM_ascending (h : rest.foldlM (SortedPoseidonRootReducer.push ops) r = .ok r') :
    (rest.map Prod.fst).Pairwise (· < ·) ∧
      ∀ c, r.current = some c → ∀ e ∈ rest, c.key < e.1 := by
  induction rest generalizing r with
  | nil => exact ⟨List.Pairwise.nil, fun _ _ _ he => absurd he not_mem_nil⟩
  | cons leaf rest ih =>
    rw [foldlM_cons] at h
    obtain ⟨mid, hpush, h⟩ := bind_eq_ok.1 h
    obtain ⟨hlt, v, hcur⟩ := push_ascending ops hpush
    obtain ⟨hasc, hrest⟩ := ih h
    have hhead := hrest _ hcur
    refine ⟨?_, ?_⟩
    · rw [map_cons, pairwise_cons]
      refine ⟨fun k hk => ?_, hasc⟩
      obtain ⟨e, he, rfl⟩ := mem_map.1 hk
      exact hhead e he
    · exact fun c hc => forall_mem_cons.2 ⟨hlt c hc, fun e he => (hlt c hc).trans (hhead e he)⟩

/-- The reducer succeeds exactly on ascending keys whose root is well formed. -/
theorem reduce_eq_ok {root : B256} (hne : ∀ e ∈ leaves, e.2 ≠ 0) :
    reduce ops leaves = .ok root ↔
      (leaves.map Prod.fst).Pairwise (· < ·) ∧ updateAll ops leaves = .ok root := by
  constructor
  · intro h
    obtain ⟨r, hfold, -⟩ := bind_eq_ok.1 h
    have hasc := (foldlM_ascending ops hfold).1
    exact ⟨hasc, by rw [← reduce_eq ops hasc hne, h]⟩
  · rintro ⟨hasc, h⟩
    rw [reduce_eq ops hasc hne, h]

end Rudis.PartitionRoot
