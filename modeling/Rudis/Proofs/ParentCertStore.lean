import Rudis.Spec.ParentCertStore

/-!
# `Rudis.Proofs.ParentCertStore`: what the prune keeps

A finalization is stamped with its block's height, a certification with its view, and the floor is
a height. `Retains` follows the three maps along every run; `retained_iff` says what a prune leaves,
and `certifiedNotarization_pruned` is a run in which the views start again and the notarization of
the next block is lost.
-/

namespace Rudis.ParentCert

open List

/-- Of the keys that were put, the map holds all those of an age from `floor` on, with their
stamps. -/
def Tracks {β : Type} (stamp : β → Nat) (age : ProofKey → Nat) (puts : ProofKey → Prop)
    (floor : Nat) (m : ProofKey → Option β) : Prop :=
  ∀ k, ((m k).filter (floor ≤ stamp ·)).isSome ↔ puts k ∧ floor ≤ age k

namespace Tracks

variable {β : Type} {stamp : β → Nat} {m : ProofKey → Option β} {k : ProofKey}
  {age : ProofKey → Nat} {puts puts' : ProofKey → Prop} {floor : Nat}
  (h : Tracks stamp age puts floor m)
include h

theorem insert {v : β} (hv : stamp v = age k) (hputs : ∀ k', puts' k' ↔ puts k' ∨ k' = k) :
    Tracks stamp age puts' floor (update m k (some v)) := by
  intro k'
  rw [hputs, update_apply]
  split
  · simp [Option.filter, *]
  · simpa [*] using h k'

/-- A prune at or below the floor keeps what counts. -/
theorem prune {f : Nat} (hf : f ≤ floor) :
    Tracks stamp age puts floor fun k => (m k).filter (f ≤ stamp ·) := by
  intro k
  have hand : ∀ v, (decide (f ≤ stamp v) && decide (floor ≤ stamp v)) = decide (floor ≤ stamp v) := by
    simpa using fun v => hf.trans
  rw [← h k, Option.filter_filter]
  simp only [hand]

end Tracks

variable {height : ProofKey → Nat} {floor : Nat} {l : List Event} {s : ProofStoreState}

/-- What the three maps hold after the events. -/
structure Retains (height : ProofKey → Nat) (floor : Nat) (l : List Event) (s : ProofStoreState) :
    Prop where
  finalization : Tracks (·.storedAtHeight) height (.finalized · ∈ l) floor s.finalization
  certifiedNotarization : Tracks (·.storedAtHeight) (·.view) (.certified · ∈ l) floor
    s.certifiedNotarization
  seenCertificationKeys : Tracks id (·.view) (fun k => .witnessed k ∈ l ∨ .certified k ∈ l) floor
    s.seenCertificationKeys

namespace Retains

variable (h : Retains height floor l s)
include h

/-- A finalization adds its record, then prunes. -/
theorem finalized (k : ProofKey) :
    ∃ s', step height s (.finalized k) =
        .ok (pruneBelowHeight s' (height k - parentCertKeepDepth)) ∧
      Retains height floor (l ++ [.finalized k]) s' := by
  refine ⟨_, rfl, h.finalization.insert rfl (by simp), ?_, ?_⟩
  · simpa using h.certifiedNotarization
  · simpa using h.seenCertificationKeys

theorem step {e : Event} (he : ∀ k, e = .finalized k → height k - parentCertKeepDepth ≤ floor) :
    ∃ s', step height s e = .ok s' ∧ Retains height floor (l ++ [e]) s' := by
  cases e with
  | witnessed k =>
    refine ⟨_, rfl, ?_, ?_, h.seenCertificationKeys.insert rfl (by simp [or_right_comm])⟩
    · simpa [markLocalCertificationWitness] using h.finalization
    · simpa [markLocalCertificationWitness] using h.certifiedNotarization
  | certified k =>
    refine ⟨_, rfl, ?_, h.certifiedNotarization.insert rfl (by simp),
      h.seenCertificationKeys.insert rfl (by simp [or_assoc])⟩
    simpa using h.finalization
  | finalized k =>
    obtain ⟨s', hs', h'⟩ := h.finalized k
    have hfloor := he k rfl
    exact ⟨_, hs', h'.finalization.prune hfloor, h'.certifiedNotarization.prune hfloor,
      h'.seenCertificationKeys.prune hfloor⟩

end Retains

theorem run_concat (e : Event) (h : run height l = .ok s) :
    run height (l ++ [e]) = step height s e := by
  rw [run] at h ⊢
  simp only [foldlM_append, h, foldlM_cons, foldlM_nil, bind_pure]
  rfl

/-- Along a run whose prunes stay at or below the floor, nothing of an age from the floor on is
lost. -/
theorem exists_run (hl : ∀ k, .finalized k ∈ l → height k - parentCertKeepDepth ≤ floor) :
    ∃ s, run height l = .ok s ∧ Retains height floor l s := by
  induction l using reverseRecOn with
  | nil => exact ⟨{}, rfl, by constructor <;> intro <;> simp⟩
  | append_singleton l e ih =>
    obtain ⟨s, hs, h⟩ := ih fun k hk => hl k (mem_append_left _ hk)
    obtain ⟨s', hs', h'⟩ := h.step (e := e) fun k hk => hl k (by simp [hk])
    exact ⟨s', (run_concat e hs).trans hs', h'⟩

/-- When a block is finalized that is no lower than those before it, the store holds what was put
and is not below the floor, by its height or by its view. So the certification of a recent block is
kept if and only if its view is not below the floor. -/
theorem retained_iff (height : ProofKey → Nat) (l : List Event) (k₀ : ProofKey)
    (hmax : ∀ k, .finalized k ∈ l → height k ≤ height k₀) :
    let floor := height k₀ - parentCertKeepDepth
    ∃ s, run height (l ++ [.finalized k₀]) = .ok s ∧ ∀ k,
      ((s.finalization k).isSome ↔ .finalized k ∈ l ++ [.finalized k₀] ∧ floor ≤ height k) ∧
      ((s.certifiedNotarization k).isSome ↔ .certified k ∈ l ∧ floor ≤ k.view) ∧
      ((s.seenCertificationKeys k).isSome ↔
        (.witnessed k ∈ l ∨ .certified k ∈ l) ∧ floor ≤ k.view) := by
  intro floor
  obtain ⟨s, hs, h⟩ := exists_run fun k hk => Nat.sub_le_sub_right (hmax k hk) _
  obtain ⟨s', hs', h'⟩ := h.finalized k₀
  refine ⟨_, (run_concat _ hs).trans hs', fun k => ⟨h'.finalization k, ?_, ?_⟩⟩
  · exact (h'.certifiedNotarization k).trans (by simp [floor])
  · exact (h'.seenCertificationKeys k).trans (by simp [floor])

/-- In the first epoch, with views that number the blocks. -/
theorem retained_first_epoch :
    ∃ s, run (·.blockHash) [.certified ⟨0, 1001, 1001⟩, .finalized ⟨0, 1000, 1000⟩] = .ok s ∧
      (s.certifiedNotarization ⟨0, 1001, 1001⟩).isSome := by
  obtain ⟨s, hs, h⟩ := retained_iff (·.blockHash) [.certified ⟨0, 1001, 1001⟩] ⟨0, 1000, 1000⟩
    (by simp)
  exact ⟨s, hs, (h _).2.1.mpr ⟨by simp, by decide⟩⟩

/-- The second epoch begins at height 1000: the finalization of its first block drops the
notarization of its second one. -/
theorem certifiedNotarization_pruned :
    let next : ProofKey := ⟨1, 2, 1001⟩
    ∃ s, run (·.blockHash) [.finalized ⟨0, 999, 999⟩, .witnessed next, .certified next,
        .finalized ⟨1, 1, 1000⟩] = .ok s ∧ 1000 - parentCertKeepDepth ≤ next.blockHash ∧
      s.certifiedNotarization next = none ∧ s.seenCertificationKeys next = none :=
  ⟨_, rfl, by decide, rfl, rfl⟩

end Rudis.ParentCert
