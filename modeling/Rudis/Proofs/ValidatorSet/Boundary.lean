import Rudis.Proofs.ValidatorSet.Registry

/-!
# `Rudis.Proofs.ValidatorSet.Boundary`: boundary activation

A boundary plans one transition per registered validator before it writes anything
(`planBoundary_eq_ok`), and then commits all of them (`CommitsAll`). The planner decides by one
case table whether a validator takes part after the boundary: it does exactly when the new set
includes it (`boundaryNext_ok`). `Activates` is what a successful activation amounts to.
-/

namespace Rudis.ValidatorSet

open List
open ValidatorLifecycle (hasBlsShare)
open StateMachine
open Tx

variable {X : Externals} {vs vs' : Store} {u : Unit} {newActiveSet exclusions : List Address}
  {freezeHeight : Nat}

/-! ### The case table -/

/-- What a boundary leaves of a record. -/
structure BoundaryKeeps (l next : ValidatorLifecycle) : Prop where
  mirrors : MirrorsStake l next l.bondedStake
  slashCount : next.storedHistory (·.slashCount) = l.storedHistory (·.slashCount)
  joinedAtHeight : next.storedHistory (·.joinedAtHeight) = l.storedHistory (·.joinedAtHeight)

theorem BoundaryKeeps.refl (l : ValidatorLifecycle) : BoundaryKeeps l l := ⟨⟨rfl, rfl⟩, rfl, rfl⟩

/-- When a validator that is leaving was put on its way out. -/
def ValidatorLifecycle.leftAt : ValidatorLifecycle → Option Nat
  | .exiting s => s.history.lastDeactivatedAtHeight
  | .jailRetained s => some s.jailedAt
  | _ => none

variable {l next : ValidatorLifecycle} {included teeExpired : Bool}
  {admitted : Result (Option OcompKeyRegistration)}

/-- A planned transition keeps the record, gives a share exactly to the included validators,
drops no active validator without an exclusion, and lets a leaving validator keep its share
exactly when it left after the freeze. -/
theorem boundaryNext_ok (h : boundaryNext l included teeExpired admitted freezeHeight = .ok next) :
    BoundaryKeeps l next ∧ next.isCurrentConsensusParticipant = included ∧
      (l.isActiveStatus = true → included = true ∨ teeExpired = true) ∧
      ∀ height, l.leftAt = some height → (next.hasBlsShare = true ↔ freezeHeight < height) := by
  unfold boundaryNext at h
  split at h <;> simp only [laws, exists_unit, Except.throw_ne_ok, and_false, exists_false] at h
  case h_1 | h_2 | h_3 =>
    subst h
    exact ⟨⟨⟨rfl, rfl⟩, rfl, rfl⟩, rfl, fun _ => .inr rfl, by rintro _ ⟨⟩⟩
  case h_4 =>
    obtain ⟨_, _, _, rfl⟩ := h
    exact ⟨⟨⟨rfl, rfl⟩, rfl, rfl⟩, rfl, by rintro ⟨⟩, by rintro _ ⟨⟩⟩
  case h_5 =>
    subst h
    exact ⟨.refl _, rfl, fun _ => .inl rfl, by rintro _ ⟨⟩⟩
  case h_7 =>
    obtain ⟨changedAt, hchanged, hafter, rfl⟩ := h
    refine ⟨.refl _, rfl, by rintro ⟨⟩, fun height hheight => ?_⟩
    obtain rfl : changedAt = height := Option.some.inj (hchanged.symm.trans hheight)
    simpa [hasBlsShare] using hafter
  case h_8 =>
    obtain ⟨changedAt, hchanged, hbefore, rfl⟩ := h
    refine ⟨⟨⟨rfl, rfl⟩, rfl, rfl⟩, rfl, by rintro ⟨⟩, fun height hheight => ?_⟩
    obtain rfl : changedAt = height := Option.some.inj (hchanged.symm.trans hheight)
    simpa [hasBlsShare] using hbefore
  case h_9 =>
    obtain ⟨hafter, rfl⟩ := h
    refine ⟨.refl _, rfl, by rintro ⟨⟩, fun height hheight => ?_⟩
    cases hheight
    simpa [hasBlsShare] using hafter
  case h_10 =>
    obtain ⟨hbefore, rfl⟩ := h
    refine ⟨⟨⟨rfl, rfl⟩, rfl, rfl⟩, rfl, by rintro ⟨⟩, fun height hheight => ?_⟩
    cases hheight
    simpa [hasBlsShare] using hbefore
  case h_11 hactive hexiting hjailed =>
    subst h
    cases next with
    | active s => exact (hactive s rfl).elim
    | exiting s => exact (hexiting s rfl).elim
    | jailRetained s => exact (hjailed s rfl).elim
    | _ => exact ⟨.refl _, rfl, by rintro ⟨⟩, by rintro _ ⟨⟩⟩

/-! ### The plan -/

/-- The planned transition of one registered validator. -/
structure Planned (X : Externals) (vs : Store) (newActiveSet : List Address) (freezeHeight : Nat)
    (exclusions : List Address) (t : ValidatorState × ValidatorState) : Prop where
  read : validatorState X vs t.1.address = .ok t.1
  address : t.2.address = t.1.address
  next : boundaryNext t.1.lifecycle (decide (t.1.address ∈ newActiveSet))
    (decide (t.1.address ∈ exclusions)) (ocompRegistration X vs t.1.address) freezeHeight =
      .ok t.2.lifecycle

/-- The entries of a registry whose scan succeeds are pairwise different. -/
theorem entries_nodup (h : registeredValidatorAddresses vs = .ok vs.registry.entries) :
    vs.registry.entries.Nodup := by
  obtain ⟨-, hentries⟩ := registeredValidatorAddresses_eq_ok.mp h
  refine List.Nodup.map_on ?_ nodup_range'
  intro i hi j hj heq
  have hi := mem_range'_1.mp hi
  have hj := mem_range'_1.mp hj
  rw [← (hentries i (by omega) (by omega)).2, heq, (hentries j (by omega) (by omega)).2]

/-- The plan has one transition per entry, in the order of the entries. -/
theorem planBoundary_eq_ok {ts : List (ValidatorState × ValidatorState)}
    (h : planBoundary X vs newActiveSet freezeHeight exclusions = .ok ts) :
    registeredValidatorAddresses vs = .ok vs.registry.entries ∧
      ts.map (·.1.address) = vs.registry.entries ∧
      ∀ t ∈ ts, Planned X vs newActiveSet freezeHeight exclusions t := by
  simp only [planBoundary, bind_eq_ok] at h
  obtain ⟨addresses, haddresses, states, hstates, hts⟩ := h
  obtain rfl := (registeredValidatorAddresses_eq_ok.mp haddresses).1
  refine ⟨haddresses, ?_⟩
  rw [mapM_eq_ok] at hstates hts
  clear haddresses
  generalize vs.registry.entries = entries at hstates ⊢
  induction hstates generalizing ts with
  | nil =>
    cases hts
    exact ⟨rfl, fun t ht => absurd ht not_mem_nil⟩
  | cons hread _ ih =>
    cases hts with
    | cons ht hts =>
      obtain ⟨hmap, hplanned⟩ := ih hts
      simp only [planTransition, ValidatorState.withLifecycle, ValidatorState.fromLifecycle,
        laws, exists_unit] at ht
      obtain ⟨next, hnext, _, ⟨_, rfl⟩, rfl⟩ := ht
      obtain rfl := validatorState_address hread
      exact ⟨by rw [map_cons, hmap], forall_mem_cons.mpr ⟨⟨hread, rfl, hnext⟩, hplanned⟩⟩

/-! ### Committing the plan -/

/-- One commit per transition, in order. -/
inductive CommitsAll (X : Externals) : List (ValidatorState × ValidatorState) → Store → Store → Prop
  | nil (vs : Store) : CommitsAll X [] vs vs
  | cons {t : ValidatorState × ValidatorState} {ts : List (ValidatorState × ValidatorState)}
      {vs vs₁ vs' : Store} (haddr : t.2.address = t.1.address)
      (h : Commits X t.1.address t.1.lifecycle t.2.lifecycle false vs vs₁)
      (rest : CommitsAll X ts vs₁ vs') : CommitsAll X (t :: ts) vs vs'

theorem persist_commits {before after : ValidatorState} (haddr : after.address = before.address)
    (hread : validatorState X vs before.address = .ok before)
    (h : Ok (persistValidatorStateDelta before after) vs u vs') :
    Commits X before.address before.lifecycle after.lifecycle false vs vs' := by
  obtain ⟨_, hvalid, _, hindex, hkey, rfl⟩ := ok_persistValidatorStateDelta.mp h
  refine ⟨hread, haddr ▸ hvalid, hindex, hkey, ?_⟩
  rw [haddr]
  rfl

/-- The writes of a plan commit its transitions, since no two of them are about one validator. -/
theorem commitsAll_of_ok : ∀ {ts : List (ValidatorState × ValidatorState)} {vs vs' : Store},
      (ts.map (·.1.address)).Nodup →
      (∀ t ∈ ts, t.2.address = t.1.address ∧ validatorState X vs t.1.address = .ok t.1) →
      Ok (ts.forM fun t => persistValidatorStateDelta t.1 t.2) vs () vs' →
      CommitsAll X ts vs vs' := by
  intro ts
  induction ts with
  | nil =>
    intro vs vs' _ _ h
    obtain rfl := (ok_pure.mp h).2
    exact .nil _
  | cons t ts ih =>
    intro vs vs' hnodup hreads h
    simp only [forM_eq_forM, forM_cons, rules] at h
    obtain ⟨vs₁, hpersist, hrest⟩ := h
    obtain ⟨haddr, hread⟩ := hreads t mem_cons_self
    have hcommit := persist_commits haddr hread hpersist
    rw [map_cons, nodup_cons] at hnodup
    refine .cons haddr hcommit (ih hnodup.2 (fun t' ht' => ?_) hrest)
    obtain ⟨haddr', hread'⟩ := hreads t' (mem_cons_of_mem t ht')
    have hne : t'.1.address ≠ t.1.address := fun heq =>
      hnodup.1 (heq ▸ mem_map_of_mem ht')
    exact ⟨haddr', (hcommit.validatorState_of_ne hne).trans hread'⟩

namespace CommitsAll

variable {ts : List (ValidatorState × ValidatorState)}

/-- The plan writes the slots of its own validators. -/
theorem frame (h : CommitsAll X ts vs vs') :
    vs'.registry = vs.registry ∧ vs'.delegates = vs.delegates ∧ vs'.ocomp = vs.ocomp ∧
      vs'.snapshots = vs.snapshots ∧
      ∀ a, a ∉ ts.map (·.1.address) → vs'.val a = vs.val a := by
  induction h with
  | nil => exact ⟨rfl, rfl, rfl, rfl, fun _ _ => rfl⟩
  | cons haddr hcommit _ ih =>
    obtain ⟨h₁, h₂, h₃, h₄, hval⟩ := hcommit.frame
    obtain ⟨h₁', h₂', h₃', h₄', hval'⟩ := ih
    refine ⟨h₁'.trans h₁, h₂'.trans h₂, h₃'.trans h₃, h₄'.trans h₄, fun a ha => ?_⟩
    rw [map_cons, mem_cons, not_or] at ha
    exact (hval' a ha.2).trans (hval a ha.1)

/-- Every validator of the plan reads as its planned state afterwards. -/
theorem reads (h : CommitsAll X ts vs vs') (hnodup : (ts.map (·.1.address)).Nodup)
    (hp2p : ∀ t ∈ ts, t.2.lifecycle.p2p = t.1.lifecycle.p2p) :
    ∀ t ∈ ts, validatorState X vs' t.1.address = .ok t.2 := by
  induction h with
  | nil => exact fun t ht => absurd ht not_mem_nil
  | @cons t ts _ _ _ haddr hcommit rest ih =>
    rw [map_cons, nodup_cons] at hnodup
    intro t' ht'
    rcases mem_cons.mp ht' with rfl | ht'
    · have hread := hcommit.read_next_of_p2p (hp2p t' mem_cons_self)
      rw [validatorState_congr rest.frame.1 (rest.frame.2.2.2.2 _ hnodup.1), hread, ← haddr]
    · exact ih hnodup.2 (fun t ht => hp2p t (mem_cons_of_mem _ ht)) t' ht'

end CommitsAll

/-- A boundary that succeeds: a plan with the right participants, committed. -/
structure Activates (X : Externals) (newActiveSet : List Address) (freezeHeight : Nat)
    (exclusions : List Address) (ts : List (ValidatorState × ValidatorState)) (vs vs' : Store) :
    Prop where
  scan : registeredValidatorAddresses vs = .ok vs.registry.entries
  entries : ts.map (·.1.address) = vs.registry.entries
  planned : ∀ t ∈ ts, Planned X vs newActiveSet freezeHeight exclusions t
  nodup : newActiveSet.Nodup
  length_eq : (plannedParticipants ts).length = newActiveSet.length
  subset : plannedParticipants ts ⊆ newActiveSet
  commits : ∃ vs₁ hash pending, CommitsAll X ts vs vs₁ ∧
    vs' = { vs₁ with activeConsensusSetHash := hash, pendingSetChange := pending }

theorem applyResharedSet_activates {hash : B256}
    (h : Ok (applyResharedSet X newActiveSet hash freezeHeight exclusions) vs u vs') :
    ∃ ts, Activates X newActiveSet freezeHeight exclusions ts vs vs' := by
  simp only [applyResharedSet, writePendingSetChange, rules, not_or, not_exists, not_and,
    any_eq_true, decide_eq_true_eq] at h
  obtain ⟨_, ts, hplan, hdedup, hlength, hsubset, vs₁, hpersist, rfl⟩ := h
  obtain ⟨hscan, hentries, hplanned⟩ := planBoundary_eq_ok hplan
  have hcommits : CommitsAll X ts vs vs₁ :=
    commitsAll_of_ok (hentries ▸ entries_nodup hscan)
      (fun t ht => ⟨(hplanned t ht).address, (hplanned t ht).read⟩) hpersist
  refine ⟨ts, hscan, hentries, hplanned, ?_, hlength, hsubset, vs₁, hash, _, hcommits, rfl⟩
  rw [← dedup_eq_self]
  exact (dedup_sublist _).eq_of_length hdedup

theorem activateValidated_activates {hash : B256}
    (h : Ok (activateValidatedBoundarySetWithExpiryExclusions X newActiveSet hash freezeHeight
      exclusions) vs u vs') : ∃ ts, Activates X newActiveSet freezeHeight exclusions ts vs vs' := by
  unfold activateValidatedBoundarySetWithExpiryExclusions at h
  split at h
  · rename_i hnil
    exact hnil ▸ applyResharedSet_activates h
  · simp only [rules] at h
    exact applyResharedSet_activates h.2.2

/-! ### What an activation leaves -/

namespace Activates

variable {ts : List (ValidatorState × ValidatorState)} {t : ValidatorState × ValidatorState}

/-- What the planner decided about one transition. -/
theorem next_ok (h : Activates X newActiveSet freezeHeight exclusions ts vs vs') (ht : t ∈ ts) :
    BoundaryKeeps t.1.lifecycle t.2.lifecycle ∧
      t.2.lifecycle.isCurrentConsensusParticipant = decide (t.1.address ∈ newActiveSet) ∧
      (t.1.lifecycle.isActiveStatus = true →
        t.1.address ∈ newActiveSet ∨ t.1.address ∈ exclusions) ∧
      ∀ height, t.1.lifecycle.leftAt = some height →
        (t.2.lifecycle.hasBlsShare = true ↔ freezeHeight < height) := by
  simpa only [decide_eq_true_eq] using boundaryNext_ok (h.planned t ht).next

/-- Nothing but the slots of the planned validators changes in the registry. -/
theorem frame (h : Activates X newActiveSet freezeHeight exclusions ts vs vs') :
    vs'.registry = vs.registry ∧ ∀ a, a ∉ vs.registry.entries → vs'.val a = vs.val a := by
  obtain ⟨vs₁, hash, pending, hcommits, rfl⟩ := h.commits
  obtain ⟨hregistry, -, -, -, hval⟩ := hcommits.frame
  exact ⟨hregistry, fun a ha => hval a (h.entries ▸ ha)⟩

theorem reads (h : Activates X newActiveSet freezeHeight exclusions ts vs vs') (ht : t ∈ ts) :
    validatorState X vs' t.1.address = .ok t.2 := by
  obtain ⟨vs₁, hash, pending, hcommits, rfl⟩ := h.commits
  exact hcommits.reads (h.entries ▸ entries_nodup h.scan)
    (fun t ht => (h.next_ok ht).1.mirrors.1) t ht

end Activates

end Rudis.ValidatorSet
