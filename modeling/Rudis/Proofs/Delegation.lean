import Rudis.Proofs.Consistency

/-!
# `Rudis.Proofs.Delegation`: delegations along runs, and after a removal

`signers_of_run` carries the delegate invariant through every run and reads off that each active
validator has exactly one signer per role.

Cleanup clears the slots of a removed validator but leaves its delegations. So a removal leaves a
clean slate exactly when the validator had no explicit delegate (`cleanSlate_iff`), and
`delegate_survives_removal` is a run in which a delegate of before the removal signs for the
validator after it registered again.
-/

namespace Rudis

open Runs List
open ValidatorSet

variable {X : Externals} {env : BlockEnv} {op : Op} {vs vs' : ValidatorSet.Store} {w : World}
  {v : Address}

/-! ### What the changes do to registrations and delegations -/

variable {count count' : Nat}

theorem registered_of_removals (h : Removals X count vs count' vs')
    (hvs : ConsistentAt X vs count) {a : Address} (ha : Registered vs' a) : Registered vs a := by
  induction h with
  | nil => exact ha
  | cons hlo hhi hremoves _ ih =>
    have hmiddle := ih (consistentAt_of_removes hlo hhi hremoves hvs) ha
    exact ((registered_of_removes hlo hremoves hvs a).mp hmiddle).2

theorem delegates_of_removals (h : Removals X count vs count' vs') :
    vs'.delegates = vs.delegates := by
  induction h with
  | nil => rfl
  | cons _ _ hremoves _ ih => exact ih.trans hremoves.delegates

variable {x x' : View}

/-- A change leaves the delegations and registers nobody who is a delegate, or it is the write of
one of the two delegation calls. -/
theorem Change.delegates_cases (h : Change X env op x x') (hx : x.Consistent X) :
    (x'.store.delegates = x.store.delegates ∧ ∀ a r, Registered x'.store a →
      Registered x.store a ∨ x.store.delegates.reverse r a = 0) ∨
    (∃ sender role delegate, op = .setDelegate sender role delegate ∧
      Assigns sender.address role delegate x.store x'.store) ∨
    ∃ sender role, op = .revokeDelegate sender role ∧
      Revokes sender.address role x.store x'.store := by
  cases h with
  | commit h _ _ | restake h _ =>
    obtain ⟨hregistry, hdelegates, -⟩ := h.frame
    refine .inl ⟨hdelegates, fun a r ha => .inl ?_⟩
    rw [Registered, hregistry] at ha
    exact ha
  | count h =>
    obtain ⟨addr, missedBlocks, missedVotes, blocksProposed, -, rfl⟩ := h
    exact .inl ⟨rfl, fun a r ha => .inl ha⟩
  | @register addr _ _ _ _ h =>
    obtain ⟨hadmits, -, -, s, nodeId, -, rfl⟩ := h
    refine .inl ⟨rfl, fun a r ha => ?_⟩
    by_cases hadr : a = addr
    -- The new validator passed the check that it is nobody's delegate.
    · exact .inr (hadr ▸ hadmits.not_delegate r)
    · simp only [Registered, Registry.setRadicle, Registry.setKeyOwner, Registry.setIndex,
        update_of_ne hadr] at ha
      exact .inl ha
  | reregister h =>
    obtain ⟨-, -, -, -, -, -, rfl⟩ := h
    exact .inl ⟨rfl, fun a r ha => .inl ha⟩
  | cleanup h =>
    have hdelegates := delegates_of_removals h
    exact .inl ⟨hdelegates, fun a r ha => .inl (registered_of_removals h hx.1 ha)⟩
  | setDelegate hop h => exact .inr (.inl ⟨_, _, _, hop, h⟩)
  | revokeDelegate hop h => exact .inr (.inr ⟨_, _, hop, h⟩)
  | ocomp _ | openWindow _ _ | closeWindow _ _ => exact .inl ⟨rfl, fun a r ha => .inl ha⟩
  | quiet _ hregistry hdelegates _ =>
    refine .inl ⟨hdelegates, fun a r ha => .inl ?_⟩
    rw [Registered, hregistry] at ha
    exact ha

/-- A consistent registry whose delegations are one to one. -/
def View.Delegating (X : Externals) (x : View) : Prop :=
  x.Consistent X ∧ DelegatesBound x.store

theorem View.Delegating.change (h : Change X env op x x') (hx : x.Delegating X) :
    x'.Delegating X := by
  refine ⟨hx.1.change h, ?_⟩
  obtain ⟨hdelegates, hnew⟩ | ⟨sender, role, delegate, -, hassigns⟩ | ⟨sender, role, -, hrevokes⟩ :=
    h.delegates_cases hx.1
  · exact hx.2.of_registered hdelegates hnew
  · exact hassigns.delegatesBound sender.ne_zero hx.2
  · exact hrevokes.delegatesBound sender.ne_zero hx.2

theorem delegating_iff :
    (view w).Delegating X ↔ WorldConsistent X w ∧ DelegatesBound w.validatorSet :=
  and_congr worldConsistent_iff.symm Iff.rfl

theorem delegating_run (hw : (view w).Delegating X) (l : List (BlockEnv × Op)) :
    (view (run (step X) l w)).Delegating X :=
  run_inv (fun w => (view w).Delegating X)
    (fun _ _ _ h => inv_of_step View.Delegating.change h)
    (along_of_forall (fun _ _ => trivial) l w) hw

/-! ### Signers along a run -/

/-- What the delegations mean. Zero stands for "no address", so a binding is a statement about
non-zero validators. -/
structure SignersExact (X : Externals) (vs : ValidatorSet.Store) : Prop where
  /-- A validator has a delegate exactly when the delegate points back to it. -/
  bound : ∀ v r d, v ≠ 0 →
    ((getDelegate vs v r = d ∧ d ≠ 0) ↔ vs.delegates.validatorByRoleDelegate r d = v)
  /-- A registered validator is nobody's delegate. -/
  free : ∀ a r, Registered vs a → vs.delegates.validatorByRoleDelegate r a = 0
  /-- Exactly one address resolves to an active validator: itself without a delegate, and only the
  delegate otherwise. -/
  signer : ∀ v r, IsActive X vs v → ∀ a, resolveValidatorForRole X vs a r = .ok (some v) ↔
    a = if getDelegate vs v r = 0 then v else getDelegate vs v r
  active : ∀ v r a, resolveValidatorForRole X vs a r = .ok (some v) → IsActive X vs v
  /-- No address is the signer of two active validators. -/
  injective : ∀ v v' r, IsActive X vs v → IsActive X vs v' →
    ValidatorSet.signer vs v r = ValidatorSet.signer vs v' r → v = v'

theorem signersExact (hvs : Consistent X vs) (hd : DelegatesBound vs) : SignersExact X vs where
  bound v r d hv := hd.bound r v d hv
  free := hd.free
  signer v r hv a := by
    rw [resolveValidatorForRole_eq_some hvs hd]
    exact and_iff_right hv
  active v r a h := ((resolveValidatorForRole_eq_some hvs hd).mp h).1
  injective v v' r hv hv' heq := by
    -- The common signer resolves to both, and resolving is a function.
    have hsigner : resolveValidatorForRole X vs (ValidatorSet.signer vs v r) r = .ok (some v) :=
      (resolveValidatorForRole_eq_some hvs hd).mpr ⟨hv, rfl⟩
    rw [heq, (resolveValidatorForRole_eq_some hvs hd).mpr ⟨hv', rfl⟩] at hsigner
    simpa [eq_comm] using hsigner

/-- From a consistent genesis, after every run, each role binds validators to delegates one to one,
no registered validator is a delegate, and each active validator has exactly one signer. -/
theorem signers_of_run (hw : WorldConsistent X w) (hd : DelegatesBound w.validatorSet)
    (l : List (BlockEnv × Op)) : SignersExact X (run (step X) l w).validatorSet := by
  obtain ⟨hconsistent, hbound⟩ := delegating_iff.mp (delegating_run (delegating_iff.mpr ⟨hw, hd⟩) l)
  exact signersExact hconsistent.registry hbound

theorem delegatesBound_fresh (configOwner : Address) (configMinStake : Nat)
    (balance : Address → Nat) :
    DelegatesBound (World.fresh configOwner configMinStake balance).validatorSet where
  bound _ _ _ ha := ⟨fun h => absurd h.1.symm h.2, fun h => absurd h.symm ha⟩
  free _ _ ha := absurd rfl ha

/-- Alice joins, becomes active and names the address 3 as her oracle delegate. -/
def aliceDelegates : List (BlockEnv × Op) :=
  aliceJoins ++ [sampleBoundary 1 [alice.address], (sampleEnv, .setDelegate alice .oracle 3)]

theorem signers_of_alice :
    resolveValidatorForRole sampleExternals
        (run (step sampleExternals) aliceDelegates sampleGenesis).validatorSet 3 .oracle =
        .ok (some alice.address) ∧
      SignersExact sampleExternals
        (run (step sampleExternals) aliceDelegates sampleGenesis).validatorSet :=
  ⟨by decide +kernel,
    signers_of_run (worldConsistent_fresh sampleExternals 9 1 fun _ => 10)
      (delegatesBound_fresh 9 1 fun _ => 10) aliceDelegates⟩

/-! ### After a removal -/

/-- The address calls `setDelegate` nowhere in the run. -/
def NoDelegation (v : Address) (l : List (BlockEnv × Op)) : Prop :=
  ∀ i ∈ l, ∀ sender role delegate, i.2 = .setDelegate sender role delegate → sender.address ≠ v

/-- Nothing granted by `v` before its removal survives: `vs` is the validator set before, `w` the
world after. -/
structure CleanSlate (X : Externals) (v : Address) (vs : ValidatorSet.Store) (w : World) :
    Prop where
  record : validatorState X w.validatorSet v = .ok ⟨v, .absent⟩
  key : ∀ k, w.validatorSet.registry.consensusPubkeyHashToAddress k ≠ v
  /-- No delegation is stored. -/
  revoked : ∀ r, getDelegate w.validatorSet v r = 0 ∧
    ∀ d, w.validatorSet.delegates.validatorByRoleDelegate r d ≠ v
  /-- Until `v` names a delegate again, nobody else resolves to it, whatever happens. -/
  silent : ∀ l, NoDelegation v l → ∀ r d, d ≠ v →
    resolveValidatorForRole X (run (step X) l w).validatorSet d r ≠ .ok (some v)
  /-- Who was a delegate of `v` only passes the delegate check of a registration. -/
  registrable : ∀ d, (∀ r, vs.delegates.validatorByRoleDelegate r d = 0 ∨
      vs.delegates.validatorByRoleDelegate r d = v) →
    Ok (ensureNotOperationalDelegate d) w.validatorSet () w.validatorSet

theorem ok_ensureNotOperationalDelegate {d : Address} :
    Ok (ensureNotOperationalDelegate d) vs () vs ↔
      ∀ r, vs.delegates.validatorByRoleDelegate r d = 0 := by
  simp only [ensureNotOperationalDelegate, ValidatorDelegateRole.all, forM_eq_forM,
    forM_cons, forM_nil, rules, and_true]
  refine ⟨fun h r => ?_, fun h => ⟨h .oracle, h .ocomp⟩⟩
  cases r
  · exact h.1
  · exact h.2

/-- A validator without delegates has none until it names one. -/
theorem View.undelegated_change (h : Change X env op x x')
    (hop : ∀ sender role delegate, op = .setDelegate sender role delegate → sender.address ≠ v)
    (hx : x.Delegating X ∧ ∀ r, x.store.delegates.forward r v = 0) :
    x'.Delegating X ∧ ∀ r, x'.store.delegates.forward r v = 0 := by
  refine ⟨hx.1.change h, fun r => ?_⟩
  obtain ⟨hdelegates, -⟩ | ⟨sender, role, delegate, hset, -, -, -, -, hstore⟩ |
    ⟨sender, role, -, -, hbound, hstore⟩ := h.delegates_cases hx.1.1
  · rw [hdelegates]
    exact hx.2 r
  · have hne := (hop sender role delegate hset).symm
    rw [hstore]
    by_cases hr : r = role
    · subst hr
      split <;> simp [hne, hx.2 r]
    · split <;> simp [Delegates.forward_setForward_of_ne _ hr, hx.2 r]
  -- A revocation needs a delegate, which `v` does not have.
  · rw [hstore]
    have hne : v ≠ sender.address := by
      rintro rfl
      exact hbound (hx.2 role)
    by_cases hr : r = role
    · subst hr
      simp [hne, hx.2 r]
    · simp [Delegates.forward_setForward_of_ne _ hr, hx.2 r]

theorem undelegated_run (hw : (view w).Delegating X)
    (hnone : ∀ r, w.validatorSet.delegates.forward r v = 0) {l : List (BlockEnv × Op)}
    (hl : NoDelegation v l) : ∀ r, (run (step X) l w).validatorSet.delegates.forward r v = 0 := by
  induction l generalizing w with
  | nil => exact hnone
  | cons i l ih =>
    obtain ⟨env, op⟩ := i
    have hstep : (view (step X (env, op) w)).Delegating X ∧
        ∀ r, (view (step X (env, op) w)).store.delegates.forward r v = 0 :=
      inv_of_step (fun hchange => View.undelegated_change hchange (hl _ mem_cons_self)) ⟨hw, hnone⟩
    exact ih hstep.1 hstep.2 fun j hj => hl j (mem_cons_of_mem _ hj)

/-- A cleanup leaves the delegations as they are. -/
theorem delegates_cleanup (hw : (view w).Consistent X) (env : BlockEnv) (maxRemovals : Nat) :
    (step X (env, .cleanupInactiveValidators maxRemovals) w).validatorSet.delegates =
      w.validatorSet.delegates := by
  have hstep : (view (step X (env, .cleanupInactiveValidators maxRemovals) w)).Consistent X ∧
      (view (step X (env, .cleanupInactiveValidators maxRemovals) w)).store.delegates =
        w.validatorSet.delegates := by
    refine inv_of_step (I := fun x => x.Consistent X ∧ x.store.delegates = w.validatorSet.delegates)
      (fun hchange hx => ⟨hx.1.change hchange, ?_⟩) ⟨hw, rfl⟩
    obtain ⟨hdelegates, -⟩ | ⟨_, _, _, hop, -⟩ | ⟨_, _, hop, -⟩ := hchange.delegates_cases hx.1
    · exact hdelegates.trans hx.2
    · cases hop
    · cases hop
  exact hstep.2

/-- A cleanup that removes a validator leaves a clean slate exactly when the validator had no
explicit delegate for any role. -/
theorem cleanSlate_iff (hw : WorldConsistent X w) (hd : DelegatesBound w.validatorSet)
    (env : BlockEnv) (maxRemovals : Nat) (hregistered : Registered w.validatorSet v)
    (hremoved : ¬ Registered
      (step X (env, .cleanupInactiveValidators maxRemovals) w).validatorSet v) :
    CleanSlate X v w.validatorSet (step X (env, .cleanupInactiveValidators maxRemovals) w) ↔
      ∀ r, getDelegate w.validatorSet v r = 0 := by
  have hbefore : (view w).Delegating X := delegating_iff.mpr ⟨hw, hd⟩
  have hafter : (view (step X (env, .cleanupInactiveValidators maxRemovals) w)).Delegating X :=
    inv_of_step View.Delegating.change hbefore
  have hdelegates := delegates_cleanup hbefore.1 env maxRemovals
  have hne : v ≠ 0 := by
    rintro rfl
    exact hw.registry.zero hregistered
  generalize step X (env, .cleanupInactiveValidators maxRemovals) w = w' at *
  have hconsistent := (worldConsistent_iff.mpr hafter.1).registry
  constructor
  -- The stored delegation itself is what survives.
  · intro h r
    rw [getDelegate, ← hdelegates]
    exact (h.revoked r).1
  · intro hnone
    have hforward : ∀ r, w'.validatorSet.delegates.forward r v = 0 := by
      intro r
      rw [hdelegates]
      exact hnone r
    have hreverse : ∀ r d, w'.validatorSet.delegates.reverse r d ≠ v := by
      intro r d hback
      have hbound := (hafter.2.bound r v d hne).mpr hback
      exact hbound.2 (hbound.1.symm.trans (hforward r))
    refine ⟨?_, ?_, fun r => ⟨hforward r, hreverse r⟩, ?_, ?_⟩
    · obtain ⟨⟨a, l⟩, hread⟩ := hconsistent.reads v
      obtain rfl : a = v := validatorState_address hread
      have habsent : l = .absent := not_not.mp (mt (registered_iff hread).mpr hremoved)
      rw [hread, habsent]
    · intro k hkey
      exact hremoved ((hconsistent.owner k v hne).mp hkey).1
    · intro l hl r d hdv hresolves
      have hrun := delegating_run hafter l
      have hsigner := ((resolveValidatorForRole_eq_some
        (worldConsistent_iff.mpr hrun.1).registry hrun.2).mp hresolves).2
      rw [signer, if_pos (undelegated_run hafter hforward hl r)] at hsigner
      exact hdv hsigner
    · intro d hd
      refine ok_ensureNotOperationalDelegate.mpr fun r => ?_
      have hback : w'.validatorSet.delegates.validatorByRoleDelegate r d ≠ v := hreverse r d
      rw [hdelegates] at hback ⊢
      exact (hd r).resolve_right hback

/-- Alice, active with a delegate, leaves and is cleaned up. -/
def aliceLeaves : List (BlockEnv × Op) :=
  [(sampleEnv, .deactivateValidator alice alice.address), sampleBoundary 2 [],
    (sampleEnv, .processUnbonding 1), ({ sampleEnv with timestamp := 10 ^ 7 }, .claimUnbonded alice)]

/-- Without the delegation the slate is clean. -/
theorem cleanSlate_of_alice :
    CleanSlate sampleExternals alice.address
      (run (step sampleExternals) (aliceJoins ++ sampleBoundary 1 [alice.address] ::
        aliceLeaves) sampleGenesis).validatorSet
      (step sampleExternals (sampleEnv, .cleanupInactiveValidators 0)
        (run (step sampleExternals) (aliceJoins ++ sampleBoundary 1 [alice.address] ::
          aliceLeaves) sampleGenesis)) := by
  have hgenesis : (view sampleGenesis).Delegating sampleExternals :=
    delegating_iff.mpr ⟨worldConsistent_fresh sampleExternals 9 1 fun _ => 10,
      delegatesBound_fresh 9 1 fun _ => 10⟩
  obtain ⟨hconsistent, hbound⟩ := delegating_iff.mp (delegating_run hgenesis
    (aliceJoins ++ sampleBoundary 1 [alice.address] :: aliceLeaves))
  refine (cleanSlate_iff hconsistent hbound sampleEnv 0 ?_ ?_).mpr fun r => ?_
  · decide +kernel
  · decide +kernel
  · cases r <;> decide +kernel

/-- The delegate Alice named before her removal still blocks the registration of its address, and
signs for her again as soon as she is active again, without a new call of `setDelegate`. -/
theorem delegate_survives_removal :
    ¬ Registered (run (step sampleExternals) (aliceDelegates ++ aliceLeaves ++
        [(sampleEnv, .cleanupInactiveValidators 0)]) sampleGenesis).validatorSet alice.address ∧
      ((ensureNotOperationalDelegate 3).run (run (step sampleExternals) (aliceDelegates ++
        aliceLeaves ++ [(sampleEnv, .cleanupInactiveValidators 0)]) sampleGenesis).validatorSet).1 =
        .error (.revert "validator address is already assigned as an operational delegate") ∧
      resolveValidatorForRole sampleExternals (run (step sampleExternals) (aliceDelegates ++
        aliceLeaves ++ [(sampleEnv, .cleanupInactiveValidators 0)] ++ aliceJoins ++
          [sampleBoundary 3 [alice.address]]) sampleGenesis).validatorSet 3 .oracle =
        .ok (some alice.address) :=
  ⟨by decide +kernel, by decide +kernel, by decide +kernel⟩

end Rudis
