import Rudis.Proofs.ValidatorSet.Registry

/-!
# `Rudis.Proofs.ValidatorSet.Delegates`: operational delegates and their signers

The delegate maps are written by `setDelegate` and `revokeDelegate` alone (`Assigns`, `Revokes`).
`DelegatesBound` is the invariant: for each role the forward and the reverse map bind validators
to delegates one to one, and no registered validator is a delegate. With a consistent registry it
gives every active validator exactly one signer per role (`resolveValidatorForRole_eq_some`).
-/

namespace Rudis.ValidatorSet

open Tx Option ValidatorLifecycle

variable {X : Externals} {vs vs' : Store} {v d a : Address} {role : ValidatorDelegateRole}
  {u : Unit}

/-! ### The two calls -/

variable (D : Delegates)

/-- The delegates with one forward entry written. -/
def Delegates.setForward (v : Address) (role : ValidatorDelegateRole) (d : Address) : Delegates :=
  { D with
    delegateByValidatorRole := update D.delegateByValidatorRole v
      (update (D.delegateByValidatorRole v) role d) }

/-- The delegates with one reverse entry written. -/
def Delegates.setReverse (role : ValidatorDelegateRole) (d v : Address) : Delegates :=
  { D with
    validatorByRoleDelegate := update D.validatorByRoleDelegate role
      (update (D.validatorByRoleDelegate role) d v) }

def Delegates.forward (role : ValidatorDelegateRole) (v : Address) : Address :=
  D.delegateByValidatorRole v role

def Delegates.reverse (role : ValidatorDelegateRole) : Address → Address :=
  D.validatorByRoleDelegate role

@[simp] theorem Delegates.forward_setForward_self :
    (D.setForward v role d).forward role = update (D.forward role) v d := by
  funext x
  by_cases hx : x = v
  · subst hx
    simp [Delegates.forward, Delegates.setForward]
  · simp [Delegates.forward, Delegates.setForward, hx]

@[simp] theorem Delegates.reverse_setForward : (D.setForward v role d).reverse = D.reverse := rfl

variable {r : ValidatorDelegateRole}

theorem Delegates.forward_setForward_of_ne
    (h : r ≠ role) : (D.setForward v role d).forward r = D.forward r := by
  funext x
  by_cases hx : x = v
  · subst hx
    simp [Delegates.forward, Delegates.setForward, h]
  · simp [Delegates.forward, Delegates.setForward, hx]

@[simp] theorem Delegates.reverse_setReverse_self :
    (D.setReverse role d v).reverse role = update (D.reverse role) d v := by
  simp [Delegates.reverse, Delegates.setReverse]

@[simp] theorem Delegates.forward_setReverse : (D.setReverse role d v).forward = D.forward := rfl

theorem Delegates.reverse_setReverse_of_ne
    (h : r ≠ role) : (D.setReverse role d v).reverse r = D.reverse r := by
  simp [Delegates.reverse, Delegates.setReverse, h]

/-- A delegate was assigned to a registered validator. -/
structure Assigns (v : Address) (role : ValidatorDelegateRole) (d : Address) (vs vs' : Store) :
    Prop where
  registered : Registered vs v
  ne_zero : d ≠ 0
  not_registered : ¬ Registered vs d
  free : vs.delegates.reverse role d = 0 ∨ vs.delegates.reverse role d = v
  store : vs' = { vs with delegates :=
    ((if vs.delegates.forward role v ≠ 0 then
        vs.delegates.setReverse role (vs.delegates.forward role v) 0
      else vs.delegates).setForward v role d).setReverse role d v }

/-- The delegate of a registered validator was revoked. -/
structure Revokes (v : Address) (role : ValidatorDelegateRole) (vs vs' : Store) : Prop where
  registered : Registered vs v
  bound : vs.delegates.forward role v ≠ 0
  store : vs' = { vs with delegates :=
    (vs.delegates.setForward v role 0).setReverse role (vs.delegates.forward role v) 0 }

/-- Whether a record is returned tells whether the address is registered. -/
theorem getValidator_eq_none {record : Option ValidatorRecord}
    (h : getValidator X vs a = .ok record) : record = none ↔ ¬ Registered vs a := by
  unfold getValidator at h
  unfold Registered
  split at h
  · rename_i hzero
    cases h
    simp [hzero]
  · rename_i hne
    obtain ⟨r, _, rfl⟩ := map_eq_ok.mp h
    simp [hne]

theorem setDelegate_cases (h : Ok (setDelegate X v role d) vs u vs') :
    vs' = vs ∨ Assigns v role d vs vs' := by
  simp only [setDelegate, ensureRegisteredValidator, getDelegate, writeForward, writeReverse,
    rules, ok_when, ↓existsAndEq] at h
  obtain ⟨record, hrecord, hsome, hd, _, record', hrecord', hnone, hfree, h⟩ := h
  obtain ⟨_, vs₁, hprev, rfl⟩ | ⟨_, rfl⟩ := h
  · rw [isNone_iff_eq_none, getValidator_eq_none hrecord, not_not] at hsome
    rw [not_isSome_iff_eq_none, getValidator_eq_none hrecord'] at hnone
    refine .inr ⟨hsome, hd, hnone, ?_, ?_⟩
    · by_contra hother
      rw [not_or] at hother
      exact hfree hother
    · obtain ⟨hp, hvs₁⟩ | ⟨hp, hvs₁⟩ := hprev
      · rw [hvs₁, if_pos (show vs.delegates.forward role v ≠ 0 from hp)]
        rfl
      · rw [hvs₁, if_neg (show ¬ vs.delegates.forward role v ≠ 0 from not_not.mpr hp)]
        rfl
  · exact .inl rfl

theorem revokeDelegate_cases (h : Ok (revokeDelegate X v role) vs u vs') :
    vs' = vs ∨ Revokes v role vs vs' := by
  simp only [revokeDelegate, ensureRegisteredValidator, getDelegate, writeForward, writeReverse,
    rules, ok_when, ↓existsAndEq] at h
  obtain ⟨record, hrecord, hsome, ⟨hbound, rfl⟩ | ⟨_, rfl⟩⟩ := h
  · rw [isNone_iff_eq_none, getValidator_eq_none hrecord, not_not] at hsome
    exact .inr ⟨hsome, hbound, rfl⟩
  · exact .inl rfl

/-! ### The invariant -/

/-- For each role the maps bind validators to delegates one to one, and no registered validator
is anyone's delegate. -/
structure DelegatesBound (vs : Store) : Prop where
  bound : ∀ r, Bound (vs.delegates.forward r) (vs.delegates.reverse r)
  free : ∀ a r, Registered vs a → vs.delegates.reverse r a = 0

theorem Assigns.delegatesBound (h : Assigns v role d vs vs') (hv : v ≠ 0)
    (hinv : DelegatesBound vs) : DelegatesBound vs' := by
  obtain ⟨_, hd, hdreg, hfree, rfl⟩ := h
  have hreverse : ∀ x, x ≠ d → vs.delegates.reverse role x = 0 →
      ((if vs.delegates.forward role v ≠ 0 then
        vs.delegates.setReverse role (vs.delegates.forward role v) 0
      else vs.delegates)).reverse role x = 0 := by
    intro x _ hx
    split
    · by_cases hxp : x = vs.delegates.forward role v
      · simp [hxp]
      · simp [hxp, hx]
    · exact hx
  refine ⟨fun r => ?_, fun a r ha => ?_⟩
  · by_cases hr : r = role
    · subst hr
      have hassign := (hinv.bound r).assign hv hd hfree
      split
      · rename_i hprev
        rw [if_pos hprev] at hassign
        simpa using hassign
      · rename_i hprev
        rw [if_neg hprev] at hassign
        simpa using hassign
    · have hother := hinv.bound r
      split <;> simpa [Delegates.reverse_setReverse_of_ne _ hr,
        Delegates.forward_setForward_of_ne _ hr] using hother
  · have had : a ≠ d := by
      rintro rfl
      exact hdreg ha
    have hzero := hinv.free a r ha
    by_cases hr : r = role
    · subst hr
      simpa [had] using hreverse a had hzero
    · split <;> simpa [Delegates.reverse_setReverse_of_ne _ hr] using hzero

theorem Revokes.delegatesBound (h : Revokes v role vs vs') (hv : v ≠ 0)
    (hinv : DelegatesBound vs) : DelegatesBound vs' := by
  obtain ⟨_, hbound, rfl⟩ := h
  refine ⟨fun r => ?_, fun a r ha => ?_⟩
  · by_cases hr : r = role
    · subst hr
      simpa using (hinv.bound r).release hv hbound
    · simpa [Delegates.reverse_setReverse_of_ne _ hr, Delegates.forward_setForward_of_ne _ hr]
        using hinv.bound r
  · have hzero := hinv.free a r ha
    by_cases hr : r = role
    · subst hr
      by_cases hap : a = vs.delegates.forward r v
      · simp [hap]
      · simpa [hap] using hzero
    · simpa [Delegates.reverse_setReverse_of_ne _ hr] using hzero

/-- A call that leaves the delegates and registers nobody who is a delegate keeps the
invariant. -/
theorem DelegatesBound.of_registered (hinv : DelegatesBound vs)
    (hdelegates : vs'.delegates = vs.delegates)
    (hnew : ∀ a r, Registered vs' a → Registered vs a ∨ vs.delegates.reverse r a = 0) :
    DelegatesBound vs' := by
  refine ⟨fun r => hdelegates ▸ hinv.bound r, fun a r ha => ?_⟩
  rw [hdelegates]
  rcases hnew a r ha with hold | hfree
  · exact hinv.free a r hold
  · exact hfree

/-! ### Signers -/

/-- Whether an address is an active validator. -/
def IsActive (X : Externals) (vs : Store) (a : Address) : Prop :=
  ∃ s, validatorState X vs a = .ok ⟨a, .active s⟩

/-- The address that signs for a validator: its delegate, or itself when it has none. -/
def signer (vs : Store) (v : Address) (role : ValidatorDelegateRole) : Address :=
  if vs.delegates.forward role v = 0 then v else vs.delegates.forward role v

theorem getValidator_of_not_registered (h : ¬ Registered vs a) :
    getValidator X vs a = .ok none := if_pos (not_not.mp h)

/-- The record of a registered validator shows whether it is active. -/
theorem getValidator_of_registered (hvs : Consistent X vs) (h : Registered vs a) :
    ∃ record, getValidator X vs a = .ok (some record) ∧
      ((record.status = statusActive ∧ record.hasBlsShare = true) ↔ IsActive X vs a) := by
  obtain ⟨⟨addr, l⟩, hread⟩ := hvs.reads a
  obtain rfl : addr = a := validatorState_address hread
  have hl := (registered_iff hread).mp h
  obtain ⟨p, hp⟩ := Option.ne_none_iff_exists'.mp
    fun hnone => hl (payload_eq_none.mp hnone)
  obtain ⟨record, hrecord, -, hstatus, hshare⟩ := readValidatorRecord_of_read hread hp
  refine ⟨record, ?_, ?_⟩
  · unfold getValidator
    rw [if_neg h, hrecord]
    rfl
  · rw [hshare, IsActive]
    simp only [hread, Except.ok.injEq, ValidatorState.mk.injEq, true_and]
    cases l <;> simp only [storedStatus, Option.some.injEq, reduceCtorEq] at hstatus
    all_goals simp [← hstatus, hasBlsShare, statusRegistered, statusPending,
      statusActive, statusExiting, statusUnbonding, statusInactive, statusJailed]

theorem IsActive.registered (h : IsActive X vs a) : Registered vs a := by
  obtain ⟨s, hs⟩ := h
  exact (registered_iff hs).mpr nofun

/-- A registered signer speaks for itself, as long as it is active and has no delegate. -/
theorem resolveValidatorForRole_registered (hvs : Consistent X vs) (h : Registered vs a) :
    resolveValidatorForRole X vs a role = .ok (some v) ↔
      v = a ∧ IsActive X vs a ∧ vs.delegates.forward role a = 0 := by
  obtain ⟨record, hrecord, hactive⟩ := getValidator_of_registered hvs h
  have heq : resolveValidatorForRole X vs a role =
      if vs.delegates.forward role a = 0 ∧ record.status = statusActive ∧ record.hasBlsShare then
        .ok (some a) else .ok none := by
    rw [resolveValidatorForRole, hrecord]
    rfl
  rw [heq, ← hactive]
  split
  · rename_i hcond
    simp [hcond, eq_comm]
  · rename_i hcond
    simp only [Except.ok.injEq, reduceCtorEq, false_iff]
    rintro ⟨-, hactive, hforward⟩
    exact hcond ⟨hforward, hactive⟩

/-- Another signer speaks for the active validator it is the delegate of. -/
theorem resolveValidatorForRole_delegate (hvs : Consistent X vs) (h : ¬ Registered vs a) :
    resolveValidatorForRole X vs a role = .ok (some v) ↔
      v = vs.delegates.reverse role a ∧ IsActive X vs v ∧ vs.delegates.forward role v = a := by
  rw [resolveValidatorForRole, getValidator_of_not_registered h]
  show (if vs.delegates.reverse role a = 0 ∨
      vs.delegates.forward role (vs.delegates.reverse role a) ≠ a then .ok none
    else (getValidator X vs (vs.delegates.reverse role a) >>= _)) = _ ↔ _
  split
  · rename_i hcond
    simp only [Except.ok.injEq, reduceCtorEq, false_iff]
    rintro ⟨rfl, hv, hforward⟩
    rcases hcond with hzero | hne
    · exact hvs.zero (hzero ▸ hv.registered)
    · exact hne hforward
  · rename_i hcond
    rw [not_or, not_not] at hcond
    by_cases hreg : Registered vs (vs.delegates.reverse role a)
    · obtain ⟨record, hrecord, hactive⟩ := getValidator_of_registered hvs hreg
      simp only [hrecord, bind_eq_ok, Except.ok.injEq, exists_eq_left']
      split
      · rename_i hnot
        simp only [pure_eq_ok, reduceCtorEq, false_iff]
        rintro ⟨rfl, hv, -⟩
        obtain ⟨hstatus, hshare⟩ := hactive.mpr hv
        simp [hstatus, hshare] at hnot
      · rename_i hok
        rw [not_or, not_not, Bool.not_eq_false] at hok
        simp only [pure_eq_ok, Option.some.injEq]
        refine ⟨?_, fun hv => hv.1⟩
        rintro rfl
        exact ⟨rfl, hactive.mp hok, hcond.2⟩
    · simp only [getValidator_of_not_registered hreg, laws, Except.ok.injEq,
        exists_eq_left', reduceCtorEq, false_iff]
      rintro ⟨rfl, hv, -⟩
      exact hreg hv.registered

/-- Who resolves to whom: the signer of an active validator to that validator, nobody else to
anyone. -/
theorem resolveValidatorForRole_eq_some (hvs : Consistent X vs) (hd : DelegatesBound vs) :
    resolveValidatorForRole X vs a role = .ok (some v) ↔
      IsActive X vs v ∧ a = signer vs v role := by
  have hzero : IsActive X vs v → v ≠ 0 := by
    rintro hv rfl
    exact hvs.zero hv.registered
  unfold signer
  by_cases hreg : Registered vs a
  · rw [resolveValidatorForRole_registered hvs hreg]
    refine ⟨?_, ?_⟩
    · rintro ⟨rfl, hv, hforward⟩
      exact ⟨hv, by rw [if_pos hforward]⟩
    · rintro ⟨hv, ha⟩
      split at ha
      · rename_i hforward
        exact ⟨ha.symm, ha ▸ hv, ha ▸ hforward⟩
      · rename_i hforward
        -- A registered address is nobody's delegate.
        have hback := (hd.bound role).back (hzero hv) hforward
        rw [← ha, hd.free a role hreg] at hback
        exact absurd hback.symm (hzero hv)
  · rw [resolveValidatorForRole_delegate hvs hreg]
    refine ⟨?_, ?_⟩
    · rintro ⟨hback, hv, hforward⟩
      have hbound := (hd.bound role v a (hzero hv)).mpr hback.symm
      rw [if_neg (hforward ▸ hbound.2)]
      exact ⟨hv, hforward.symm⟩
    · rintro ⟨hv, ha⟩
      split at ha
      · exact absurd (ha ▸ hv.registered) hreg
      · rename_i hforward
        refine ⟨?_, hv, ha.symm⟩
        rw [ha]
        exact ((hd.bound role).back (hzero hv) hforward).symm

end Rudis.ValidatorSet
