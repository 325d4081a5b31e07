import Rudis.Spec.Oracle.SlashWindow
import Rudis.Proofs.Punishment

/-!
# `Rudis.Proofs.Oracle.SlashWindow`: whom the slash window reaches

The window walks the registered validators in index order and gives up at the first one it
cannot punish, so one validator's state decides about everybody's window. `Punishable` says which
states the punishment accepts; `window_iff` proves that the window does its work, that is, it
succeeds, resets every counter and jails and slashes every active underperformer, exactly when
every underperformer is in such a state. A validator that was jailed and unjailed is `PENDING`,
keeps its counters and is not (`pending_blocks_window`).
-/

namespace Rudis.Oracle

open Staking (slashStake Solvent ledger Queue QueueFits)
open List
open Tx
open ValidatorSet (ValidatorLifecycle validatorState Registered validatorState_congr Consistent Registry)

variable {X : Externals} {env : BlockEnv} {s s' : State} {u : Unit} {w w' : World}
  {addr : Address}

/-! ### One punishment -/

/-- The window slashes on top of jailing. -/
def Slashes (fraction : Nat) : Prop := fraction ≠ 0 ∧ slashPercent fraction > 0

instance (fraction : Nat) : Decidable (Slashes fraction) := inferInstanceAs (Decidable (_ ∧ _))

/-- The punishment accepts a state: it can be jailed and, where a slash follows, the state has
stake and the new withdrawal time fits. -/
def Punishable (env : BlockEnv) (fraction : Nat) (staking : Staking.Store)
    (l : ValidatorLifecycle) : Prop :=
  Jailable l ∧ (Slashes fraction → SlashTimeFits env staking ∧ ∀ i, l ≠ .inactive i)

variable {l : ValidatorLifecycle}

theorem settled_jailed {height : Nat} (hl : Jailable l)
    (hinactive : ∀ i, l ≠ .inactive i) : Settled (jailed height l) := by
  cases l with
  | inactive i => exact absurd rfl (hinactive i)
  | absent | waitingForStake p | waitingForReadiness p | joining p => exact hl.elim
  | active p | jailRetained p | jail p | exiting p | unbonding p => trivial

variable {fraction : Nat}

/-- A fraction of at most one is a percentage. -/
theorem slashPercent_le (h : fraction ≤ scale1e18) : slashPercent fraction ≤ 100 := by
  have hmul : wrappingMul 256 fraction 100 ≤ fraction * 100 := mod_le _ _
  unfold slashPercent
  unfold scale1e18 at h ⊢
  omega

theorem slashPercent_eq_zero (h : ¬ Slashes fraction) : slashPercent fraction = 0 := by
  by_cases hzero : fraction = 0
  · rw [hzero]
    rfl
  · exact Nat.eq_zero_of_not_pos fun hpos => h ⟨hzero, hpos⟩

theorem ok_punishUnderperformer :
    Ok (punishUnderperformer X env fraction addr) w u w' ↔
      ∃ vs, Ok (ValidatorSet.jailValidator X env addr) w.validatorSet () vs ∧
        ((Slashes fraction ∧ ∃ total, Ok (slashStake X env addr (slashPercent fraction))
            { w with validatorSet := vs } total w') ∨
          (¬ Slashes fraction ∧ w' = { w with validatorSet := vs })) := by
  simp only [punishUnderperformer, Staking.onValidatorSet, rules, ok_zoom, ok_when, ok_map,
    ↓existsAndEq, and_true, Slashes]

/-- A punishable state is punished. -/
theorem punish_succeeds {lists : Address → List Nat}
    (hread : validatorState X w.validatorSet addr = .ok ⟨addr, l⟩)
    (hs : Solvent (ledger w) lists) (hheight : env.blockNumber ≠ 0)
    (hfraction : fraction ≤ scale1e18) (h : Punishable env fraction w.staking l) :
    ∃ w', Ok (punishUnderperformer X env fraction addr) w () w' := by
  obtain ⟨vs, hjail⟩ := (jails_iff (u := ()) hread hheight).1.mp h.1
  by_cases hslash : Slashes fraction
  · obtain ⟨hfits, hinactive⟩ := h.2 hslash
    have hread' := (jails_iff hread hheight).2 vs hjail
    obtain ⟨total, w', hok⟩ : ∃ total w', Ok (slashStake X env addr
        (slashPercent fraction)) { w with validatorSet := vs } total w' :=
      slashStake_succeeds hread' (settled_jailed h.1 hinactive) hs (slashPercent_le hfraction) hfits
    exact ⟨w', ok_punishUnderperformer.mpr ⟨vs, hjail, .inl ⟨hslash, total, hok⟩⟩⟩
  · exact ⟨_, ok_punishUnderperformer.mpr ⟨vs, hjail, .inr ⟨hslash, rfl⟩⟩⟩

/-- What a punishment has required, and what it leaves. -/
structure Punished (X : Externals) (env : BlockEnv) (fraction : Nat) (addr : Address)
    (l : ValidatorLifecycle) (w w' : World) : Prop where
  punishable : Punishable env fraction w.staking l
  registry : w'.validatorSet.registry = w.validatorSet.registry
  val : ∀ a, a ≠ addr → w'.validatorSet.val a = w.validatorSet.val a
  stake : ∀ a, a ≠ addr → w'.staking.stakeAmount a = w.staking.stakeAmount a
  delay : w'.staking.slashedWithdrawalDelay = w.staking.slashedWithdrawalDelay
  slashed : w'.staking.stakeAmount addr = w.staking.stakeAmount addr -
    wrappingMul 256 (w.staking.stakeAmount addr) (slashPercent fraction) / 100
  jailed : ∀ p, l = .active p → ∃ j, j.jailedAt = env.blockNumber ∧
    validatorState X w'.validatorSet addr = .ok ⟨addr, .jailRetained j⟩

theorem punished_of_ok (hread : validatorState X w.validatorSet addr = .ok ⟨addr, l⟩)
    (hheight : env.blockNumber ≠ 0) (h : Ok (punishUnderperformer X env fraction addr) w u w') :
    Punished X env fraction addr l w w' := by
  obtain ⟨vs, hjail, hrest⟩ := ok_punishUnderperformer.mp h
  have hjailable : Jailable l := (jails_iff (u := ()) hread hheight).1.mpr ⟨vs, hjail⟩
  have hread' := (jails_iff hread hheight).2 vs hjail
  obtain ⟨hregistry, hval⟩ := jailValidator_frame hjail
  rcases hrest with ⟨hslash, total, hok⟩ | ⟨hslash, rfl⟩
  · obtain ⟨hfits, hinactive, hamount, hsettled⟩ := slashStake_read hread' hok
    obtain ⟨hregistry', hval', hstake', hdelay', -⟩ := slashStake_frame hok
    have hinactive : ∀ i, l ≠ .inactive i := by
      rintro i rfl
      exact hinactive i rfl
    refine ⟨⟨hjailable, fun _ => ⟨hfits, hinactive⟩⟩, hregistry'.trans hregistry,
      fun a ha => (hval' a ha).trans (hval a ha), hstake', hdelay', hamount, ?_⟩
    rintro p rfl
    refine ⟨_, ?_, hsettled (settled_jailed hjailable hinactive)⟩
    rfl
  · refine ⟨⟨hjailable, fun hs => absurd hs hslash⟩, hregistry, hval, fun _ _ => rfl, rfl, ?_, ?_⟩
    · show w.staking.stakeAmount addr = _
      rw [slashPercent_eq_zero hslash, wrappingMul, Nat.mul_zero, Nat.zero_mod, Nat.zero_div,
        Nat.sub_zero]
    · rintro p rfl
      exact ⟨_, rfl, hread'⟩

theorem punish_consistent (hw : WorldConsistent X w)
    (h : Ok (punishUnderperformer X env fraction addr) w u w') : WorldConsistent X w' := by
  obtain ⟨vs, hjail, hrest⟩ := ok_punishUnderperformer.mp h
  have hw' := jailValidator_consistent hw hjail
  rcases hrest with ⟨_, total, hok⟩ | ⟨_, rfl⟩
  · exact slashStake_consistent hw' hok
  · exact hw'

theorem punish_solvent {lists : Address → List Nat} (hs : Solvent (ledger w) lists)
    (h : Ok (punishUnderperformer X env fraction addr) w u w') :
    ∃ lists', Solvent (ledger w') lists' := by
  obtain ⟨vs, hjail, hrest⟩ := ok_punishUnderperformer.mp h
  rcases hrest with ⟨_, total, hok⟩ | ⟨_, rfl⟩
  · exact (Staking.moves_slashStake hok).solvent hs hs.books.queue.count_lt
  · exact ⟨lists, hs⟩

/-! ### One round -/

/-- The validator is not protected, has voted or missed in the window, and its success share is
below the minimum. -/
def Underperforms (s : Store) (addr : Address) : Prop :=
  ¬ (s.configAllowProtected = true ∧ s.protectedValidator addr = true) ∧
    (s.penalty addr).total ≠ 0 ∧ (s.penalty addr).validRate < s.configMinValidPerWindow

instance (s : Store) (addr : Address) : Decidable (Underperforms s addr) :=
  inferInstanceAs (Decidable (_ ∧ _ ∧ _))

theorem ok_slashRound :
    Ok (slashRound X env s.store.configMinValidPerWindow s.store.configAllowProtected addr)
        s u s' ↔
      (¬ Underperforms s.store addr ∧ s' = { s with store := s.store.resetPenaltyCounter addr }) ∨
        (Underperforms s.store addr ∧ ∃ w',
          Ok (punishUnderperformer X env s.store.configSlashFraction addr) s.world () w' ∧
            s' = ⟨w', s.store.resetPenaltyCounter addr⟩) := by
  simp only [slashRound, writeStore, onWorld, rules, ok_ite, ok_zoom, ↓existsAndEq, Underperforms]
  grind

/-! ### The walk -/

/-- An active underperformer has been jailed at this height and slashed. -/
def Penalized (X : Externals) (env : BlockEnv) (s₀ s : State) (a : Address) : Prop :=
  (∃ j, j.jailedAt = env.blockNumber ∧
    validatorState X s.world.validatorSet a = .ok ⟨a, .jailRetained j⟩) ∧
  s.world.staking.stakeAmount a = s₀.world.staking.stakeAmount a -
    wrappingMul 256 (s₀.world.staking.stakeAmount a)
      (slashPercent s₀.store.configSlashFraction) / 100

/-- Every underperformer among the given addresses is in a state that can be punished. -/
def AllPunishable (X : Externals) (env : BlockEnv) (s : State) (addresses : List Address) : Prop :=
  ∀ a ∈ addresses, Underperforms s.store a →
    ∀ l, validatorState X s.world.validatorSet a = .ok ⟨a, l⟩ →
      Punishable env s.store.configSlashFraction s.world.staking l

/-- Where the walk stands after the addresses in `seen`: the others are as they were. -/
structure Walked (X : Externals) (env : BlockEnv) (s₀ : State) (seen : List Address) (s : State) :
    Prop where
  consistent : WorldConsistent X s.world
  solvent : ∃ lists, Solvent (ledger s.world) lists
  registry : s.world.validatorSet.registry = s₀.world.validatorSet.registry
  config : s.store = { s₀.store with penalty := s.store.penalty }
  delay : s.world.staking.slashedWithdrawalDelay = s₀.world.staking.slashedWithdrawalDelay
  unseen : ∀ a, a ∉ seen → s.world.validatorSet.val a = s₀.world.validatorSet.val a ∧
    s.world.staking.stakeAmount a = s₀.world.staking.stakeAmount a ∧
    s.store.penalty a = s₀.store.penalty a
  reset : ∀ a ∈ seen, s.store.penalty a = ⟨0, 0, 0⟩
  punishable : AllPunishable X env s₀ seen
  penalized : ∀ a ∈ seen, Underperforms s₀.store a → ∀ p,
    validatorState X s₀.world.validatorSet a = .ok ⟨a, .active p⟩ → Penalized X env s₀ s a

namespace Walked

variable {s₀ : State} {seen : List Address} {a : Address}

section

variable (h : Walked X env s₀ seen s)

include h

/-- An address the walk has not reached reads as before. -/
theorem read (ha : a ∉ seen) :
    validatorState X s.world.validatorSet a = validatorState X s₀.world.validatorSet a :=
  validatorState_congr h.registry (h.unseen a ha).1

theorem underperforms_iff (ha : a ∉ seen) : Underperforms s.store a ↔ Underperforms s₀.store a := by
  have hpenalty := (h.unseen a ha).2.2
  rw [h.config]
  show (¬ _ ∧ (s.store.penalty a).total ≠ 0 ∧ (s.store.penalty a).validRate < _) ↔ _
  rw [hpenalty]
  exact Iff.rfl

theorem punishable_iff (l : ValidatorLifecycle) :
    Punishable env s.store.configSlashFraction s.world.staking l ↔
      Punishable env s₀.store.configSlashFraction s₀.world.staking l := by
  have hfraction : s.store.configSlashFraction = s₀.store.configSlashFraction := by rw [h.config]
  rw [Punishable, Punishable, SlashTimeFits, SlashTimeFits, h.delay, hfraction]

theorem readable (a : Address) : ∃ l, validatorState X s.world.validatorSet a = .ok ⟨a, l⟩ := by
  obtain ⟨⟨addr, l⟩, hread⟩ := h.consistent.registry.reads a
  obtain rfl := ValidatorSet.validatorState_address hread
  exact ⟨l, hread⟩

theorem config_eq :
    s₀.store.configMinValidPerWindow = s.store.configMinValidPerWindow ∧
      s₀.store.configAllowProtected = s.store.configAllowProtected ∧
      s.store.configSlashFraction = s₀.store.configSlashFraction := by
  rw [h.config]
  exact ⟨rfl, rfl, rfl⟩

/-- The round of a new address succeeds, if the address can be punished when it must be. -/
theorem round_succeeds (ha : a ∉ seen)
    (hheight : env.blockNumber ≠ 0) (hfraction : s₀.store.configSlashFraction ≤ scale1e18)
    (hpunishable : AllPunishable X env s₀ [a]) :
    ∃ s', Ok (slashRound X env s₀.store.configMinValidPerWindow s₀.store.configAllowProtected a)
      s () s' := by
  have hconfig := h.config_eq
  rw [hconfig.1, hconfig.2.1]
  by_cases hunder : Underperforms s.store a
  · obtain ⟨l, hread⟩ := h.readable a
    obtain ⟨lists, hs⟩ := h.solvent
    have hpun := hpunishable a mem_cons_self ((h.underperforms_iff ha).mp hunder) l
      ((h.read ha).symm.trans hread)
    obtain ⟨w', hok⟩ := punish_succeeds hread hs hheight (by rw [hconfig.2.2]; exact hfraction)
      ((h.punishable_iff l).mpr hpun)
    exact ⟨_, ok_slashRound.mpr (.inr ⟨hunder, w', hok, rfl⟩)⟩
  · exact ⟨_, ok_slashRound.mpr (.inl ⟨hunder, rfl⟩)⟩

/-- A round adds its address to those the walk has dealt with. -/
theorem round (ha : a ∉ seen) (hheight : env.blockNumber ≠ 0)
    (hok : Ok (slashRound X env s₀.store.configMinValidPerWindow s₀.store.configAllowProtected a)
      s u s') : Walked X env s₀ (seen ++ [a]) s' := by
  have hconfig := h.config_eq
  rw [hconfig.1, hconfig.2.1] at hok
  have hstore : s.store.resetPenaltyCounter a =
      { s₀.store with penalty := update s.store.penalty a ⟨0, 0, 0⟩ } := by
    rw [Store.resetPenaltyCounter, h.config]
  have hnew : ∀ {b}, b ∉ seen ++ [a] → b ∉ seen ∧ b ≠ a := by
    intro b hb
    exact ⟨fun hm => hb (mem_append_left _ hm), fun he => hb (by simp [he])⟩
  have hreset : ∀ b ∈ seen ++ [a],
      update s.store.penalty a (⟨0, 0, 0⟩ : PenaltyCounter) b = ⟨0, 0, 0⟩ := by
    intro b hb
    rw [update_apply]
    split
    · rfl
    · rename_i hne
      rcases mem_append.mp hb with hb | hb
      · exact h.reset b hb
      · exact absurd (mem_singleton.mp hb) hne
  rcases ok_slashRound.mp hok with ⟨hunder, rfl⟩ | ⟨hunder, w', hpunish, rfl⟩
  · refine ⟨h.consistent, h.solvent, h.registry, hstore, h.delay, fun b hb => ?_, hreset,
      fun b hb hub l hread => ?_, fun b hb hub p hread => ?_⟩
    · obtain ⟨hseen, hne⟩ := hnew hb
      refine ⟨(h.unseen b hseen).1, (h.unseen b hseen).2.1, ?_⟩
      exact (update_of_ne hne _ _).trans (h.unseen b hseen).2.2
    · rcases mem_append.mp hb with hb | hb
      · exact h.punishable b hb hub l hread
      · rw [mem_singleton.mp hb] at hub
        exact absurd ((h.underperforms_iff ha).mpr hub) hunder
    · rcases mem_append.mp hb with hb | hb
      · exact h.penalized b hb hub p hread
      · rw [mem_singleton.mp hb] at hub
        exact absurd ((h.underperforms_iff ha).mpr hub) hunder
  · obtain ⟨l, hread⟩ := h.readable a
    obtain ⟨lists, hs⟩ := h.solvent
    have hdone := punished_of_ok hread hheight hpunish
    refine ⟨punish_consistent h.consistent hpunish, punish_solvent hs hpunish,
      hdone.registry.trans h.registry, hstore, hdone.delay.trans h.delay, fun b hb => ?_, hreset,
      fun b hb hub l' hread' => ?_, fun b hb hub p hread' => ?_⟩
    · obtain ⟨hseen, hne⟩ := hnew hb
      obtain ⟨hval, hstake, hpenalty⟩ := h.unseen b hseen
      exact ⟨(hdone.val b hne).trans hval, (hdone.stake b hne).trans hstake,
        (update_of_ne hne _ _).trans hpenalty⟩
    · rcases mem_append.mp hb with hb | hb
      · exact h.punishable b hb hub l' hread'
      · obtain rfl := mem_singleton.mp hb
        -- the address has not changed since the walk began
        have hsame := ((h.read ha).symm.trans hread).symm.trans hread'
        cases hsame
        exact (h.punishable_iff l).mp hdone.punishable
    · rcases mem_append.mp hb with hb | hb
      · obtain ⟨⟨j, hj, hjailed⟩, hstake⟩ := h.penalized b hb hub p hread'
        have hne : b ≠ a := fun he => ha (he ▸ hb)
        exact ⟨⟨j, hj, (validatorState_congr hdone.registry
          (hdone.val b hne)).trans hjailed⟩, (hdone.stake b hne).trans hstake⟩
      · obtain rfl := mem_singleton.mp hb
        have hsame := ((h.read ha).symm.trans hread).symm.trans hread'
        cases hsame
        refine ⟨hdone.jailed p rfl, ?_⟩
        have hslashed := hdone.slashed
        rw [(h.unseen b ha).2.1, hconfig.2.2] at hslashed
        exact hslashed

end

/-- The walk over the rest succeeds, if every address it meets can be punished when it must be. -/
theorem forM_succeeds (hheight : env.blockNumber ≠ 0)
    (hfraction : s₀.store.configSlashFraction ≤ scale1e18) :
    ∀ {rest seen : List Address} {s : State}, Walked X env s₀ seen s → (seen ++ rest).Nodup →
      AllPunishable X env s₀ rest →
      ∃ s', Ok (rest.forM (slashRound X env s₀.store.configMinValidPerWindow
        s₀.store.configAllowProtected)) s () s' := by
  intro rest
  induction rest with
  | nil =>
    intro seen s h _ _
    exact ⟨s, by simp only [forM_eq_forM, forM_nil, ok_pure, and_self]⟩
  | cons a rest ih =>
    intro seen s h hnd hall
    have ha : a ∉ seen := fun hm => (nodup_append.mp hnd).2.2 a hm a mem_cons_self rfl
    obtain ⟨s₁, hround⟩ := h.round_succeeds ha hheight hfraction
      fun b hb => hall b (mem_singleton.mp hb ▸ mem_cons_self)
    obtain ⟨s', hrest⟩ := ih (h.round ha hheight hround) (by simpa using hnd)
      fun b hb => hall b (mem_cons_of_mem a hb)
    refine ⟨s', ?_⟩
    simp only [forM_eq_forM, forM_cons, ok_bind]
    exact ⟨(), s₁, hround, hrest⟩

end Walked

/-! ### The whole window -/

theorem removeExcessFeeds_penalty (s : Store) : s.removeExcessFeeds.penalty = s.penalty := by
  unfold Store.removeExcessFeeds
  generalize List.range' 1 s.pairCount = indices
  induction indices generalizing s with
  | nil => rfl
  | cons i indices ih =>
    rw [foldl_cons, ih]
    unfold Store.removeExcessFeed
    split <;> rfl

variable {vs : ValidatorSet.Store}

theorem nodup_entries (h : Consistent X vs) : vs.registry.entries.Nodup := by
  refine List.Nodup.map_on ?_ nodup_range'
  intro i hi j hj he
  have hi := mem_range'_1.mp hi
  have hj := mem_range'_1.mp hj
  rw [← (h.entry i (by omega) (by omega)).2, ← (h.entry j (by omega) (by omega)).2, he]

theorem mem_entries_iff (h : Consistent X vs) {a : Address} :
    a ∈ vs.registry.entries ↔ Registered vs a := by
  constructor
  · intro ha
    obtain ⟨i, hi, rfl⟩ := mem_map.mp ha
    have hi := mem_range'_1.mp hi
    exact (h.entry i (by omega) (by omega)).1
  · intro ha
    obtain ⟨hlo, hhi, hback⟩ := h.index a ha
    exact mem_map.mpr ⟨_, mem_range'_1.mpr (by omega), hback⟩

theorem registered_eq_entries (h : Consistent X vs) :
    ValidatorSet.registeredValidatorAddresses vs = .ok vs.registry.entries := by
  refine ValidatorSet.registeredValidatorAddresses_eq_ok.mpr ⟨rfl, fun i hlo hhi => ?_⟩
  obtain ⟨hreg, hback⟩ := h.entry i hlo hhi
  exact ⟨fun hzero => h.zero (hzero ▸ hreg), hback⟩

/-- The window succeeds, resets the counters of every registered validator, and jails and slashes
every active underperformer. -/
def WindowHolds (X : Externals) (env : BlockEnv) (s : State) : Prop :=
  ∃ s', Ok (slashAndResetCounters X env) s () s' ∧
    (∀ a, Registered s.world.validatorSet a → s'.store.penalty a = ⟨0, 0, 0⟩) ∧
    ∀ a p, validatorState X s.world.validatorSet a = .ok ⟨a, .active p⟩ →
      Underperforms s.store a → Penalized X env s s' a

theorem ok_slashAndResetCounters (hw : Consistent X s.world.validatorSet)
    (hcount : s.world.validatorSet.registry.validatorCount ≤ maxOracleSlashWindowValidators) :
    Ok (slashAndResetCounters X env) s u s' ↔
      ∃ t, Ok (s.world.validatorSet.registry.entries.forM (slashRound X env
          s.store.configMinValidPerWindow s.store.configAllowProtected)) s () t ∧
        s' = { t with store := t.store.removeExcessFeeds } := by
  have hlength : ¬ s.world.validatorSet.registry.entries.length >
      maxOracleSlashWindowValidators := by
    rw [Registry.entries, length_map, length_range']
    omega
  simp only [slashAndResetCounters, writeStore, rules, registered_eq_entries hw, Except.ok.injEq,
    ↓existsAndEq, hlength, not_false_eq_true]

/-- The window does its work exactly when every registered underperformer is in a state that the
punishment accepts. -/
theorem window_iff {lists : Address → List Nat} (hw : WorldConsistent X s.world)
    (hs : Solvent (ledger s.world) lists)
    (hcount : s.world.validatorSet.registry.validatorCount ≤ maxOracleSlashWindowValidators)
    (hfraction : s.store.configSlashFraction ≤ scale1e18) (hheight : 0 < env.blockNumber) :
    WindowHolds X env s ↔ ∀ a, Registered s.world.validatorSet a → Underperforms s.store a →
      ∀ l, validatorState X s.world.validatorSet a = .ok ⟨a, l⟩ →
        Punishable env s.store.configSlashFraction s.world.staking l := by
  have hregistry := hw.registry
  have hnd := nodup_entries hregistry
  have hne : env.blockNumber ≠ 0 := Nat.ne_of_gt hheight
  have hstart : Walked X env s [] s :=
    ⟨hw, ⟨lists, hs⟩, rfl, rfl, rfl, fun _ _ => ⟨rfl, rfl, rfl⟩,
      fun a ha => absurd ha not_mem_nil, fun a ha => absurd ha not_mem_nil,
      fun a ha => absurd ha not_mem_nil⟩
  -- whatever the walk ends in, it has dealt with every registered address
  have hwalk : ∀ t, Ok (s.world.validatorSet.registry.entries.forM (slashRound X env
      s.store.configMinValidPerWindow s.store.configAllowProtected)) s () t →
      Walked X env s s.world.validatorSet.registry.entries t := by
    intro t hloop
    refine Ok.forM_visited (Walked X env s) (fun seen a rest hl s₁ s₂ h hround => ?_) hloop hstart
    have ha : a ∉ seen := by
      rw [hl] at hnd
      exact fun hm => (nodup_append.mp hnd).2.2 a hm a mem_cons_self rfl
    exact h.round ha hne hround
  constructor
  · rintro ⟨s', hok, -⟩ a ha hunder l hread
    obtain ⟨t, hloop, -⟩ := (ok_slashAndResetCounters hregistry hcount).mp hok
    exact (hwalk t hloop).punishable a ((mem_entries_iff hregistry).mpr ha) hunder l hread
  · intro hall
    obtain ⟨t, hloop⟩ := hstart.forM_succeeds hne hfraction hnd
      fun a ha => hall a ((mem_entries_iff hregistry).mp ha)
    have hend := hwalk t hloop
    refine ⟨_, (ok_slashAndResetCounters hregistry hcount).mpr ⟨t, hloop, rfl⟩, fun a ha => ?_,
      fun a p hread hunder => ?_⟩
    · show t.store.removeExcessFeeds.penalty a = _
      rw [removeExcessFeeds_penalty]
      exact hend.reset a ((mem_entries_iff hregistry).mpr ha)
    · have hreg : Registered s.world.validatorSet a :=
        (ValidatorSet.registered_iff hread).mpr fun he => by cases he
      exact hend.penalized a ((mem_entries_iff hregistry).mpr hreg) hunder p hread

/-! ### A validator that was unjailed -/

/-- The boundary that makes the validators with the given addresses, which are their keys, the
committee of an epoch. -/
def committeeBoundary (epoch : Nat) (committee : List Address) : BlockEnv × Op :=
  (sampleEnv, .activateBoundary ⟨none, epoch,
    ⟨committee.map fun a => ⟨a, BitVec.ofNat 384 a.toNat⟩, 0, [UInt8.ofNat epoch], 0⟩, 1,
    committee, 0, []⟩)

/-- Alice and Bob are active. -/
def bothActive : List (BlockEnv × Op) :=
  sampleJoins alice 1 ++ sampleJoins bob 2 ++ [committeeBoundary 1 [alice.address, bob.address]]

/-- Alice is jailed, leaves the committee at the next boundary and unjails. -/
def aliceUnjails : List (BlockEnv × Op) :=
  [(sampleEnv, .jailValidator alice.address), committeeBoundary 2 [bob.address],
    (sampleEnv, .unjailValidator alice)]

/-- Alice and Bob have 1000 wei each. -/
def fundedGenesis : World :=
  World.fresh 9 1 (update (update (fun _ => 0) alice.address 1000) bob.address 1000)

/-- Alice and Bob have missed a vote each; the minimum share is 5 percent, a slash takes a tenth. -/
def missedVotes (w : World) : State where
  world := w
  store := ⟨5 * 10 ^ 16, 10 ^ 17, false,
    update (update (fun _ => ⟨0, 0, 0⟩) alice.address ⟨0, 0, 1⟩) bob.address
      ⟨0, 0, 1⟩, fun _ => false, 0, fun _ => (0, 0), fun _ => false, fun _ => ⟨0, 0, 0⟩⟩

theorem fundedGenesis_solvent : Solvent (ledger fundedGenesis) fun _ => [] := by
  refine ⟨⟨Queue.of_empty rfl fun _ => rfl, fun i hi => absurd hi (Nat.not_lt_zero i), ?_, rfl⟩, ?_⟩
  · exact (Finset.sum_const_zero).symm
  · show ∑ a, update (update (fun _ => 0) alice.address 1000) bob.address 1000 a
      < 2 ^ 256
    have hsum := Sums.sum_update (update (fun _ => 0) alice.address 1000) bob.address 1000
    rw [Sums.sum_update_zero, update_of_ne (by decide), Nat.add_zero] at hsum
    rw [hsum]
    decide

/-- The sample steps append nothing to the unbonding queue. -/
theorem sample_fits : Runs.Along (step sampleExternals) (QueueFits sampleExternals)
    (bothActive ++ aliceUnjails) fundedGenesis := by
  refine ⟨?_, ?_, ?_, ?_, ?_, ?_, ?_, ?_, ?_, ?_, trivial⟩ <;>
  · intro _
    decide +kernel

theorem sample_solvent {l : List (BlockEnv × Op)}
    (hfits : Runs.Along (step sampleExternals) (QueueFits sampleExternals) l fundedGenesis) :
    ∃ lists, Solvent (ledger (Runs.run (step sampleExternals) l fundedGenesis)) lists := by
  refine Runs.run_inv (fun w => ∃ lists, Solvent (ledger w) lists) ?_ hfits
    ⟨_, fundedGenesis_solvent⟩
  intro i w hi ⟨lists, hw⟩
  obtain ⟨n, hroom, hmoves⟩ := Staking.moves_of_step hi hw.books.queue.count_lt
  exact hmoves.solvent hw hroom

theorem sample_consistent (l : List (BlockEnv × Op)) :
    WorldConsistent sampleExternals (Runs.run (step sampleExternals) l fundedGenesis) :=
  worldConsistent_run (worldConsistent_fresh sampleExternals 9 1 _) l

/-- Both validators have missed their only vote, and both are active. -/
def activeState : State :=
  missedVotes (Runs.run (step sampleExternals) bothActive fundedGenesis)

/-- What the punishment reads of a validator. -/
def standing (s : State) (a : Address) : Option (Bool × Option Nat) :=
  (validatorState sampleExternals s.world.validatorSet a).toOption.map fun st =>
    (st.lifecycle.isActiveStatus, st.lifecycle.history.map (·.slashCount))

theorem jailable_of_standing {a : Address}
    (hread : validatorState sampleExternals s.world.validatorSet a = .ok ⟨a, l⟩)
    (h : standing s a = some (true, some 0)) : Jailable l ∧ ∀ i, l ≠ .inactive i := by
  rw [standing, hread] at h
  cases l with
  | active p =>
    have hcount : p.history.slashCount = 0 := by
      simpa [Except.toOption, ValidatorLifecycle.isActiveStatus, ValidatorLifecycle.history] using h
    refine ⟨?_, fun i he => by cases he⟩
    show p.history.slashCount + 1 < 2 ^ 64
    omega
  | absent | waitingForStake p | waitingForReadiness p | joining p | jailRetained p | jail p
  | exiting p | unbonding p | inactive p =>
    simp [Except.toOption, ValidatorLifecycle.isActiveStatus] at h

/-- While both are active the window reaches them. -/
theorem window_of_active :
    WindowHolds sampleExternals sampleEnv activeState ∧
      Underperforms activeState.store bob.address := by
  obtain ⟨lists, hs⟩ := sample_solvent sample_fits.of_append.1
  have hw : WorldConsistent sampleExternals activeState.world := sample_consistent bothActive
  have hentries : activeState.world.validatorSet.registry.entries =
      [alice.address, bob.address] := by decide +kernel
  have halice : standing activeState alice.address = some (true, some 0) := by decide +kernel
  have hbob : standing activeState bob.address = some (true, some 0) := by decide +kernel
  have hfits : SlashTimeFits sampleEnv activeState.world.staking :=
    ⟨2, 3, by decide +kernel, by decide +kernel⟩
  refine ⟨(window_iff hw hs (by decide +kernel) (by decide +kernel) (by decide)).mpr
    fun a ha _ l hread => ?_, by decide +kernel⟩
  have ha := (mem_entries_iff hw.registry).mpr ha
  rw [hentries] at ha
  have hstanding : standing activeState a = some (true, some 0) := by
    rcases mem_cons.mp ha with rfl | ha
    · exact halice
    · rw [mem_singleton.mp ha]
      exact hbob
  obtain ⟨hjailable, hinactive⟩ := jailable_of_standing hread hstanding
  exact ⟨hjailable, fun _ => ⟨hfits, hinactive⟩⟩

/-- Alice is `PENDING` again and still has her missed vote, so the window fails: Bob, who is
active and has only missed, is not jailed, and nobody's counters are reset. -/
theorem pending_blocks_window :
    WorldConsistent sampleExternals
        (Runs.run (step sampleExternals) (bothActive ++ aliceUnjails) fundedGenesis) ∧
      (∃ lists, Solvent (ledger (Runs.run (step sampleExternals)
        (bothActive ++ aliceUnjails) fundedGenesis)) lists) ∧
      ((Runs.run (step sampleExternals) (bothActive ++ aliceUnjails) fundedGenesis).validatorSet.val
        alice.address).status = ValidatorSet.statusPending ∧
      ((Runs.run (step sampleExternals) (bothActive ++ aliceUnjails) fundedGenesis).validatorSet.val
        bob.address).status = ValidatorSet.statusActive ∧
      ¬ WindowHolds sampleExternals sampleEnv (missedVotes
        (Runs.run (step sampleExternals) (bothActive ++ aliceUnjails) fundedGenesis)) := by
  refine ⟨sample_consistent _, sample_solvent sample_fits, by decide +kernel, by decide +kernel, ?_⟩
  rintro ⟨s', hok, -⟩
  have hfails : ((slashAndResetCounters sampleExternals sampleEnv).run (missedVotes (Runs.run
      (step sampleExternals) (bothActive ++ aliceUnjails) fundedGenesis))).1.isOk = false := by
    decide +kernel
  rw [hok] at hfails
  cases hfails

end Rudis.Oracle
