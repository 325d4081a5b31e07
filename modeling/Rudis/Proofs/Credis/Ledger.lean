import Mathlib.Data.Set.Card
import Mathlib.Tactic.Linarith
import Mathlib.Tactic.Ring
import Rudis.Lib.Lists
import Rudis.Proofs.Credis.Calls

/-!
# `Rudis.Proofs.Credis.Ledger`: the invariants of the position ledger

`Sound` is what holds of one position: its collateral is what was released, what was burned and what
is locked; the locked share covers the outstanding one; and its journal charges each whole day once
(`GoodJournal`). `Consistent` adds the active list and the called counts. A step writes at most one
position, which is new or not terminal (`Consistent.step_cases`); so it keeps the invariant and
leaves the terminal positions alone, and both hold along every run (`ledger_of_run`).

The release of a partial payment is floored, so the locked collateral never falls below its share:
`covered` is the invariant that makes the subtraction of a release safe (`Sound.release`).

The storage layer takes a record with a zero `smartAccount` for an empty slot, and the length of the
active list is a `u32`. `Admissible` keeps a run away from both; `zeroAccount_listed_twice` is a run
that does not.
-/

namespace Rudis.Credis

open List
open Runs

/-! ### Journals -/

def daysOf (charges : List Charge) : Nat := (charges.map Charge.days).sum

/-- Principal paid by some payments. -/
def paidBy (charges : List Charge) : Nat := (charges.map Charge.paid).sum

/-- Collateral released by the payments of a position. -/
def Journal.released (j : Journal) : Nat := (j.charges.map Charge.released).sum

/-- The principal outstanding at a time: what was not paid before it. -/
def Journal.outstandingAt (j : Journal) (principal time : Nat) : Nat :=
  principal - paidBy (j.charges.filter fun c => c.time < time)

/-- The payment `c`, made after `before`, charges the day `d`. -/
def Journal.ChargesDay (j : Journal) (d : Nat) (before : List Charge) (c : Charge) : Prop :=
  (∃ after, j.charges = before ++ c :: after) ∧ daysOf before ≤ d ∧ d < daysOf before + c.days

/-- The end of a day counted from the origination of a position. -/
def dayEnd (originatedAt d : Nat) : Nat := originatedAt + secondsPerDay * (d + 1)

/-- A payment made after `before` charges the days that ended since then, on what is outstanding,
and takes at least the exact interest. -/
structure GoodCharge (p : Position) (before : List Charge) (c : Charge) : Prop where
  principal : c.principal + paidBy before = p.principal
  days_over : p.originatedAt + secondsPerDay * (daysOf before + c.days) ≤ c.time
  days_all : c.time < dayEnd p.originatedAt (daysOf before + c.days)
  interest : c.principal * p.policyRate * c.days ≤ c.interest * (daysPerYear * scale1e6)

/-- The payments of a position, in order. -/
structure GoodJournal (p : Position) (charges : List Charge) (now : Nat) : Prop where
  good : ∀ before c after, charges = before ++ c :: after → GoodCharge p before c
  ordered : charges.Pairwise fun a b => a.time ≤ b.time
  past : ∀ c ∈ charges, c.time ≤ now

theorem daysOf_append (l l' : List Charge) : daysOf (l ++ l') = daysOf l + daysOf l' := by
  simp [daysOf]

theorem daysOf_cons (c : Charge) (l : List Charge) : daysOf (c :: l) = c.days + daysOf l := rfl

theorem paidBy_append (l l' : List Charge) : paidBy (l ++ l') = paidBy l + paidBy l' := by
  simp [paidBy]

section Journal

variable {p p' : Position} {j : Journal} {charges : List Charge} {now now' : Nat} {c : Charge}

theorem GoodJournal.mono (h : GoodJournal p charges now) (hnow : now ≤ now') :
    GoodJournal p charges now' :=
  ⟨h.good, h.ordered, fun c hc => (h.past c hc).trans hnow⟩

/-- Only the sealed terms of a position enter its journal. -/
theorem GoodJournal.congr (h : GoodJournal p charges now) (hprincipal : p'.principal = p.principal)
    (horigin : p'.originatedAt = p.originatedAt) (hrate : p'.policyRate = p.policyRate) :
    GoodJournal p' charges now := by
  refine ⟨fun before c after hsplit => ?_, h.ordered, h.past⟩
  have hg := h.good before c after hsplit
  exact ⟨hprincipal ▸ hg.principal, horigin ▸ hg.days_over, horigin ▸ hg.days_all,
    hrate ▸ hg.interest⟩

theorem GoodJournal.concat (h : GoodJournal p charges now) (hc : GoodCharge p charges c)
    (hnow : now ≤ now') (htime : c.time = now') : GoodJournal p (charges ++ [c]) now' := by
  refine ⟨fun before d after hsplit => ?_, ?_, ?_⟩
  · rcases Lists.split_concat hsplit with ⟨rfl, rfl⟩ | ⟨after', hl⟩
    · exact hc
    · exact h.good before d after' hl
  · refine pairwise_append.mpr ⟨h.ordered, pairwise_singleton _ _, fun a ha b hb => ?_⟩
    rw [mem_singleton.mp hb, htime]
    exact (h.past a ha).trans hnow
  · exact forall_mem_append.mpr
      ⟨fun d hd => (h.past d hd).trans hnow, forall_mem_singleton.mpr htime.le⟩

variable {d : Nat}

/-- Of two payments the later one starts after the days of the earlier one. -/
theorem eq_of_charged {before mid rest after : List Charge} {c' : Charge}
    (hmid : c :: rest = mid ++ c' :: after) (hlt : d < daysOf before + c.days)
    (hle : daysOf (before ++ mid) ≤ d) : mid = [] ∧ c' = c := by
  cases mid with
  | nil =>
    simp only [nil_append, List.cons.injEq] at hmid
    exact ⟨rfl, hmid.1.symm⟩
  | cons m mid =>
    simp only [cons_append, List.cons.injEq] at hmid
    obtain ⟨rfl, -⟩ := hmid
    rw [daysOf_append, daysOf_cons] at hle
    omega

/-- A day is charged by at most one payment. -/
theorem Journal.ChargesDay.unique {before before' : List Charge} {c' : Charge}
    (h : j.ChargesDay d before c) (h' : j.ChargesDay d before' c') : before' = before ∧ c' = c := by
  obtain ⟨⟨after, hl⟩, hle, hlt⟩ := h
  obtain ⟨⟨after', hl'⟩, hle', hlt'⟩ := h'
  rcases append_eq_append_iff.mp (hl.symm.trans hl') with ⟨mid, rfl, hmid⟩ | ⟨mid, rfl, hmid⟩
  · obtain ⟨rfl, rfl⟩ := eq_of_charged hmid hlt hle'
    exact ⟨append_nil before, rfl⟩
  · obtain ⟨rfl, rfl⟩ := eq_of_charged hmid hlt' hle
    exact ⟨(append_nil before').symm, rfl⟩

/-- Every day below the number of days charged is charged by some payment. -/
theorem exists_chargesDay (h : d < daysOf j.charges) : ∃ before c, j.ChargesDay d before c := by
  suffices H : ∀ rest before, j.charges = before ++ rest → daysOf before ≤ d →
      d < daysOf before + daysOf rest → ∃ before c, j.ChargesDay d before c by
    exact H j.charges [] rfl (Nat.zero_le d) (by simpa [daysOf] using h)
  intro rest
  induction rest with
  | nil =>
    intro before _ hle hlt
    simp only [daysOf, map_nil, sum_nil] at hle hlt
    omega
  | cons c rest ih =>
    intro before hl hle hlt
    by_cases hc : d < daysOf before + c.days
    · exact ⟨before, c, ⟨rest, hl⟩, hle, hc⟩
    · have hone : daysOf [c] = c.days := rfl
      rw [daysOf_cons] at hlt
      refine ih (before ++ [c]) (by rw [hl, append_cons]) ?_ ?_ <;>
      · rw [daysOf_append, hone]
        omega

/-- A day is charged on the principal outstanding at its end. -/
theorem GoodJournal.principal_eq {before : List Charge}
    (h : GoodJournal p j.charges now) (hc : j.ChargesDay d before c) :
    c.principal = j.outstandingAt p.principal (dayEnd p.originatedAt d) := by
  obtain ⟨⟨after, hl⟩, hle, hlt⟩ := hc
  have hgood := h.good before c after hl
  have hend : dayEnd p.originatedAt d ≤ c.time := by
    have := Nat.mul_le_mul_left secondsPerDay (show d + 1 ≤ daysOf before + c.days by omega)
    have := hgood.days_over
    unfold dayEnd
    omega
  have hbefore : before.filter (fun b => b.time < dayEnd p.originatedAt d) = before := by
    refine filter_eq_self.mpr fun b hb => decide_eq_true ?_
    -- an earlier payment was made before the first day it did not charge was over
    obtain ⟨b₁, b₂, rfl⟩ := append_of_mem hb
    have hb' := (h.good b₁ b (b₂ ++ c :: after) (by rw [hl, append_assoc]; rfl)).days_all
    rw [daysOf_append, daysOf_cons] at hle
    have := Nat.mul_le_mul_left secondsPerDay (show daysOf b₁ + b.days + 1 ≤ d + 1 by omega)
    unfold dayEnd at hb' ⊢
    omega
  have hafter : (c :: after).filter (fun b => b.time < dayEnd p.originatedAt d) = [] := by
    refine filter_eq_nil_iff.mpr fun b hb => ?_
    have hordered := (pairwise_append.mp (hl ▸ h.ordered)).2.1
    have hcb : c.time ≤ b.time := by
      rcases mem_cons.mp hb with rfl | hb
      · exact le_rfl
      · exact (pairwise_cons.mp hordered).1 b hb
    simp only [decide_eq_true_eq, not_lt]
    exact hend.trans hcb
  rw [Journal.outstandingAt, hl, filter_append, hbefore, hafter, append_nil]
  have := hgood.principal
  omega

end Journal

/-! ### One position -/

/-- What holds of a position with its journal at a time. -/
structure Sound (p : Position) (j : Journal) (now : Nat) : Prop where
  principal_pos : 0 < p.principal
  conserved : p.collateral = j.released + j.burned + p.collateralLocked
  covered : p.collateral * p.outstanding ≤ p.collateralLocked * p.principal
  terminal : p.state.isTerminal = true → p.outstanding = 0 ∧ p.collateralLocked = 0
  live : p.state.isTerminal = false →
    0 < p.outstanding ∧ p.outstanding + paidBy j.charges = p.principal
  anchor : p.lastSettledAt = p.originatedAt + secondsPerDay * daysOf j.charges
  anchor_le : p.lastSettledAt ≤ now
  journal : GoodJournal p j.charges now

section Sound

variable {p p' : Position} {j : Journal} {now now' paid released days : Nat}

theorem gratisReleased_eq_ok :
    gratisReleased p paid = .ok released ↔
      (paid = p.outstanding ∧ released = p.collateralLocked) ∨
        (paid ≠ p.outstanding ∧ p.collateral * paid < 2 ^ 256 ∧
          released = p.collateral * paid / p.principal) := by
  unfold gratisReleased
  split <;> rename_i hall
  · simp [hall, eq_comm]
  · simp only [laws, checked_eq_ok, checkedMul_eq_some, hall, and_assoc, ↓existsAndEq, true_and,
      false_and, false_or, ne_eq, not_false_eq_true]

/-- A released share is at most what is locked, and what stays locked covers what stays
outstanding. -/
theorem Sound.release (h : Sound p j now) (hpaid : paid ≤ p.outstanding)
    (hr : gratisReleased p paid = .ok released) :
    released ≤ p.collateralLocked ∧
      p.collateral * (p.outstanding - paid) ≤ (p.collateralLocked - released) * p.principal := by
  rcases gratisReleased_eq_ok.mp hr with ⟨rfl, rfl⟩ | ⟨-, -, rfl⟩
  · rw [Nat.sub_self, Nat.mul_zero]
    exact ⟨le_rfl, Nat.zero_le _⟩
  · have hfloor := Nat.div_mul_le_self (p.collateral * paid) p.principal
    have hcov := h.covered
    constructor
    · refine Nat.le_of_mul_le_mul_right ?_ h.principal_pos
      exact hfloor.trans ((Nat.mul_le_mul_left _ hpaid).trans hcov)
    · rw [Nat.mul_sub, Nat.sub_mul]
      omega

/-- The interest of a payment is at least the exact amount. -/
theorem accruedInterest_exact {interest : Nat} (h : accruedInterest p now = .ok interest) :
    p.outstanding * p.policyRate * elapsedDays p now ≤ interest * (daysPerYear * scale1e6) := by
  simp only [accruedInterest] at h
  split at h
  · rename_i hzero
    rcases hzero with hz | hz | hz <;> simp [hz]
  · simp only [laws, checked_eq_ok, checkedMul_eq_some] at h
    obtain ⟨_, ⟨-, rfl⟩, _, ⟨-, rfl⟩, _, ⟨-, rfl⟩, rfl⟩ := h
    unfold divCeil
    have hpos : 0 < daysPerYear * scale1e6 := by decide
    have hmod := Nat.div_add_mod
      (p.outstanding * p.policyRate * elapsedDays p now + daysPerYear * scale1e6 - 1)
      (daysPerYear * scale1e6)
    have hlt := mod_lt
      (p.outstanding * p.policyRate * elapsedDays p now + daysPerYear * scale1e6 - 1) hpos
    rw [mul_comm] at hmod
    omega

theorem Sound.mono (h : Sound p j now) (hnow : now ≤ now') : Sound p j now' :=
  { h with anchor_le := h.anchor_le.trans hnow, journal := h.journal.mono hnow }

theorem Sound.called (h : Sound p j now) (hopen : p.state = .opened) :
    Sound (p.called now') j now where
  principal_pos := h.principal_pos
  conserved := h.conserved
  covered := h.covered
  terminal := fun ht => by cases ht
  live := fun _ => h.live (by rw [hopen]; rfl)
  anchor := h.anchor
  anchor_le := h.anchor_le
  journal := h.journal.congr rfl rfl rfl

theorem Sound.voided (h : Sound p j now) :
    Sound p.voided { j with burned := j.burned + p.collateralLocked } now where
  principal_pos := h.principal_pos
  conserved := by
    have := h.conserved
    show p.collateral = j.released + (j.burned + p.collateralLocked) + 0
    omega
  covered := Nat.zero_le _
  terminal := fun _ => ⟨rfl, rfl⟩
  live := fun ht => by cases ht
  anchor := h.anchor
  anchor_le := h.anchor_le
  journal := h.journal.congr rfl rfl rfl

/-- The days a payment charges are those that are over. -/
theorem Sound.elapsed (h : Sound p j now) :
    p.originatedAt + secondsPerDay * (daysOf j.charges + elapsedDays p now) ≤ now ∧
      now < dayEnd p.originatedAt (daysOf j.charges + elapsedDays p now) := by
  have hanchor := h.anchor
  have hle := h.anchor_le
  have hmod := Nat.div_add_mod (now - p.lastSettledAt) secondsPerDay
  have hlt := mod_lt (now - p.lastSettledAt) (show 0 < secondsPerDay by decide)
  unfold dayEnd elapsedDays
  rw [mul_add, mul_add, mul_add]
  omega

/-- A payment keeps a position sound, with the payment entered in its journal. -/
theorem Sound.settled (h : Sound p j now) (hlive : p.state.isTerminal = false) (hnow : now < 2 ^ 64)
    {interest : Nat} (hi : accruedInterest p now = .ok interest)
    (hr : gratisReleased p paid = .ok released)
    (happ : applyPayment p paid released (elapsedDays p now) = .ok p') :
    Sound p' { j with charges := j.charges ++
      [⟨now, p.outstanding, elapsedDays p now, interest, paid, released⟩] } now := by
  obtain ⟨hpaid, hreleased, rfl⟩ := applyPayment_eq_ok.mp happ
  obtain ⟨hpos, hsum⟩ := h.live hlive
  obtain ⟨hover, hall⟩ := h.elapsed
  have hanchor := h.anchor
  have hcons := h.conserved
  have hdays : daysOf (j.charges ++
      [⟨now, p.outstanding, elapsedDays p now, interest, paid, released⟩]) =
      daysOf j.charges + elapsedDays p now := by
    rw [daysOf_append]
    simp [daysOf]
  have hsaturate : saturatingAdd 64 p.lastSettledAt
      (saturatingMul 64 (elapsedDays p now) secondsPerDay) =
      p.originatedAt + secondsPerDay * (daysOf j.charges + elapsedDays p now) := by
    rw [mul_add] at hover ⊢
    rw [saturatingAdd, saturatingMul, mul_comm (elapsedDays p now)]
    omega
  constructor
  case principal_pos => exact h.principal_pos
  case conserved =>
    show p.collateral = ((j.charges ++ [_]).map Charge.released).sum + j.burned +
      (p.collateralLocked - released)
    have : j.released = (j.charges.map Charge.released).sum := rfl
    simp only [map_append, map_cons, map_nil, sum_append, sum_cons, sum_nil]
    omega
  case covered => exact (h.release hpaid hr).2
  case terminal =>
    intro ht
    have hzero : p.outstanding - paid = 0 := by
      by_contra hne
      simp only [if_neg hne] at ht
      exact absurd ht (by rw [hlive]; decide)
    refine ⟨hzero, ?_⟩
    -- the final payment releases everything
    show p.collateralLocked - released = 0
    rcases gratisReleased_eq_ok.mp hr with ⟨-, rfl⟩ | ⟨hpart, -⟩ <;> omega
  case live =>
    intro hl
    have hne : p.outstanding - paid ≠ 0 := by
      intro hzero
      simp [hzero, CredisState.isTerminal] at hl
    refine ⟨Nat.pos_of_ne_zero hne, ?_⟩
    show p.outstanding - paid + paidBy (j.charges ++ [_]) = p.principal
    rw [paidBy_append]
    simp only [paidBy, map_cons, map_nil, sum_cons, sum_nil] at hsum ⊢
    omega
  case anchor =>
    show saturatingAdd 64 _ _ = _
    rw [hsaturate, hdays]
  case anchor_le =>
    show saturatingAdd 64 _ _ ≤ _
    rw [hsaturate]
    exact hover
  case journal =>
    have hcharge : GoodCharge p j.charges
        ⟨now, p.outstanding, elapsedDays p now, interest, paid, released⟩ :=
      ⟨hsum, hover, hall, accruedInterest_exact hi⟩
    exact (h.journal.concat hcharge (le_refl now) rfl).congr rfl rfl rfl

end Sound

/-! ### The active list and the called counts -/

/-- A position is on the price path: it exists and can still change. -/
def Store.Live (s : Store) (id : B256) : Prop :=
  (s.positions id).Exists ∧ (s.positions id).state.isTerminal = false

/-- A called position of an account. -/
def Position.isCalledOf (account : Address) (p : Position) : Bool :=
  p.state = .called ∧ p.smartAccount = account

theorem Position.isCalledOf_of_terminal {a : Address} (p : Position)
    (h : p.state.isTerminal = true) : p.isCalledOf a = false := by
  cases hs : p.state <;> simp_all [Position.isCalledOf, CredisState.isTerminal]

/-- The invariant of the ledger. -/
structure Consistent (w : World) : Prop where
  now_lt : w.now < 2 ^ 64
  keyed : ∀ id, (w.store.positions id).Exists → (w.store.positions id).positionId = id
  sound : ∀ id, (w.store.positions id).Exists → Sound (w.store.positions id) (w.journal id) w.now
  unwritten : ∀ id, ¬ (w.store.positions id).Exists → w.journal id = ⟨[], 0⟩
  listed : w.store.Listed
  active : ∀ id, id ∈ w.store.active ↔ w.store.Live id
  counts : ∀ a, w.store.calledPositionCounts a =
    w.store.active.countP fun id => (w.store.positions id).isCalledOf a
  room : w.store.active.length < 2 ^ 32

theorem Consistent.genesis : Consistent .genesis where
  now_lt := by decide
  keyed := fun id h => absurd rfl h
  sound := fun id h => absurd rfl h
  unwritten := fun _ _ => rfl
  listed := fun i a h => by cases h
  active := fun id => ⟨fun h => (by cases h), fun h => absurd rfl h.1⟩
  counts := fun _ => rfl
  room := by decide

section Step

variable {w w' : World} {id : B256} {p' : Position} {s' : Store} {j : Journal}
  {a : Address}

/-- The other positions count as before. -/
theorem Consistent.countP_erase (h : Consistent w)
    (hpos : s'.positions = update w.store.positions id p') :
    (w.store.active.erase id).countP (fun b => (s'.positions b).isCalledOf a) =
      (w.store.active.erase id).countP fun b => (w.store.positions b).isCalledOf a := by
  refine countP_congr fun b hb => ?_
  rw [hpos, update_of_ne (h.listed.nodup.mem_erase_iff.mp hb).1]

/-- The count of an account, split at one listed position. -/
theorem Consistent.count_split (h : Consistent w) (hid : id ∈ w.store.active) :
    w.store.calledPositionCounts a =
      (w.store.active.erase id).countP (fun b => (w.store.positions b).isCalledOf a) +
        if (w.store.positions id).isCalledOf a then 1 else 0 := by
  rw [h.counts, (perm_cons_erase hid).countP_eq, countP_cons]

/-- What a successful call does: it writes one position, which is new or can still change, keeps it
on the active list as long as it can change, and counts it if it is called. -/
structure Rewrites (w : World) (s' : Store) (id : B256) (p' : Position) (j : Journal) : Prop where
  live : (w.store.positions id).Exists → (w.store.positions id).state.isTerminal = false
  positions : s'.positions = update w.store.positions id p'
  exists_ : p'.Exists
  keyed : p'.positionId = id
  sound : Sound p' j w.now
  listed : s'.Listed
  perm : s'.active.Perm
    (if p'.state.isTerminal then w.store.active.erase id else id :: w.store.active.erase id)
  counts : ∀ a, s'.calledPositionCounts a =
    (w.store.active.erase id).countP (fun b => (w.store.positions b).isCalledOf a) +
      if p'.isCalledOf a then 1 else 0
  room : (w.store.active.erase id).length + 1 < 2 ^ 32

theorem Consistent.rewrite (h : Consistent w) (hr : Rewrites w s' id p' j) :
    Consistent { w with store := s', journal := update w.journal id j } := by
  have hself : s'.positions id = p' := by rw [hr.positions, update_self]
  have hother {b : B256} (hb : b ≠ id) : s'.positions b = w.store.positions b := by
    rw [hr.positions, update_of_ne hb]
  constructor
  case now_lt => exact h.now_lt
  case keyed =>
    intro b hb
    by_cases hbid : b = id
    · subst hbid
      exact hself ▸ hr.keyed
    · show (s'.positions b).positionId = b
      rw [hother hbid]
      exact h.keyed b (hother hbid ▸ hb)
  case sound =>
    intro b hb
    show Sound (s'.positions b) (update w.journal id j b) w.now
    by_cases hbid : b = id
    · subst hbid
      rw [hself, update_self]
      exact hr.sound
    · rw [hother hbid, update_of_ne hbid]
      exact h.sound b (hother hbid ▸ hb)
  case unwritten =>
    intro b hb
    have hbid : b ≠ id := by
      rintro rfl
      exact hb (show (s'.positions b).Exists by rw [hself]; exact hr.exists_)
    show update w.journal id j b = _
    rw [update_of_ne hbid]
    exact h.unwritten b (hother hbid ▸ hb)
  case listed => exact hr.listed
  case active =>
    intro b
    show b ∈ s'.active ↔ s'.Live b
    have hmem := h.listed.nodup.mem_erase_iff (a := b) (b := id)
    rw [hr.perm.mem_iff]
    by_cases hbid : b = id
    · subst hbid
      cases hterm : p'.state.isTerminal <;> simp [hterm, hmem, Store.Live, hself, hr.exists_]
    · cases p'.state.isTerminal <;> simp [hmem, Store.Live, hother hbid, hbid, h.active b]
  case counts =>
    intro a
    show s'.calledPositionCounts a = s'.active.countP _
    rw [hr.counts, hr.perm.countP_eq]
    cases hterm : p'.state.isTerminal with
    | false =>
      show _ = countP (fun b => (s'.positions b).isCalledOf a) (id :: w.store.active.erase id)
      rw [countP_cons, h.countP_erase hr.positions, hself]
    | true =>
      rw [p'.isCalledOf_of_terminal hterm]
      exact (h.countP_erase hr.positions).symm
  case room =>
    show s'.active.length < 2 ^ 32
    have := hr.room
    rw [hr.perm.length_eq]
    split
    · omega
    · exact hr.room

/-- What holds before a call and after each of its successes holds once it is committed. -/
theorem World.commit_inv {α : Type} {m : Call Store α} {note : α → World} (P : World → Prop)
    (hw : P w) (hok : ∀ a s', Ok m w.store a s' → P { note a with store := s' }) :
    P (w.commit m note) := by
  unfold World.commit
  split
  · rename_i a s' h
    exact hok a s' (Tx.ok_checkpoint.mp h)
  · exact hw

theorem Consistent.mem_active (h : Consistent w) (hex : (w.store.positions id).Exists)
    (hlive : (w.store.positions id).state.isTerminal = false) : id ∈ w.store.active :=
  (h.active id).mpr ⟨hex, hlive⟩

theorem Consistent.room_of_mem (h : Consistent w) (hid : id ∈ w.store.active) :
    (w.store.active.erase id).length + 1 < 2 ^ 32 := by
  rw [← length_cons, ← (perm_cons_erase hid).length_eq]
  exact h.room

/-- A call that takes a position off the active list. -/
theorem Consistent.retire (h : Consistent w)
    (hm : Moved w.store s' id p' (w.store.active.swapRemove (w.store.activePositionIndex id))
      (w.store.countsWithout id)) (hex : (w.store.positions id).Exists)
    (hlive : (w.store.positions id).state.isTerminal = false) (hex' : p'.Exists)
    (hkey : p'.positionId = id) (hsound : Sound p' j w.now) (hterm : p'.state.isTerminal = true) :
    Rewrites w s' id p' j := by
  have hid := h.mem_active hex hlive
  refine ⟨fun _ => hlive, hm.positions, hex', hkey, hsound, hm.listed, ?_, fun a => ?_,
    h.room_of_mem hid⟩
  · rw [if_pos hterm, hm.active]
    exact ((swapRemove_cons_perm (h.listed.getElem? hid)).trans (perm_cons_erase hid)).cons_inv
  · have hsplit := h.count_split hid (a := a)
    rw [hm.counts, p'.isCalledOf_of_terminal hterm]
    unfold Store.countsWithout
    split <;> rename_i hcalled
    · by_cases ha : (w.store.positions id).smartAccount = a
      · simp_all [Position.isCalledOf]
      · rw [update_of_ne (Ne.symm ha), hsplit]
        simp [Position.isCalledOf, ha]
    · rw [hsplit]
      simp [Position.isCalledOf, hcalled]

theorem Consistent.markCalled (h : Consistent w) {done : Bool}
    (hok : Ok (markCalled id w.now) w.store done s') :
    s' = w.store ∨ Rewrites w s' id ((w.store.positions id).called w.now) (w.journal id) := by
  refine (markCalled_cases hok h.listed (h.keyed id)).imp_right fun ⟨hex, hopen, hm⟩ => ?_
  have hlive : (w.store.positions id).state.isTerminal = false := by rw [hopen]; rfl
  have hid := h.mem_active hex hlive
  refine ⟨fun _ => hlive, hm.positions, hex, h.keyed id hex, (h.sound id hex).called hopen,
    hm.listed, by rw [hm.active]; exact perm_cons_erase hid, fun a => ?_, h.room_of_mem hid⟩
  -- one position of the account becomes called, and the count has room for it
  have hsplit := h.count_split hid (a := a)
  rw [hm.counts]
  by_cases ha : (w.store.positions id).smartAccount = a
  · have hlen := countP_le_length (p := fun b => (w.store.positions b).isCalledOf a)
      (l := w.store.active.erase id)
    have hroom := h.room_of_mem hid
    have hno : (w.store.positions id).isCalledOf a = false := by simp [Position.isCalledOf, hopen]
    have hyes : ((w.store.positions id).called w.now).isCalledOf a = true := by
      simp [Position.isCalledOf, Position.called, ha]
    rw [hno] at hsplit
    rw [ha, update_self, hsplit, hyes, saturatingAdd]
    simp only [Bool.false_eq_true, if_false, if_true]
    omega
  · rw [update_of_ne (Ne.symm ha), hsplit]
    simp [Position.isCalledOf, Position.called, hopen, ha]

theorem Consistent.voidPosition (h : Consistent w) {v : Void}
    (hok : Ok (voidPosition id w.now) w.store v s') :
    Rewrites w s' id (w.store.positions id).voided
      { w.journal id with burned := (w.journal id).burned + v.gratisBurned } := by
  obtain ⟨hex, hcalled, hburned, hm⟩ := voidPosition_cases hok h.listed (h.keyed id) h.mem_active
  rw [hburned]
  exact h.retire hm hex (by rw [hcalled]; rfl) hex (h.keyed id hex) (h.sound id hex).voided rfl

theorem Consistent.settle (h : Consistent w) {amount : Nat} {r : Settlement}
    (hok : Ok (settle id amount w.now) w.store r s') :
    ∃ p', Rewrites w s' id p' ((w.charge id r).journal id) := by
  obtain ⟨p', ho⟩ := settle_cases hok h.listed (h.keyed id) h.mem_active
  have hsound : Sound p' ((w.charge id r).journal id) w.now := by
    simp only [World.charge, update_self]
    exact (h.sound id ho.exists_).settled ho.live h.now_lt ho.interest ho.released ho.applied
  have hid := h.mem_active ho.exists_ ho.live
  refine ⟨p', ?_⟩
  obtain ⟨-, -, rfl⟩ := applyPayment_eq_ok.mp ho.applied
  rcases ho.moved with ⟨hne, hm⟩ | ⟨hzero, hm⟩
  · -- the position stays, in its state
    refine ⟨fun _ => ho.live, hm.positions, ho.exists_, h.keyed id ho.exists_, hsound, hm.listed, ?_,
      fun a => ?_, h.room_of_mem hid⟩
    · simp only [if_neg hne, ho.live, hm.active]
      exact perm_cons_erase hid
    · rw [hm.counts, h.count_split hid]
      simp only [Position.isCalledOf, if_neg hne]
      rfl
  · exact h.retire hm ho.exists_ ho.live ho.exists_ (h.keyed id ho.exists_) hsound
      (by simp only [if_pos hzero]; rfl)

theorem Consistent.block (h : Consistent w) (timestamp : UInt64) :
    Consistent { w with now := max w.now timestamp.toNat } where
  now_lt := Nat.max_lt.mpr ⟨h.now_lt, timestamp.toNat_lt⟩
  keyed := h.keyed
  sound := fun id hex => (h.sound id hex).mono (le_max_left _ _)
  unwritten := h.unwritten
  listed := h.listed
  active := h.active
  counts := h.counts
  room := h.room

variable {params : OpenPositionParams}

theorem Sound.opened {callPrice now : Nat}
    (hprincipal : 0 < params.principal) (horigin : params.originatedAt = now) :
    Sound (params.position id callPrice) ⟨[], 0⟩ now where
  principal_pos := hprincipal
  conserved := (zero_add _).symm
  covered := le_rfl
  terminal := fun ht => by cases ht
  live := fun _ => ⟨hprincipal, rfl⟩
  anchor := rfl
  anchor_le := horigin.le
  journal := ⟨fun before c after hl => (by simp at hl), List.Pairwise.nil, fun c hc => by cases hc⟩

theorem Consistent.openPosition (h : Consistent w) {positionIdOf : B256 → Address → B256}
    (hok : Ok (openPosition positionIdOf { params with originatedAt := w.now }) w.store id s')
    (haccount : params.smartAccount ≠ 0) (hroom : w.store.activePositions.length + 1 < 2 ^ 32) :
    ∃ p', Rewrites w s' id p' (w.journal id) := by
  have hnotin : ¬ (w.store.positions id).Exists → id ∉ w.store.active := fun hnew hmem =>
    hnew ((h.active id).mp hmem).1
  obtain ⟨hprincipal, hnew, callPrice, hm⟩ := openPosition_cases hok h.listed hnotin hroom
  have herase := erase_of_not_mem (hnotin hnew)
  refine ⟨_, fun hex => absurd hex hnew, hm.positions, haccount, rfl,
    h.unwritten id hnew ▸ Sound.opened hprincipal rfl, hm.listed, ?_, fun a => ?_, ?_⟩
  · rw [herase, hm.active]
    exact perm_append_singleton id _
  · rw [herase, hm.counts, h.counts a]
    rfl
  · rw [herase, Store.active, StorageVec.length_readAll]
    exact hroom

end Step

/-! ### Runs -/

/-- A step keeps clear of what the storage layer cannot tell apart: it opens no position for the
zero account, and the active list has room for one more. -/
def Admissible : Op → World → Prop
  | .openPosition params, w =>
    params.smartAccount ≠ 0 ∧ w.store.activePositions.length + 1 < 2 ^ 32
  | _, _ => True

section Run

variable {positionIdOf : B256 → Address → B256} {w : World} {op : Op} {id : B256}

/-- A step writes no position, or one that is new or can still change. -/
theorem Consistent.step_cases (h : Consistent w) (ha : Admissible op w) :
    ((step positionIdOf op w).store = w.store ∧ Consistent (step positionIdOf op w)) ∨
      ∃ s' id p' j, Rewrites w s' id p' j ∧
        step positionIdOf op w = { w with store := s', journal := update w.journal id j } := by
  let P : World → Prop := fun v => (v.store = w.store ∧ Consistent v) ∨
    ∃ s' id p' j, Rewrites w s' id p' j ∧
      v = { w with store := s', journal := update w.journal id j }
  have hfail : P w := .inl ⟨rfl, h⟩
  cases op with
  | block timestamp => exact .inl ⟨rfl, h.block timestamp⟩
  | openPosition params =>
    refine World.commit_inv P hfail fun id s' hok => ?_
    obtain ⟨p', hr⟩ := h.openPosition hok ha.1 ha.2
    exact .inr ⟨s', id, p', _, hr, by rw [update_eq_self]⟩
  | markCalled id =>
    refine World.commit_inv P hfail fun _ s' hok => ?_
    rcases h.markCalled hok with rfl | hr
    · exact hfail
    · exact .inr ⟨s', id, _, _, hr, by rw [update_eq_self]⟩
  | settle id amount =>
    refine World.commit_inv P hfail fun _ s' hok => ?_
    obtain ⟨p', hr⟩ := h.settle hok
    exact .inr ⟨s', id, p', _, hr, by simp [World.charge]⟩
  | voidPosition id =>
    exact World.commit_inv P hfail fun _ s' hok => .inr ⟨s', id, _, _, h.voidPosition hok, rfl⟩

theorem Consistent.step (h : Consistent w) (ha : Admissible op w) :
    Consistent (step positionIdOf op w) := by
  rcases h.step_cases ha with ⟨-, hc⟩ | ⟨s', id, p', j, hr, heq⟩
  · exact hc
  · exact heq ▸ h.rewrite hr

/-- A terminal position is left as it is. -/
theorem Consistent.step_terminal (h : Consistent w) (ha : Admissible op w)
    (hex : (w.store.positions id).Exists) (hterm : (w.store.positions id).state.isTerminal = true) :
    (Credis.step positionIdOf op w).store.positions id = w.store.positions id := by
  rcases h.step_cases ha with ⟨hstore, -⟩ | ⟨s', id', p', j, hr, heq⟩
  · rw [hstore]
  · rw [heq]
    show s'.positions id = _
    rw [hr.positions, update_of_ne]
    rintro rfl
    rw [hr.live hex] at hterm
    cases hterm

end Run

structure InOrder (w : World) : Prop where
  /-- Collateral is released, burned or locked. -/
  conserved : ∀ id, (w.store.positions id).Exists →
    (w.store.positions id).collateral =
      (w.journal id).released + (w.journal id).burned + (w.store.positions id).collateralLocked
  covered : ∀ id, (w.store.positions id).Exists →
    (w.store.positions id).collateral * (w.store.positions id).outstanding ≤
      (w.store.positions id).collateralLocked * (w.store.positions id).principal
  /-- The subtraction of a released share does not fail. -/
  release_le : ∀ id paid released, (w.store.positions id).Exists →
    paid ≤ (w.store.positions id).outstanding →
    gratisReleased (w.store.positions id) paid = .ok released →
    released ≤ (w.store.positions id).collateralLocked
  terminal : ∀ id, (w.store.positions id).Exists →
    (w.store.positions id).state.isTerminal = true →
    (w.store.positions id).outstanding = 0 ∧ (w.store.positions id).collateralLocked = 0
  active_nodup : w.store.active.Nodup
  mem_active : ∀ id, id ∈ w.store.active ↔ w.store.Live id
  /-- The index is the inverse of the active list. -/
  index : ∀ i id, w.store.active[i]? = some id ↔
    id ∈ w.store.active ∧ w.store.activePositionIndex id = i
  called : ∀ a, w.store.calledPositionCounts a =
    {id | (w.store.positions id).Exists ∧ (w.store.positions id).state = .called ∧
      (w.store.positions id).smartAccount = a}.ncard
  anchor : ∀ id, (w.store.positions id).Exists →
    (w.store.positions id).lastSettledAt = (w.store.positions id).originatedAt +
        secondsPerDay * daysOf (w.journal id).charges ∧
      (w.store.positions id).lastSettledAt ≤ w.now
  /-- Each day charged is charged by one payment, on the principal outstanding at its end. -/
  charged_once : ∀ id, (w.store.positions id).Exists → ∀ d < daysOf (w.journal id).charges,
    ∃ before c, (w.journal id).ChargesDay d before c ∧
      (∀ before' c', (w.journal id).ChargesDay d before' c' → before' = before ∧ c' = c) ∧
      c.principal = (w.journal id).outstandingAt (w.store.positions id).principal
        (dayEnd (w.store.positions id).originatedAt d)
  /-- The interest taken is at least the exact ACT/365 amount. -/
  interest : ∀ id, (w.store.positions id).Exists → ∀ c ∈ (w.journal id).charges,
    c.principal * (w.store.positions id).policyRate * c.days ≤ c.interest * (daysPerYear * scale1e6)

theorem Consistent.called_eq {w : World} (h : Consistent w) (a : Address) :
    w.store.calledPositionCounts a =
      {id | (w.store.positions id).Exists ∧ (w.store.positions id).state = .called ∧
        (w.store.positions id).smartAccount = a}.ncard := by
  have hset : {id | (w.store.positions id).Exists ∧ (w.store.positions id).state = .called ∧
      (w.store.positions id).smartAccount = a} =
      ((w.store.active.filter fun id => (w.store.positions id).isCalledOf a).toFinset : Set B256) := by
    ext id
    simp only [Set.mem_ofPred_eq, coe_toFinset, mem_filter, h.active id, Store.Live,
      Position.isCalledOf, decide_eq_true_eq]
    constructor
    · rintro ⟨hex, hcalled, hacc⟩
      exact ⟨⟨hex, by rw [hcalled]; rfl⟩, hcalled, hacc⟩
    · rintro ⟨⟨hex, -⟩, hcalled, hacc⟩
      exact ⟨hex, hcalled, hacc⟩
  rw [hset, Set.ncard_coe_finset, toFinset_card_of_nodup (h.listed.nodup.filter _), h.counts a,
    countP_eq_length_filter]

theorem Consistent.inOrder {w : World} (h : Consistent w) : InOrder w where
  conserved := fun id hex => (h.sound id hex).conserved
  covered := fun id hex => (h.sound id hex).covered
  release_le := fun id _ _ hex hpaid hr => ((h.sound id hex).release hpaid hr).1
  terminal := fun id hex => (h.sound id hex).terminal
  active_nodup := h.listed.nodup
  mem_active := h.active
  index := fun i id => ⟨fun hi => ⟨mem_of_getElem? hi, h.listed i id hi⟩,
    fun ⟨hmem, hi⟩ => hi ▸ h.listed.getElem? hmem⟩
  called := h.called_eq
  anchor := fun id hex => ⟨(h.sound id hex).anchor, (h.sound id hex).anchor_le⟩
  charged_once := fun id hex d hd => by
    obtain ⟨before, c, hc⟩ := exists_chargesDay hd
    exact ⟨before, c, hc, fun _ _ h' => hc.unique h', (h.sound id hex).journal.principal_eq hc⟩
  interest := fun id hex c hc => by
    obtain ⟨before, after, hl⟩ := append_of_mem hc
    exact ((h.sound id hex).journal.good before c after hl).interest

/-- Along every run the ledger is in order, and a terminal position never changes again. -/
theorem ledger_of_run {positionIdOf : B256 → Address → B256} {l l' : List Op}
    (h : Along (step positionIdOf) Admissible (l ++ l') .genesis) :
    InOrder (run (step positionIdOf) l .genesis) ∧
      ∀ id, ((run (step positionIdOf) l .genesis).store.positions id).Exists →
        ((run (step positionIdOf) l .genesis).store.positions id).state.isTerminal = true →
        (run (step positionIdOf) (l ++ l') .genesis).store.positions id =
          (run (step positionIdOf) l .genesis).store.positions id := by
  obtain ⟨hl, hl'⟩ := h.of_append
  have hc : Consistent (run (step positionIdOf) l .genesis) :=
    run_inv Consistent (fun _ _ ha hI => hI.step ha) hl Consistent.genesis
  refine ⟨hc.inOrder, fun id hex hterm => ?_⟩
  rw [run_append]
  generalize run (step positionIdOf) l .genesis = w at hc hex hterm hl'
  have hrun := run_inv
    (fun v => Consistent v ∧ v.store.positions id = w.store.positions id)
    (fun op v ha ⟨hv, heq⟩ => ⟨hv.step ha,
      (hv.step_terminal ha (heq ▸ hex) (heq ▸ hterm)).trans heq⟩) hl' ⟨hc, rfl⟩
  exact hrun.2

/-- A loan of 1000 on a collateral of 300. -/
def sampleLoan (account : Address) : OpenPositionParams where
  handleId := 5#256
  smartAccount := account
  cca := 1#160
  eoaCt := []
  asset := 2#160
  issuanceCurrency := 840
  referenceCurrency := 978
  policyRate := 50000
  principal := 1000
  entryPrice := 7
  collateral := 300
  originatedAt := 0

/-- A loan that is paid in part after ten days, called and paid off. -/
theorem ledger_of_repaidLoan :
    InOrder (run (step fun _ _ => 9#256)
      [.openPosition (sampleLoan 3#160), .block 864000, .settle 9#256 100, .markCalled 9#256,
        .settle 9#256 5000] .genesis) ∧
      (run (step fun _ _ => 9#256)
        [.openPosition (sampleLoan 3#160), .block 864000, .settle 9#256 100, .markCalled 9#256,
          .settle 9#256 5000] .genesis).journal 9#256 =
        ⟨[⟨864000, 1000, 10, 2, 98, 29⟩, ⟨864000, 902, 0, 0, 902, 271⟩], 0⟩ := by
  have h : Along (step fun _ _ => 9#256) Admissible
      ([.openPosition (sampleLoan 3#160), .block 864000, .settle 9#256 100, .markCalled 9#256,
        .settle 9#256 5000] ++ []) .genesis :=
    ⟨⟨by decide, by decide +kernel⟩, trivial, trivial, trivial, trivial, trivial⟩
  exact ⟨(ledger_of_run h).1, by decide +kernel⟩

/-- A record of the zero account counts as an empty slot, so that its position opens twice and is
listed twice. -/
theorem zeroAccount_listed_twice :
    (run (step fun _ _ => 9#256)
      [.openPosition (sampleLoan 0#160), .openPosition (sampleLoan 0#160)] .genesis).store.active =
        [9#256, 9#256] ∧
      ¬ ((run (step fun _ _ => 9#256)
        [.openPosition (sampleLoan 0#160), .openPosition (sampleLoan 0#160)]
          .genesis).store.positions 9#256).Exists := by
  decide +kernel

end Rudis.Credis
