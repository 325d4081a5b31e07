import Rudis.Spec.Desis.Auction

/-!
# `Rudis.Proofs.Desis.Life`: the life of one auction day

An auction day on its own, without the other days, the bids or the router: its stage, the supply it
still holds, the two sets it may be in, and what was credited for it. `Life.Step` lists what can
happen to it. A day is `Life.Sound` when its supply is accounted for: held while the day is open,
and split between what was issued and one credit once it is closed.

* `Life.Sound.step`: every step keeps a day sound.
* `Life.edges_of_path`: the stage follows `AuctionStage.Edge`, so a closed day stays closed.
* `Life.credits_eq_of_closed`: a closed day is credited nothing more.
-/

namespace Rudis.Desis

open Relation (ReflTransGen)

/-- The stage moves of an auction day. -/
inductive AuctionStage.Edge : AuctionStage → AuctionStage → Prop
  | brief : Edge .none .briefed
  | start : Edge .briefed .started
  | reveal : Edge .started .revealing
  | arm : Edge .revealing .clearing
  | clear : Edge .clearing .cleared
  | cancel {stage : AuctionStage} (known : stage ≠ .none) (opened : stage.isTerminal = false) :
      Edge stage .cancelled

/-- What one auction day holds. -/
structure Life where
  stage : AuctionStage
  supply : Nat
  supplyIntex : Nat
  load : Nat
  green : Bool
  scheduled : Bool
  gated : Bool
  briefed : Nat
  issued : Nat
  credits : List Nat

/-- A credit of nothing is not made. -/
def creditOf (amount : Nat) : List Nat := if amount = 0 then [] else [amount]

namespace Life

/-- The supply goes back to PromisLimit. -/
def refund (l : Life) : Life := { l with supply := 0, credits := l.credits ++ creditOf l.supply }

/-- The day is cancelled and leaves the schedule; its supply stays where it is. -/
def cancelled (l : Life) : Life := { l with stage := .cancelled, scheduled := false }

/-- The day clears `issued` units, and the PROMIS they do not carry goes back. -/
def cleared (l : Life) (issued : Nat) : Life :=
  { l with
    stage := .cleared
    supply := 0
    supplyIntex := 0
    gated := false
    issued := issued
    credits := l.credits ++ creditOf (l.supply - wrappingMul 256 issued l.load) }

/-- What can happen to an auction day. -/
inductive Step : Life → Life → Prop
  | brief {l : Life} (supply load : Nat) (green : Bool) (unknown : l.stage = .none)
      (loaded : 0 < load) (bounded : supply ≤ u128Max) (red : green = false → supply = 0) :
      Step l { l with
        stage := .briefed, supply := supply, load := load, green := green, scheduled := true,
        briefed := supply }
  | start {l : Life} (briefed : l.stage = .briefed) : Step l { l with stage := .started }
  | cancelRed {l : Life} (briefed : l.stage = .briefed) (red : l.green = false) :
      Step l l.cancelled
  | cancel {l : Life} (briefed : l.stage = .briefed) : Step l l.refund.cancelled
  | reveal {l : Life} (started : l.stage = .started) : Step l { l with stage := .revealing }
  | arm {l : Life} (supplyIntex : Nat) (revealing : l.stage = .revealing)
      (fits : supplyIntex ≤ l.supply / l.load) :
      Step l { l with stage := .clearing, supplyIntex := supplyIntex, gated := true }
  | clear {l : Life} (issued : Nat) (clearing : l.stage = .clearing)
      (fits : issued ≤ l.supplyIntex) : Step l (l.cleared issued)
  | overdue {l : Life} (known : l.stage ≠ .none) (opened : l.stage.isTerminal = false) :
      Step l { l.refund.cancelled with gated := false }
  | unschedule {l : Life} (closed : l.stage.isTerminal = true) :
      Step l { l with scheduled := false }

/-- The supply of the day is accounted for. -/
structure Sound (l : Life) : Prop where
  bounded : l.supply ≤ u128Max
  loaded : l.stage ≠ .none → 0 < l.load
  red : l.green = false → l.supply = 0
  gate : l.gated = true ↔ l.stage = .clearing
  lots : l.stage = .clearing → l.supplyIntex * l.load ≤ l.supply
  unknown : l.stage = .none → l.supply = 0 ∧ l.scheduled = false
  uncredited : l.stage.isTerminal = false → l.issued = 0 ∧ l.credits = []
  held : l.stage ≠ .none → l.stage.isTerminal = false → l.scheduled = true ∧ l.supply = l.briefed
  released : l.stage.isTerminal = true → l.supply = 0 ∧
    ∃ amount, l.credits = creditOf amount ∧ l.briefed = l.issued * l.load + amount
  unissued : l.stage = .cancelled → l.issued = 0

/-- The life of a day nobody has briefed. -/
def unknown (load : Nat) : Life := ⟨.none, 0, 0, load, false, false, false, 0, 0, []⟩

theorem sound_unknown (load : Nat) : (unknown load).Sound := by
  constructor <;> simp [unknown, AuctionStage.isTerminal]

section Steps

variable {l l' : Life}

/-- A day that holds nothing has nothing to give back. -/
theorem refund_of_supply_eq_zero (h : l.supply = 0) : l.refund = l := by
  obtain ⟨⟩ := l
  simp_all [refund, creditOf]

/-- An open day that gives its supply back and is cancelled is accounted for. -/
theorem Sound.cancel (h : l.Sound) (hknown : l.stage ≠ .none)
    (hopen : l.stage.isTerminal = false) {gated : Bool} (hgate : gated = false) :
    { l.refund.cancelled with gated := gated }.Sound := by
  obtain ⟨hissued, hcredits⟩ := h.uncredited hopen
  obtain ⟨-, hheld⟩ := h.held hknown hopen
  constructor <;> simp [refund, cancelled, AuctionStage.isTerminal, hgate]
  case loaded => exact h.loaded hknown
  case released => exact ⟨l.supply, by rw [hcredits, List.nil_append], by rw [hissued, hheld]; simp⟩
  case unissued => exact hissued

variable {issued supplyIntex : Nat}

/-- An open day may move to another open stage with its supply. -/
theorem Sound.advance (h : l.Sound) (hknown : l.stage ≠ .none) (hopen : l.stage.isTerminal = false)
    {stage : AuctionStage} {gated : Bool} (hknown' : stage ≠ .none)
    (hopen' : stage.isTerminal = false) (hgate : gated = true ↔ stage = .clearing)
    (hlots : stage = .clearing → supplyIntex * l.load ≤ l.supply) :
    { l with stage := stage, supplyIntex := supplyIntex, gated := gated }.Sound where
  bounded := h.bounded
  loaded := fun _ => h.loaded hknown
  red := h.red
  gate := hgate
  lots := hlots
  unknown := fun hstage => absurd hstage hknown'
  uncredited := fun _ => h.uncredited hopen
  held := fun _ _ => h.held hknown hopen
  released := fun hclosed => absurd (show stage.isTerminal = true from hclosed) (by simp [hopen'])
  unissued := fun _ => (h.uncredited hopen).1

/-- The PROMIS of the issued units never exceeds the supply, so nothing wraps. -/
theorem Sound.issued_mul_load (h : l.Sound) (hstage : l.stage = .clearing)
    (hle : issued ≤ l.supplyIntex) :
    wrappingMul 256 issued l.load = issued * l.load ∧ issued * l.load ≤ l.supply := by
  have hmul : issued * l.load ≤ l.supply :=
    (Nat.mul_le_mul_right l.load hle).trans (h.lots hstage)
  have hsmall : l.supply < 2 ^ 256 :=
    lt_of_le_of_lt h.bounded (by decide)
  exact ⟨mod_eq_of_lt (by omega), hmul⟩

theorem Sound.clear (h : l.Sound) (hstage : l.stage = .clearing)
    (hle : issued ≤ l.supplyIntex) : (l.cleared issued).Sound := by
  have hknown : l.stage ≠ .none := by simp [hstage]
  have hopen : l.stage.isTerminal = false := by simp [hstage, AuctionStage.isTerminal]
  obtain ⟨hwrap, hmul⟩ := h.issued_mul_load hstage hle
  obtain ⟨-, hcredits⟩ := h.uncredited hopen
  obtain ⟨-, hheld⟩ := h.held hknown hopen
  constructor <;> simp [cleared, AuctionStage.isTerminal]
  case loaded => exact h.loaded hknown
  case released =>
    refine ⟨l.supply - issued * l.load, by rw [hcredits, hwrap, List.nil_append], ?_⟩
    omega

/-- Every step keeps a day accounted for. -/
theorem Sound.step (h : l.Sound) (hstep : Step l l') : l'.Sound := by
  cases hstep with
  | brief supply load green unknown loaded bounded red =>
    have hopen : l.stage.isTerminal = false := by simp [unknown, AuctionStage.isTerminal]
    have hgate : l.gated = false := by simpa [unknown] using h.gate
    constructor <;> simp_all [AuctionStage.isTerminal, h.uncredited hopen]
  | start briefed =>
    have hgate : l.gated = false := by simpa [briefed] using h.gate
    exact h.advance (by simp [briefed]) (by simp [briefed, AuctionStage.isTerminal]) (by simp) rfl
      (by simp [hgate]) (by simp)
  | reveal started =>
    have hgate : l.gated = false := by simpa [started] using h.gate
    exact h.advance (by simp [started]) (by simp [started, AuctionStage.isTerminal]) (by simp) rfl
      (by simp [hgate]) (by simp)
  | arm supplyIntex revealing fits =>
    exact h.advance (by simp [revealing]) (by simp [revealing, AuctionStage.isTerminal]) (by simp)
      rfl (by simp) fun _ => (Nat.mul_le_mul_right _ fits).trans (Nat.div_mul_le_self _ _)
  | cancelRed briefed red =>
    -- a red day was briefed with nothing, so there is nothing to give back
    have hgate : l.gated = false := by simpa [briefed] using h.gate
    have hcancel := h.cancel (by simp [briefed]) (by simp [briefed, AuctionStage.isTerminal]) hgate
    rwa [refund_of_supply_eq_zero (h.red red)] at hcancel
  | cancel briefed =>
    have hgate : l.gated = false := by simpa [briefed] using h.gate
    exact h.cancel (by simp [briefed]) (by simp [briefed, AuctionStage.isTerminal]) hgate
  | clear issued clearing fits => exact h.clear clearing fits
  | overdue known opened => exact h.cancel known opened rfl
  | unschedule closed =>
    have hnone : l.stage ≠ .none := fun hstage => by
      simp [hstage, AuctionStage.isTerminal] at closed
    exact { h with
      unknown := fun hstage => absurd hstage hnone
      held := fun _ hopen => absurd closed (by rw [show l.stage.isTerminal = false from hopen]; simp) }

theorem Sound.path (h : l.Sound) (hpath : ReflTransGen Step l l') : l'.Sound := by
  induction hpath with
  | refl => exact h
  | tail _ hstep ih => exact ih.step hstep

/-- A step moves the stage along one edge, or not at all. -/
theorem edge_of_step (hstep : Step l l') : l'.stage = l.stage ∨ l.stage.Edge l'.stage := by
  cases hstep with
  | brief _ _ _ unknown => exact .inr (unknown ▸ .brief)
  | start briefed => exact .inr (briefed ▸ .start)
  | cancelRed briefed red | cancel briefed =>
    exact .inr (.cancel (by simp [briefed]) (by simp [briefed, AuctionStage.isTerminal]))
  | reveal started => exact .inr (started ▸ .reveal)
  | arm _ revealing => exact .inr (revealing ▸ .arm)
  | clear _ clearing => exact .inr (clearing ▸ .clear)
  | overdue known opened => exact .inr (.cancel known opened)
  | unschedule closed => exact .inl rfl

/-- The stage of a day follows the edges. -/
theorem edges_of_path (hpath : ReflTransGen Step l l') :
    ReflTransGen AuctionStage.Edge l.stage l'.stage := by
  induction hpath with
  | refl => exact .refl
  | tail _ hstep ih =>
    rcases edge_of_step hstep with heq | hedge
    · rwa [heq]
    · exact ih.tail hedge

end Steps

end Life

namespace AuctionStage

variable {stage stage' : AuctionStage}

theorem not_edge_of_isTerminal (h : stage.isTerminal = true) : ¬ stage.Edge stage' := by
  intro hedge
  cases hedge <;> simp_all [isTerminal]

theorem eq_of_isTerminal (h : stage.isTerminal = true)
    (hpath : ReflTransGen Edge stage stage') : stage' = stage := by
  induction hpath with
  | refl => rfl
  | tail _ hedge ih => exact absurd hedge (not_edge_of_isTerminal (ih ▸ h))

/-- No edge leads back to an unbriefed day. -/
theorem ne_none_of_path (h : stage ≠ .none)
    (hpath : ReflTransGen Edge stage stage') : stage' ≠ .none := by
  induction hpath with
  | refl => exact h
  | tail _ hedge _ => cases hedge <;> simp

end AuctionStage

namespace Life

variable {l l' : Life}

/-- The only step of a closed day is to leave the schedule. -/
theorem credits_eq_of_closed_step (hclosed : l.stage.isTerminal = true) (hstep : Step l l') :
    l'.credits = l.credits := by
  cases hstep <;> first | rfl | simp_all [AuctionStage.isTerminal]

/-- Nothing is credited for a day that is closed already. -/
theorem credits_eq_of_closed (hclosed : l.stage.isTerminal = true)
    (hpath : ReflTransGen Step l l') : l'.credits = l.credits := by
  induction hpath with
  | refl => rfl
  | tail hpath hstep ih =>
    have hstage := AuctionStage.eq_of_isTerminal hclosed (edges_of_path hpath)
    exact (credits_eq_of_closed_step (hstage ▸ hclosed) hstep).trans ih

end Life

end Rudis.Desis
